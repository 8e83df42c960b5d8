/-
CommentThreads.Store.Comments — the comments of all posts, as programs
over a key-value store.

Each post has an index of its comments' hashes, newest first; each comment
has its record under one key and, if it can be changed, the hash of its
password under another. An edit or a removal has to come with the
password. Threads are one level deep: an answer to an answer becomes an
answer to its root.
-/
import CommentThreads.Password.Hash
import CommentThreads.Record.Listing
import CommentThreads.Store.Program
import CommentThreads.Text.Words

namespace CommentThreads.Store

open CommentThreads.Time

/-- Why an operation on comments fails. `notEncodable` is a text with a lone
half where bytes are needed: a password to be hashed, or a key of a store
that names its keys. -/
inductive Fault
  | notFound (hash : RawText)
  | locked (hash : RawText)
  | wrongPassword (hash : RawText)
  | noFreshHash
  | badSalt
  | notEncodable
  | passwordRecordNotText
  | recordNotObject
  | badRecord (errors : List FieldError)
  | clockOutOfRange
deriving Repr

/-- The wording of a fault. -/
def Fault.message : Fault → RawText
  | .notFound hash => "Comment " ++ hash ++ " not found"
  | .locked hash => "Comment " ++ hash ++ " has no password set"
  | .wrongPassword hash => "Invalid password for comment " ++ hash
  | .noFreshHash => "Could not allocate a unique commit hash"
  | .badSalt => "Invalid salt"
  | .notEncodable => "A lone half of a surrogate pair cannot be encoded"
  | .passwordRecordNotText => "The password record is no text"
  | .recordNotObject => "The comment record is no object"
  | .badRecord _ => "The comment record has wrong fields"
  | .clockOutOfRange => "The clock is outside the years 1 to 9999"

/-- A program that may fail. -/
abbrev Action (α : Type) := ExceptT Fault Program α

/-- What the operations need to know besides their arguments. -/
structure Config where
  defaultAuthor : String
  salt : String
deriving DecidableEq, Repr

/-- The key of a post's index. -/
def indexKey (post : RawText) : RawText := "comments:" ++ post

/-- The key of a comment's record. -/
def recordKey (hash : RawText) : RawText := "comment:" ++ hash

/-- The key of the hash of a comment's password. -/
def passwordKey (hash : RawText) : RawText := "password:" ++ hash

/-- Make one call. -/
def ask (c : Call) : Action c.Answer := do
  match ← ExceptT.lift (Program.perform c) with
  | some answer => return answer
  | none => throw .notEncodable

/-- A fresh hash: the first digits of a random number. -/
def freshHash : Action RawText := do
  let digits ← ExceptT.lift Program.randomDigits
  return Text.firstChars Comment.hashLength digits

/-- The time now, which has to lie in the calendar. -/
def currentTime : Action DateTime := do
  let micros ← ExceptT.lift Program.now
  if inRange micros then return .utc micros else throw .clockOutOfRange

/-- The value of a key that an object lacks; it is made only if needed. -/
def unlessPresent {α : Type} (key : String) (record : Json) (unused : α) (make : Action α) :
    Action α :=
  match record.field? key with
  | some _ => return unused
  | none => make

/-- The comment of a record. A hash and a time of creation that the record
lacks are drawn anew. -/
def loadRecord (record : Json) : Action Comment :=
  match record with
  | .object _ => do
    let hash ← unlessPresent "commit_hash" record ("" : RawText) freshHash
    let created ← unlessPresent "created_at" record (.utc 0) currentTime
    match Comment.reader hash created record with
    | .valid c => return c
    | .invalid errors => throw (.badRecord errors)
  | _ => throw .recordNotObject

/-- The comment with a hash, if there is one. -/
def find (hash : RawText) : Action (Option Comment) := do
  match ← ask (.get (recordKey hash)) with
  | none => return none
  | some record => return some (← loadRecord record)

/-- The comments with some hashes, without those that are not there. -/
def findAll : List RawText → Action (List Comment)
  | [] => return []
  | hash :: rest => do
    let found ← find hash
    let others ← findAll rest
    return found.toList ++ others

/-- The comments of a post, newest first. -/
def list (post : RawText) : Action (List Comment) := do
  findAll (← ask (.items (indexKey post)))

/-- The threads of some comments: those that answer no other, each with its
answers. -/
def threadsOf (comments : List Comment) : List Thread :=
  (comments.filter Comment.isRoot).map fun root =>
    ⟨root.summary, (comments.filter (·.parent = some root.hash)).map Comment.summary⟩

/-- The threads of a post. -/
def threads (post : RawText) : Action (List Thread) := do
  return threadsOf (← list post)

/-- How often a fresh hash is tried. -/
def mostAttempts : Nat := 5

/-- A fresh hash that no record has. -/
def newHash : (attempts : Nat) → Action RawText
  | 0 => throw .noFreshHash
  | attempts + 1 => do
    let hash ← freshHash
    match ← ask (.get (recordKey hash)) with
    | none => return hash
    | some _ => newHash attempts

/-- A comment that has to be there and on the post. -/
def findOn (post hash : RawText) : Action Comment := do
  match ← find hash with
  | some c => if c.post = post then return c else throw (.notFound hash)
  | none => throw (.notFound hash)

/-- The hash that an answer to a comment is attached to: the comment's, or
its root's if it is itself an answer. -/
def resolveParent (post hash : RawText) : Action RawText := do
  let parent ← findOn post hash
  if parent.isRoot then return parent.hash
  else return (← findOn post (parent.parent.getD "")).hash

/-- A text that was given and is not empty. -/
def given (s : Option RawText) : Option RawText := s.bind RawText.nonEmpty?

/-- The parent that is asked for, resolved. -/
def resolveGiven (post : RawText) (parent : Option RawText) : Action (Option RawText) :=
  match given parent with
  | none => return none
  | some hash => return some (← resolveParent post hash)

/-- Why a password has no hash: it cannot be encoded, or else the salt is
none. -/
def unhashed (password : RawText) : Fault :=
  if password.isPlain then .badSalt else .notEncodable

/-- Keep the hash of a password, if one is given. -/
def keepPassword (config : Config) (hash : RawText) (password : Option RawText) : Action Unit :=
  match given password with
  | none => return ()
  | some password =>
    match Password.hash? config.salt password with
    | none => throw (unhashed password)
    | some stored => ask (.set (passwordKey hash) (.text stored))

/-- Store a new comment on a post. Without an author it is the default
author's; without a password it can never be changed. The password comes
last: where it has no hash, the comment is there all the same. -/
def create (config : Config) (post message : RawText) (author password parent : Option RawText) :
    Action Comment := do
  let parent ← resolveGiven post parent
  let hash ← newHash mostAttempts
  let created ← currentTime
  let author := (given author).getD (config.defaultAuthor : RawText)
  let comment : Comment := ⟨hash, post, author, message, parent, created, none⟩
  ask (.set (recordKey hash) comment.toJson)
  ask (.prepend (indexKey post) hash)
  keepPassword config hash password
  return comment

/-- Whether a password is the one whose hash is kept. The empty password
never is. -/
def passes (password : RawText) (stored : Json) : Except Fault Bool :=
  if password = "" then .ok false
  else match stored with
    | .text stored =>
      match Password.verify? password stored with
      | some b => .ok b
      | none => .error (if stored.isPlain then unhashed password else .notEncodable)
    | _ => .error .passwordRecordNotText

/-- The comment with a hash, for one who knows its password. -/
def authorize (hash password : RawText) : Action Comment := do
  let some comment ← find hash | throw (.notFound hash)
  match ← ask (.get (passwordKey hash)) with
  | none => throw (.locked hash)
  | some stored =>
    if !stored.isGiven then throw (.locked hash)
    else if ← ExceptT.mk (pure (passes password stored)) then return comment
    else throw (.wrongPassword hash)

/-- Give a comment a new message. -/
def update (hash password message : RawText) : Action Comment := do
  let comment ← authorize hash password
  let edited : Comment :=
    { comment with message := message, updated := some (← currentTime) }
  ask (.set (recordKey hash) edited.toJson)
  return edited

/-- Take a comment away: first from the index, so that no list names a
comment that is gone. -/
def delete (hash password : RawText) : Action Comment := do
  let comment ← authorize hash password
  ask (.remove (indexKey comment.post) hash)
  ask (.delete (recordKey hash))
  ask (.delete (passwordKey hash))
  return comment

end CommentThreads.Store
