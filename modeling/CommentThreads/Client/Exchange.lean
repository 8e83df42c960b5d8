/-
CommentThreads.Client.Exchange — asking the service for comments and changes.

Each function sends one request and reads the answer. Whatever goes wrong
with the server is one kind of fault, `refused`, with what there is to say
about it and the status of the answer, if there was one.
-/
import CommentThreads.Client.Dialogue
import CommentThreads.Json.Bytes
import CommentThreads.Json.Display
import CommentThreads.Record.Change
import CommentThreads.Record.Listing
import CommentThreads.Text.Words

namespace CommentThreads.Client

open CommentThreads.Http

/-- Why a request gives no result: the server refused it, it could not be
addressed or its body not be written, or the list of errors in its answer
has an entry that is no object, or a message in it that is no text. -/
inductive Fault
  | refused (detail : Json) (status : Option Nat)
  | badAddress
  | unwritable
  | entryNotObject
  | messageNotText
deriving Repr

/-- A dialogue that may fail. -/
abbrev Exchange (α : Type) := ExceptT Fault Dialogue α

/-- What an entry in a list of errors says: its message, or all of it. -/
def entryMessage : Json → Except Fault Json
  | .object entries =>
    .ok (((Json.object entries).field? "msg").getD (.text (Json.object entries).display))
  | _ => .error .entryNotObject

/-- A text, and no other value. -/
def textOnly : Json → Except Fault RawText
  | .text s => .ok s
  | _ => .error .messageNotText

/-- What a list of errors says. That every entry is an object is looked at
before any message. -/
def joinMessages (entries : List Json) : Except Fault RawText := do
  let messages ← entries.mapM entryMessage
  return RawText.joinWith "; " (← messages.mapM textOnly)

/-- What is said when an answer says nothing itself. -/
def statusText (status : Nat) : String :=
  "Request failed with status " ++ toString status

/-- What an answer with an error status says. -/
def errorDetail (status : Nat) (body : List UInt8) : Except Fault Json := do
  let detail := match Json.ofBytes body with
    | .ok v => (v.field? "detail").getD .null
    | .error _ => .null
  let said ← match detail with
    | .list entries => Json.text <$> joinMessages entries
    | v => pure v
  return if said.isGiven then said else .text (statusText status)

/-- The statuses of errors. -/
def isError (status : Nat) : Bool := 400 ≤ status && status < 600

/-- The body of a request has a written form, if it has a body. -/
def Query.isWritable (query : Query) : Bool := (query.json.map Json.isSendable).getD true

/-- Send a request, if it can be written; an answer with an error status is
a fault. -/
def send (query : Query) : Exchange (Nat × List UInt8) := do
  if !query.isWritable then throw .unwritable
  match ← ExceptT.lift (Dialogue.send query) with
  | .unreachable => throw (.refused (.text "Could not reach the comment server") none)
  | .badAddress => throw .badAddress
  | .answered status body =>
    if isError status then
      match errorDetail status body with
      | .ok detail => throw (.refused detail (some status))
      | .error fault => throw fault
    else return (status, body)

/-- What an answer holds, if it is what was asked for. -/
def receive {α : Type} (read : FieldReader α) (answer : Nat × List UInt8) : Exchange α :=
  let result : Option α := match Json.ofBytes answer.2 with
    | .error _ => none
    | .ok v =>
      match FieldReader.record read v with
      | .valid a => some a
      | .invalid _ => none
  match result with
  | some a => return a
  | none =>
    throw (.refused (.text "Unexpected response from the comment server") (some answer.1))

/-- Something that can be addressed. -/
def addressed (target : Option Target) : Exchange Target :=
  match target with
  | some t => return t
  | none => throw .badAddress

/-- How many seconds an answer may take before the server counts as out of
reach. -/
def timeoutSeconds : Nat := 10

/-- The target of all comments. -/
def commentsTarget : Target := ⟨"/comments".toList, none⟩

/-- The threads of a post. -/
def threads (post : String) : Exchange (List Thread) := do
  let target ← addressed (Target.ofField? "/comments" "post_id" post)
  receive Listing.reader (← send ⟨"GET", target, none⟩)

/-- A comment by itself. The hash becomes part of the address as it is. -/
def comment (hash : String) : Exchange Detail := do
  let target ← addressed (Target.ofReference? ("/comments/".toList ++ hash.toList))
  receive Detail.reader (← send ⟨"GET", target, none⟩)

/-- Store a comment. -/
def create (post : String) (author password : Json) (message : String) (parent : Option String) :
    Exchange Receipt := do
  let body := NewComment.body post author password message (parent.map .plain)
  receive Receipt.reader (← send ⟨"POST", commentsTarget, some body⟩)

/-- Give a comment a new message. -/
def update (hash password : Json) (message : String) : Exchange Notice := do
  let body := Edit.body hash password message
  receive Notice.reader (← send ⟨"PUT", commentsTarget, some body⟩)

/-- Take a comment away. -/
def delete (hash password : Json) : Exchange Notice := do
  receive Notice.reader (← send ⟨"DELETE", commentsTarget, some (Removal.body hash password)⟩)

end CommentThreads.Client
