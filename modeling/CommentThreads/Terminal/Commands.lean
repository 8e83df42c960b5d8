/-
CommentThreads.Terminal.Commands — what each command does at a terminal.

A command prints, asks the server, or opens a sequence of prompts. A hash
of seven characters stands for the first listed comment that begins with
it, where a comment is removed; everywhere else hashes are taken as they
are.
-/
import CommentThreads.Command.Parser
import CommentThreads.Terminal.Session

namespace CommentThreads.Terminal

open CommentThreads.Text CommentThreads.Time

/-- The key under which the author is configured. -/
def authorKey : String := "user.name"

/-- How many characters a short hash has. -/
def shortLength : Nat := 7

/-- The first characters of a hash. -/
def abbreviate (hash : RawText) : RawText := hash.firstPoints shortLength

/-! ## Listing comments -/

/-- The first line of a message; an empty message has none. -/
def firstLine (message : RawText) : Session RawText :=
  match message.lines with
  | line :: _ => return line
  | [] => throw .noFirstLine

/-- A thread, one line for each comment. -/
def sayThreadShort (t : Thread) : Session Unit := do
  say (abbreviate t.root.hash ++ " " ++ (← firstLine t.root.message))
  for reply in t.replies do
    say ("  └─ " ++ abbreviate reply.hash ++ " " ++ (← firstLine reply.message))

/-- An answer, in full. -/
def sayReply (setup : Setup) (reply : Summary) : Session Unit := do
  print ("  └─ commit " ++ reply.hash) .muted
  say ("     Author: " ++ reply.author)
  say ("     Date:   " ++ (← dateLine setup reply.date))
  say ""
  sayMessage "         " reply.message
  say ""

/-- A thread, in full. -/
def sayThread (setup : Setup) (t : Thread) : Session Unit := do
  print ("commit " ++ t.root.hash) .hash
  say ("Author: " ++ t.root.author)
  say ("Date:   " ++ (← dateLine setup t.root.date))
  say ""
  sayMessage "    " t.root.message
  say ""
  for reply in t.replies do
    sayReply setup reply

/-- Show the threads of the post. -/
def log (setup : Setup) (oneline : Bool) : Session Unit :=
  exchange (Client.threads setup.post)
    (fun threads => do
      if threads.isEmpty then print "No comments yet." .muted
      for t in threads do
        if oneline then sayThreadShort t else sayThread setup t)
    sayRefusal

/-- Show what was made here and is still listed. -/
def reflog (setup : Setup) : Session Unit := do
  let keys := (← get).file.reflog.keys
  if keys.isEmpty then print "No reflog entries." .muted
  else
    exchange (Client.threads setup.post)
      (fun threads => do
        let listed := (Thread.comments threads).reverse
        for key in keys do
          if let .text hash := key then
            if let some c := listed.find? (·.hash = hash) then
              say (hash ++ " " ++ c.author ++ ": " ++ c.message))
      sayRefusal

/-! ## Making a comment -/

/-- The author of a comment: the one that is given, or else the one that is
configured, or else the default. -/
def chooseAuthor (setup : Setup) (name : Option Json) : Session Json := do
  match name.filter Json.isGiven, (← configured? authorKey).filter Json.isGiven with
  | some name, _ => return name
  | none, some configured => return configured
  | none, none => return .text setup.defaultAuthor

/-- Send a new comment, and remember its password. -/
def create (setup : Setup) (author : Json) (password : Option RawText) (message : String)
    (parent : Option String) : Session Unit :=
  exchange (Client.create setup.post author (.ofText? password) message parent)
    (fun receipt => do
      print receipt.message .success
      say (" Author: " ++ receipt.author)
      say " 1 comment created"
      match password.bind RawText.nonEmpty? with
      | some password => remembering (StateFile.remember receipt.hash (.text password))
      | none => print " No password set: this comment is read-only." .muted)
    sayRefusal

/-- The name of an author that was typed. -/
def typedName? (author : Option String) : Option Json :=
  author.map fun (name : String) => .text name

/-- Make a comment; without a message, ask for what is missing. -/
def commit (setup : Setup) (draft : Draft) : Session Unit := do
  match draft.message with
  | none => enter (.author (typedName? draft.author) draft.parent)
  | some message =>
    if isBlankText message then sayError "Error: Message cannot be empty"
    else
      let author ← chooseAuthor setup (typedName? draft.author)
      create setup author (draft.password.map .plain) message draft.parent

/-! ## One comment -/

/-- What is said when there is no comment with a hash. -/
def sayBadObject (hash : String) : Session Unit :=
  sayError ("fatal: bad object " ++ hash)

/-- Say why a look-up was refused. -/
def sayNotShown (hash : String) (detail : Json) (status : Option Nat) : Session Unit :=
  if status = some 404 then sayBadObject hash else sayRefusal detail status

/-- Show a comment. -/
def inspect (setup : Setup) (hash : String) : Session Unit :=
  exchange (Client.comment hash)
    (fun c => do
      print ("commit " ++ c.summary.hash) .hash
      if let some parent := c.parent.bind RawText.nonEmpty? then say ("Reply-To: " ++ parent)
      say ("Author: " ++ c.summary.author)
      say ("Date:   " ++ (← dateLine setup c.summary.date))
      if let some updated := c.updated then say ("Edited: " ++ (← dateLine setup updated))
      say ""
      sayMessage "    " c.summary.message)
    (sayNotShown hash)

/-- Begin to edit a comment. A remembered password is not asked for. -/
def rebase (hash : String) : Session Unit :=
  exchange (Client.comment hash)
    (fun _ => do
      match ← remembered? hash with
      | none => enter (.editPassword hash)
      | some (.text password) => enter (.editMessage hash password)
      | some _ => throw .passwordNotText)
    (sayNotShown hash)

/-- Send an edit, and show the threads. -/
def update (setup : Setup) (hash password : Option RawText) (message : String) : Session Unit :=
  exchange (Client.update (.ofText? hash) (.ofText? password) message)
    (fun notice => do
      print notice.message .success
      log setup false)
    sayRefusal

/-- Send a removal, forget the comment, and show the threads if wanted. -/
def delete (setup : Setup) (hash : Option RawText) (password : Json) (showLog : Bool) :
    Session Unit :=
  exchange (Client.delete (.ofText? hash) password)
    (fun notice => do
      print notice.message .success
      remembering (StateFile.forgetKey (.ofText? hash))
      if showLog then log setup false)
    sayRefusal

/-- Remove the comment with a full hash, or ask for its password. -/
def resetFull (setup : Setup) (hash : RawText) : Session Unit := do
  match ← remembered? hash with
  | some password => delete setup hash password false
  | none => enter (.deletePassword hash)

/-- Remove a comment, which may be named by a short hash. -/
def reset (setup : Setup) (hash : String) : Session Unit :=
  if hash.length ≠ shortLength then resetFull setup hash
  else
    exchange (Client.threads setup.post)
      (fun threads =>
        match (Thread.comments threads).find? (·.hash.startsWith hash) with
        | some c => resetFull setup c.hash
        | none => sayBadObject hash)
      sayRefusal

/-! ## Configuration -/

/-- Show or set a configured value. -/
def config (key : String) (value : Option String) : Session Unit := do
  match value with
  | some value =>
    remembering (StateFile.setConfig key (.text value))
    print ("Config saved: " ++ key ++ " = " ++ value : String) .success
  | none =>
    match (← configured? key).filter Json.isGiven with
    | some (.text shown) => say shown
    | some _ => throw .settingNotText
    | none => print (key ++ " not set" : String) .muted

/-! ## Any command -/

/-- What is said to a request that is no command. -/
def sayUnknown : Session Unit := sayError "Unknown command"

/-- Carry out a command. -/
def carryOut (setup : Setup) : Command → Session Unit
  | .help => say helpText
  | .log oneline => log setup oneline
  | .commit draft => commit setup draft
  | .inspect hash => inspect setup hash
  | .rebase hash => rebase hash
  | .reset hash => reset setup hash
  | .config key value => config key value
  | .reflog => reflog setup
  | .mistaken mistake => sayError mistake.message

end CommentThreads.Terminal
