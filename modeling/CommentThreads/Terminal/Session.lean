/-
CommentThreads.Terminal.Session — a terminal at work: its state, what may
go wrong, and printing.

A `Session` step may print, ask the server, change what is remembered, and
fail. The state outlives a failure: lines that were printed stay printed.
-/
import CommentThreads.Client.Exchange
import CommentThreads.StateFile.Basic
import CommentThreads.Terminal.Help
import CommentThreads.Terminal.Prompt
import CommentThreads.Text.Lines
import CommentThreads.Time.LogDate

namespace CommentThreads.Terminal

open CommentThreads.Text

/-- What kind of line was printed. -/
inductive LineKind
  | output
  | command
  | hash
  | success
  | error
  | muted
deriving DecidableEq, Repr

/-- A printed line. -/
structure Line where
  kind : LineKind
  text : RawText
deriving DecidableEq, Repr

/-- What stays the same for a terminal: the post it works on, the author
where none is configured, and the local time zone in minutes. -/
structure Setup where
  post : String
  defaultAuthor : String
  zone : Int
deriving DecidableEq, Repr

/-- The state of a terminal. All lines ever printed are kept. -/
structure State where
  prompt : Prompt
  file : StateFile
  output : List Line
deriving Repr

/-- The state of a terminal that starts with a state file. -/
def State.start (file : StateFile) : State := ⟨.idle, file, []⟩

/-- Why a terminal fails at a line: a fault of the exchange that is no
refusal, of the state file, or of a date; a comment with no line to show;
and remembered values that are no texts. -/
inductive Fault
  | exchange (fault : Client.Fault)
  | file (fault : StateFile.Fault)
  | calendar (fault : Time.CalendarFault)
  | noFirstLine
  | settingNotText
  | passwordNotText
deriving Repr

/-- What is said when a terminal stops at a fault. -/
def Fault.message : Fault → String
  | .exchange (.refused detail _) => detail.display.shown
  | .exchange .badAddress => "the address of the comment cannot be written"
  | .exchange .unwritable => "the request cannot be written"
  | .exchange .entryNotObject => "the server's list of errors holds no errors"
  | .exchange .messageNotText => "the server's list of errors holds no texts"
  | .file .notObject => "the state file holds no object"
  | .file (.badSection fault) => fault.message
  | .file .isDirectory => "the state file is a directory"
  | .calendar .outOfRange => "a date is outside the years 1 to 9999"
  | .calendar (.yearOutOfRange year) => "year " ++ toString year ++ " is out of range"
  | .noFirstLine => "a comment has no line to show"
  | .settingNotText => "the configured value is no text"
  | .passwordNotText => "the remembered password is no text"

/-- A step of a terminal. -/
abbrev Session (α : Type) := ExceptT Fault (StateT State Client.Dialogue) α

/-- Print a text, which may hold several lines. -/
def print (text : RawText) (kind : LineKind) : Session Unit :=
  modify fun s => { s with output := s.output ++ (text.pieces '\n').map (Line.mk kind) }

/-- Print an ordinary text. -/
def say (text : RawText) : Session Unit := print text .output

/-- Print an error. -/
def sayError (text : RawText) : Session Unit := print text .error

/-- Print a message, each of its lines behind an indent. A message without
lines shows as one empty line. -/
def sayMessage (indent : String) (message : RawText) : Session Unit := do
  let shown := message.lines
  for line in if shown.isEmpty then [("" : RawText)] else shown do
    say (indent ++ line)

/-- Go to a prompt. -/
def enter (prompt : Prompt) : Session Unit :=
  modify fun s => { s with prompt := prompt }

/-- Wait for a command again, and forget what was answered. -/
def resetPrompt : Session Unit := enter {}

/-- Change what is remembered. -/
def remembering (update : StateFile.Update Unit) : Session Unit := do
  let s ← get
  let (result, file) := update.run.run s.file
  set { s with file := file }
  match result with
  | .ok () => return ()
  | .error fault => throw (.file fault)

/-- The configured value at a key. -/
def configured? (key : RawText) : Session (Option Json) := do
  return (← get).file.config.get? key

/-- The password remembered for a comment, if it is given. -/
def remembered? (hash : RawText) : Session (Option Json) := do
  return ((← get).file.reflog.get? hash).filter Json.isGiven

/-- Hold an exchange with the server. A refusal is handed on with its
status; any other fault ends the step. -/
def exchange {α : Type} (e : Client.Exchange α) (good : α → Session Unit)
    (refused : Json → Option Nat → Session Unit) : Session Unit := do
  match ← ExceptT.lift (StateT.lift e.run) with
  | .ok a => good a
  | .error (.refused detail status) => refused detail status
  | .error fault => throw (.exchange fault)

/-- Say why the server refused. -/
def sayRefusal (detail : Json) (_ : Option Nat) : Session Unit :=
  sayError ("Error: " ++ detail.display)

/-- The date line of a comment. -/
def dateLine (setup : Setup) (d : Time.DateTime) : Session String :=
  match Time.logDate setup.zone d with
  | .ok text => return text
  | .error fault => throw (.calendar fault)

end CommentThreads.Terminal
