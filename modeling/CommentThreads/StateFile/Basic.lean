/-
CommentThreads.StateFile.Basic — what the terminal remembers from one use
to the next: configured values, and for each comment made here the
password that was used.

Both tables are written to a file after every change. A file that cannot
be read, or is no JSON, is ignored; one that is JSON of the wrong shape is
a fault.
-/
import CommentThreads.Json.Reader
import CommentThreads.StateFile.Section
import CommentThreads.Text.Utf8

namespace CommentThreads

namespace StateFile

open CommentThreads.Text

/-- Where the state is kept: only in memory, in a file that holds some bytes
or is not there yet, or at a path where a directory is in the way. -/
inductive Place
  | memory
  | file (content : Option (List UInt8))
  | directory
deriving DecidableEq, Repr

/-- Why the state cannot be read or written. -/
inductive Fault
  | notObject
  | badSection (fault : SectionFault)
  | isDirectory
deriving DecidableEq, Repr

end StateFile

/-- The state, and where it is kept. -/
structure StateFile where
  place : StateFile.Place
  config : StateFile.Section
  reflog : StateFile.Section
deriving Repr

namespace StateFile

open CommentThreads.Text

/-- The value of a file, if it can be read and is JSON. -/
def Place.value? : Place → Option Json
  | .file (some bytes) =>
    match decode bytes with
    | some s => (Json.ofFileText s).toOption
    | none => none
  | _ => none

/-- The table at a key of the file's object. -/
def sectionAt (key : String) (v : Json) : Except Fault Section :=
  (Section.ofJson ((v.field? key).getD .null)).mapError .badSection

/-- The state that is kept at a place. -/
def load (place : Place) : Except Fault StateFile :=
  match place.value? with
  | none => .ok ⟨place, [], []⟩
  | some (.object entries) => do
    let config ← sectionAt "config" (.object entries)
    let reflog ← sectionAt "reflog" (.object entries)
    return ⟨place, config, reflog⟩
  | some _ => .error .notObject

/-- The state as a value. -/
def toJson (s : StateFile) : Json :=
  .object [("config", s.config.toJson), ("reflog", s.reflog.toJson)]

/-- Something that is done to the state and may fail. What was done to the
tables before a failure stays done. -/
abbrev Update (α : Type) := ExceptT Fault (StateM StateFile) α

/-- Write the state to its place. -/
def save : Update Unit := do
  let s ← get
  match s.place with
  | .memory => return ()
  | .directory => throw .isDirectory
  | .file _ => set { s with place := .file (some (encode s.toJson.indented)) }

/-- Configure a value. -/
def setConfig (key : RawText) (value : Json) : Update Unit := do
  modify fun s => { s with config := Entries.put (.text key) value s.config }
  save

/-- Remember the password of a comment. -/
def remember (hash : RawText) (password : Json) : Update Unit := do
  modify fun s => { s with reflog := Entries.put (.text hash) password s.reflog }
  save

/-- Forget what a key stands for. The file is only written if there was a
password. -/
def forgetKey (key : Key) : Update Unit := do
  let s ← get
  match Entries.get? key s.reflog with
  | none => return ()
  | some password =>
    set { s with reflog := Entries.erase key s.reflog }
    if password.nonNull?.isSome then save

/-- Forget a comment. -/
def forget (hash : RawText) : Update Unit := forgetKey (.text hash)

end StateFile

end CommentThreads
