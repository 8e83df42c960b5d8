/-
CommentThreads.StateFile.Section — the two tables of the state file, and
reading one from a value.

A table is an object or a list of pairs. In a list a key may be any value
but a list or an object; two keys are the same if they are the same text
or the same number, and truth values count as the numbers 1 and 0.
-/
import CommentThreads.Json.Printer

namespace CommentThreads.StateFile

open CommentThreads.Number CommentThreads.Text

/-- A key of a table. -/
inductive Key
  | text (s : RawText)
  | null
  | bool (b : Bool)
  | int (n : Int)
  | real (x : Binary64)
deriving DecidableEq, Repr

namespace Key

/-- The key for an optional text. -/
def ofText? : Option RawText → Key
  | some s => .text s
  | none => .null

/-- The key that a value can serve as. -/
def ofJson? : Json → Option Key
  | .text s => some (.text s)
  | .null => some .null
  | .bool b => some (.bool b)
  | .int n => some (.int n)
  | .real x => some (.real x)
  | _ => none

/-- The key as a value. -/
def toJson : Key → Json
  | .text s => .text s
  | .null => .null
  | .bool b => .bool b
  | .int n => .int n
  | .real x => .real x

/-- The key as the name of an entry in a file. -/
def name : Key → RawText
  | .text s => s
  | k => .plain (String.ofList (Json.compact k.toJson))

/-- The number that a key stands for, as a fraction. -/
def number? : Key → Option (Int × Nat)
  | .bool b => some (if b then 1 else 0, 1)
  | .int n => some (n, 1)
  | .real (.finite negative m e) =>
    let (n, d) := Binary64.ratio m e
    some (if negative then -(n : Int) else n, d)
  | _ => none

/-- The same text, or the same number. -/
def same (a b : Key) : Bool :=
  match a.number?, b.number? with
  | some (n, d), some (n', d') => n * d' = n' * d
  | _, _ => a = b

end Key

/-- A table of the state file. -/
abbrev Section := Entries Key Json

/-- Why a value is no table. -/
inductive SectionFault
  | pairSize (place size : Nat)
  | otherKind
deriving DecidableEq, Repr

/-- The wording of a fault that says where it is. -/
def SectionFault.message : SectionFault → String
  | .pairSize place size =>
    "dictionary update sequence element #" ++ toString place ++ " has length " ++ toString size ++
      "; 2 is required"
  | .otherKind => "cannot convert to a table"

namespace Section

/-- Put a value at a key. A key that is the same as one that is there takes
its place. -/
def add (key : Key) (value : Json) (s : Section) : Section :=
  Entries.put ((s.keys.find? key.same).getD key) value s

/-- The parts of a value that stands for a pair: the items of a list, the
characters and lone halves of a text, the keys of an object. -/
def parts? : Json → Option (List Json)
  | .list items => some items
  | .text s => some (s.points.map fun p => .text (.ofPoints [p]))
  | .object entries => some (entries.map fun (k, _) => .text k)
  | _ => none

/-- Add the pairs of a list, the first of which stands at a place. -/
def addPairs (place : Nat) (s : Section) : List Json → Except SectionFault Section
  | [] => .ok s
  | item :: rest =>
    match parts? item with
    | none => .error .otherKind
    | some [key, value] =>
      match Key.ofJson? key with
      | some key => addPairs (place + 1) (s.add key value) rest
      | none => .error .otherKind
    | some parts => .error (.pairSize place parts.length)

/-- The table of a value. A value that is not given is an empty table. -/
def ofJson (v : Json) : Except SectionFault Section :=
  if !v.isGiven then .ok []
  else match v with
    | .object entries => .ok (entries.map fun (k, v) => (.text k, v))
    | .list items => addPairs 0 [] items
    | .text _ => .error (.pairSize 0 1)
    | _ => .error .otherKind

/-- The table as an object. -/
def toJson (s : Section) : Json :=
  .object (s.map fun (k, v) => (k.name, v))

/-- The value at a text. -/
def get? (key : RawText) (s : Section) : Option Json :=
  Entries.get? (.text key) s

end Section

end CommentThreads.StateFile
