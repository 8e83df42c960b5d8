/-
CommentThreads.Json.Basic — the values that records, requests and answers
are made of.

A number written with neither point nor exponent is an integer of any
size; every other number is a binary one. An object keeps its keys in
order, and a key that is given twice keeps its first place and its last
value (`Json.ofEntries`). Texts and keys may hold lone halves of surrogate
pairs; a value with one of them, or with a number that is not finite,
cannot be sent (`Json.isSendable`).
-/
import CommentThreads.Entries
import CommentThreads.Number.Binary64
import CommentThreads.Text.Raw

namespace CommentThreads

open Number

/-- A structured value. -/
inductive Json
  | null
  | bool (value : Bool)
  | int (value : Int)
  | real (value : Binary64)
  | text (value : RawText)
  | list (items : List Json)
  | object (entries : List (RawText × Json))
deriving BEq, Repr, Inhabited

namespace Json

/-- An object from entries in which a key may come twice. -/
def ofEntries (entries : List (RawText × Json)) : Json :=
  .object (Entries.putAll entries [])

/-- The value that an object has at a key. -/
def field? (key : String) : Json → Option Json
  | .object entries => Entries.get? (key : RawText) entries
  | _ => none

/-- The value, unless it is null. -/
def nonNull? : Json → Option Json
  | .null => none
  | v => some v

/-- An optional text; null when there is none. -/
def ofText? : Option RawText → Json
  | some s => .text s
  | none => .null

/-- A value that counts as given: anything but null, false, a zero, and
what is empty. -/
def isGiven : Json → Bool
  | .null => false
  | .bool b => b
  | .int n => n ≠ 0
  | .real (.finite _ m _) => m ≠ 0
  | .real _ => true
  | .text s => s ≠ ""
  | .list items => !items.isEmpty
  | .object entries => !entries.isEmpty

mutual

/-- A value whose texts and keys have no lone halves and whose numbers are
finite. No other value is sent. -/
def isSendable : Json → Bool
  | .text s => s.isPlain
  | .real x => x.isFinite
  | .list items => itemsSendable items
  | .object entries => entriesSendable entries
  | _ => true

/-- All items of a list can be sent. -/
def itemsSendable : List Json → Bool
  | [] => true
  | v :: rest => v.isSendable && itemsSendable rest

/-- All keys and values of an object can be sent. -/
def entriesSendable : List (RawText × Json) → Bool
  | [] => true
  | (key, v) :: rest => key.isPlain && v.isSendable && entriesSendable rest

end

end Json

end CommentThreads
