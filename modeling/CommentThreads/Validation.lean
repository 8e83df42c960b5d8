/-
CommentThreads.Validation — reading the fields of a value, with every
error found and not only the first.

A reader of fields gives a `Validated` value: the value, or a list of
errors in the order of the fields. `Validated` is an applicative functor
that joins the errors of its parts; it is no monad, since later fields are
read whether or not earlier ones were good.
-/
import CommentThreads.Json.Basic
import CommentThreads.Time.Reader

namespace CommentThreads

open Time

/-- A step into a value: to a key of an object or a place in a list. -/
inductive Step
  | key (name : String)
  | index (place : Nat)
deriving DecidableEq, Repr

/-- What can be wrong with a field. -/
inductive Complaint
  | missing
  | notText
  | torn
  | tooShort (least : Nat)
  | blankMessage
  | notList
  | notObject
  | notInteger
  | date (problem : DateProblem)
deriving DecidableEq, Repr

/-- A complaint, the way to the field from outside, and what was found
there. -/
structure FieldError where
  complaint : Complaint
  path : List Step
  found : Json
deriving Repr

/-- A value read from fields, or all that is wrong with them. -/
inductive Validated (α : Type)
  | valid (value : α)
  | invalid (errors : List FieldError)

namespace Validated

/-- The errors, each one a step further inside. -/
def under (step : Step) {α : Type} : Validated α → Validated α
  | .valid a => .valid a
  | .invalid errors => .invalid (errors.map fun e => { e with path := step :: e.path })

/-- Change the value. -/
def map {α β : Type} (f : α → β) : Validated α → Validated β
  | .valid a => .valid (f a)
  | .invalid errors => .invalid errors

/-- Apply a function that was read to a value that was read; the errors of
the function come first. -/
def ap {α β : Type} : Validated (α → β) → Validated α → Validated β
  | .valid f, v => v.map f
  | .invalid errors, .valid _ => .invalid errors
  | .invalid errors, .invalid more => .invalid (errors ++ more)

instance : Applicative Validated where
  pure := .valid
  seq f v := f.ap (v ())

/-- A single complaint about a value. -/
def fail {α : Type} (complaint : Complaint) (found : Json) : Validated α :=
  .invalid [⟨complaint, [], found⟩]

/-- The errors, none for a good value. -/
def errors {α : Type} : Validated α → List FieldError
  | .valid _ => []
  | .invalid errors => errors

/-- The value with its errors as an exception. -/
def toExcept {α : Type} : Validated α → Except (List FieldError) α
  | .valid a => .ok a
  | .invalid errors => .error errors

end Validated

/-- Reads a value. -/
abbrev FieldReader (α : Type) := Json → Validated α

namespace FieldReader

/-- A text. -/
def text : FieldReader RawText
  | .text s => .valid s
  | v => .fail .notText v

/-- A date and time. -/
def date : FieldReader DateTime := fun v =>
  match DateTime.ofJson v with
  | .ok d => .valid d
  | .error problem => .fail (.date problem) v

/-- The items of a list, the first one standing at the given place. -/
def items {α : Type} (read : FieldReader α) (place : Nat) : List Json → Validated (List α)
  | [] => .valid []
  | v :: rest => List.cons <$> (read v).under (.index place) <*> items read (place + 1) rest

/-- A list of values. -/
def listOf {α : Type} (read : FieldReader α) : FieldReader (List α)
  | .list vs => items read 0 vs
  | v => .fail .notList v

/-- An object, read as a whole. -/
def record {α : Type} (read : FieldReader α) : FieldReader α
  | .object entries => read (.object entries)
  | v => .fail .notObject v

/-- A key that has to be there. -/
def required {α : Type} (key : String) (read : FieldReader α) : FieldReader α := fun v =>
  match v.field? key with
  | some x => (read x).under (.key key)
  | none => .invalid [⟨.missing, [.key key], v⟩]

/-- A key that may be missing, with what stands in for it. -/
def withDefault {α : Type} (key : String) (read : FieldReader α) (default : α) : FieldReader α :=
  fun v =>
    match v.field? key with
    | some x => (read x).under (.key key)
    | none => .valid default

/-- A key that may be missing or null. -/
def optional {α : Type} (key : String) (read : FieldReader α) : FieldReader (Option α) := fun v =>
  match v.field? key with
  | some .null => .valid none
  | some x => some <$> (read x).under (.key key)
  | none => .valid none

end FieldReader

end CommentThreads
