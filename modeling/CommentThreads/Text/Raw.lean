/-
CommentThreads.Text.Raw — texts that may hold lone halves of surrogate pairs.

A string of JSON can spell one half of a surrogate pair by itself, with
`\ud800` say. What is read then is no string of characters, and yet it is
compared, joined, stored and used as a key like any other text; only where
it has to become bytes there are none for it.

* `RawText` — strings, and between them lone halves. `plain` texts have none.
* `RawText.string?` — the string that a text is, if it has no lone half.
* `RawText.points` — its characters and lone halves one by one;
  `RawText.ofPoints` puts them together again.
-/
import CommentThreads.Text.Blank
import CommentThreads.Text.Words

namespace CommentThreads

/-- A half of a surrogate pair, counted from U+D800. The first 1024 begin a
pair, the others end one. -/
abbrev Half := Fin 0x800

/-- The half with a number, which is one of U+D800 to U+DFFF. -/
def Half.ofUnit (unit : Nat) : Half := Fin.ofNat 0x800 (unit - 0xD800)

/-- The number of a half. -/
def Half.unit (half : Half) : Nat := 0xD800 + half.val

/-- What stands at one place of a text. -/
inductive Point
  | char (c : Char)
  | half (half : Half)
deriving DecidableEq, Repr

/-- A text: a string, or a string, a lone half behind it, and a text behind
that. -/
inductive RawText
  | plain (s : String)
  | torn (s : String) (half : Half) (rest : RawText)
deriving DecidableEq, Repr

namespace RawText

instance : Coe String RawText := ⟨plain⟩

instance : Inhabited RawText := ⟨plain ""⟩

/-- One text behind another. -/
def append : RawText → RawText → RawText
  | plain s, plain t => plain (s ++ t)
  | plain s, torn t half rest => torn (s ++ t) half rest
  | torn s half rest, t => torn s half (rest.append t)

instance : Append RawText := ⟨append⟩

/-- The string that a text is; none if it has a lone half. -/
def string? : RawText → Option String
  | plain s => some s
  | torn .. => none

/-- The text has no lone half, so it can be encoded. -/
def isPlain (t : RawText) : Bool := t.string?.isSome

/-- The text of some points; the characters right before them are given in
reverse. -/
def ofPointsAfter (before : List Char) : List Point → RawText
  | [] => plain (String.ofList before.reverse)
  | .char c :: rest => ofPointsAfter (c :: before) rest
  | .half half :: rest => torn (String.ofList before.reverse) half (ofPointsAfter [] rest)

/-- The text of some points. -/
def ofPoints (points : List Point) : RawText := ofPointsAfter [] points

/-- The points of a text. -/
def points : RawText → List Point
  | plain s => s.toList.map .char
  | torn s half rest => s.toList.map .char ++ .half half :: rest.points

/-- The text as an error message shows it: with U+FFFD for each lone half. -/
def shown : RawText → String
  | plain s => s
  | torn s _ rest => s ++ String.singleton (Char.ofNat 0xFFFD) ++ rest.shown

/-- The text, unless it is empty. -/
def nonEmpty? (t : RawText) : Option RawText :=
  if t = plain "" then none else some t

/-- A text of white space only. A lone half is none. -/
def isBlank : RawText → Bool
  | plain s => Text.isBlankText s
  | torn .. => false

/-- The text begins with a string. -/
def startsWith : (t : RawText) → (start : String) → Bool
  | plain s, start | torn s .., start => Text.startsWith s start

/-- What stands at the first places of a text. -/
def firstPoints (n : Nat) (t : RawText) : RawText := ofPoints (t.points.take n)

/-- Texts one behind the other with a separator between them. -/
def joinWith (separator : RawText) : List RawText → RawText
  | [] => plain ""
  | [t] => t
  | t :: rest => t ++ separator ++ joinWith separator rest

/-! ## Plain texts -/

@[simp] theorem plain_append (s t : String) : plain s ++ plain t = plain (s ++ t) := rfl

@[simp] theorem plain_append_torn (s t : String) (half : Half) (rest : RawText) :
    plain s ++ torn t half rest = torn (s ++ t) half rest := rfl

@[simp] theorem torn_append (s : String) (half : Half) (rest t : RawText) :
    torn s half rest ++ t = torn s half (rest ++ t) := rfl

@[simp] theorem string?_plain (s : String) : (plain s).string? = some s := rfl

@[simp] theorem string?_torn (s : String) (half : Half) (rest : RawText) :
    (torn s half rest).string? = none := rfl

@[simp] theorem isPlain_plain (s : String) : (plain s).isPlain = true := rfl

@[simp] theorem isPlain_torn (s : String) (half : Half) (rest : RawText) :
    (torn s half rest).isPlain = false := rfl

@[simp] theorem shown_plain (s : String) : (plain s).shown = s := rfl

theorem string?_eq_some_iff {t : RawText} {s : String} : t.string? = some s ↔ t = plain s := by
  cases t <;> simp

theorem isPlain_iff {t : RawText} : t.isPlain = true ↔ ∃ s, t = plain s := by
  cases t <;> simp

/-- Texts with a common beginning differ in what follows it. -/
@[simp] theorem plain_append_inj (start : String) (t u : RawText) :
    plain start ++ t = plain start ++ u ↔ t = u := by
  cases t <;> cases u <;> simp

end RawText

end CommentThreads
