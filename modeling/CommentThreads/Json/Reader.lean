/-
CommentThreads.Json.Reader — reading JSON text.

The reader is strict about the grammar: no comma before a closing
bracket, no control characters inside a string. It accepts the words
`NaN`, `Infinity` and `-Infinity` for numbers, and lone halves of
surrogate pairs inside strings, spelled by an escape or standing there
themselves. An error names the position, counted in characters, at which
reading could not go on.
-/
import CommentThreads.Json.Basic
import CommentThreads.Text.Digits

namespace CommentThreads.Json

open CommentThreads.Text CommentThreads.Number

/-- What a reader can miss or refuse. -/
inductive Problem
  | value
  | propertyName
  | colon
  | comma
  | extraData
  | unterminated
  | control
  | escape
  | unicodeEscape
  | byteOrderMark
deriving DecidableEq, Repr

/-- The wording of a problem. -/
def Problem.message : Problem → String
  | .value => "Expecting value"
  | .propertyName => "Expecting property name enclosed in double quotes"
  | .colon => "Expecting ':' delimiter"
  | .comma => "Expecting ',' delimiter"
  | .extraData => "Extra data"
  | .unterminated => "Unterminated string starting at"
  | .control => "Invalid control character at"
  | .escape => "Invalid \\escape"
  | .unicodeEscape => "Invalid \\uXXXX escape"
  | .byteOrderMark => "Unexpected byte order mark"

/-- Why a text is no JSON: the grammar is broken at a position, or an
integer has more digits than are ever converted. -/
inductive ReadError
  | illFormed (problem : Problem) (position : Nat)
  | tooManyDigits
deriving DecidableEq, Repr

/-- Where reading stands: the position and the text from there on. -/
structure Cursor where
  pos : Nat
  rest : List Char

/-- What a reader gives: a value and where it ends. -/
abbrev Read (α : Type) := Except ReadError (α × Cursor)

/-- The lone halves that a text has itself, by their positions. In the text
U+FFFD stands in the place of each: outside strings neither may stand, and
inside one neither ends it. -/
abbrev Halves := Nat → Option Half

/-- A text of characters only. -/
def noHalves : Halves := fun _ => none

/-- What stands at a position where a text shows a character. -/
def pointAt (halves : Halves) (pos : Nat) (c : Char) : Point :=
  match halves pos with
  | some half => .half half
  | none => .char c

/-- The cursor some characters further on. -/
def Cursor.advance (c : Cursor) (n : Nat) : Cursor :=
  ⟨c.pos + n, c.rest.drop n⟩

/-- The white space between tokens. -/
def isGap (c : Char) : Bool :=
  c = ' ' || c = '\t' || c = '\n' || c = '\r'

/-- The cursor behind the white space it stands at. -/
def Cursor.skipGap (c : Cursor) : Cursor :=
  c.advance (c.rest.takeWhile isGap).length

/-- The cursor behind a word, if the text goes on with it. -/
def Cursor.word? (c : Cursor) (word : String) : Option Cursor :=
  let w := word.toList
  if w.isPrefixOf c.rest then some (c.advance w.length) else none

/-! ## Strings -/

/-- The character that a one-letter escape stands for. -/
def escaped? (c : Char) : Option Char :=
  if c = '"' || c = '\\' || c = '/' then some c
  else if c = 'b' then some '\x08'
  else if c = 'f' then some '\x0C'
  else if c = 'n' then some '\n'
  else if c = 'r' then some '\r'
  else if c = 't' then some '\t'
  else none

/-- The first half of a surrogate pair. -/
def isHighUnit (n : Nat) : Bool := 0xD800 ≤ n && n < 0xDC00

/-- The second half of a surrogate pair. -/
def isLowUnit (n : Nat) : Bool := 0xDC00 ≤ n && n < 0xE000

/-- The character of a surrogate pair. -/
def joinUnits (high low : Nat) : Char :=
  Char.ofNat (0x10000 + (high - 0xD800) * 0x400 + (low - 0xDC00))

/-- A half whose other half is missing. -/
def lone (unit : Nat) : Point := .half (Half.ofUnit unit)

/-- A first half that stays alone. -/
def alone : Option Nat → List Point
  | none => []
  | some unit => [lone unit]

/-- Put points in front of a string that is read further. -/
def prepend (ps : List Point) (r : Read (List Point)) : Read (List Point) :=
  r.map fun (s, c) => (ps ++ s, c)

/-- The rest of a string, with the first half of a surrogate pair that an
escape just before has left open. `opening` is where the string began. -/
def stringBody (halves : Halves) (opening : Nat) :
    (high : Option Nat) → (pos : Nat) → List Char → Read (List Point)
  | _, _, [] => .error (.illFormed .unterminated opening)
  | high, pos, c :: rest =>
    if c = '"' then .ok (alone high, ⟨pos + 1, rest⟩)
    else if c = '\\' then
      match rest with
      | [] => .error (.illFormed .unterminated opening)
      | e :: rest =>
        if e = 'u' then
          match rest with
          | h₁ :: h₂ :: h₃ :: h₄ :: rest =>
            if rest.isEmpty then .error (.illFormed .unicodeEscape (pos + 1))
            else match ofHexDigits? [h₁, h₂, h₃, h₄], high with
              | none, _ => .error (.illFormed .unicodeEscape (pos + 1))
              | some n, some h =>
                if isLowUnit n then
                  prepend [.char (joinUnits h n)] (stringBody halves opening none (pos + 6) rest)
                else if isHighUnit n then
                  prepend [lone h] (stringBody halves opening (some n) (pos + 6) rest)
                else
                  prepend [lone h, .char (Char.ofNat n)]
                    (stringBody halves opening none (pos + 6) rest)
              | some n, none =>
                if isHighUnit n then stringBody halves opening (some n) (pos + 6) rest
                else if isLowUnit n then
                  prepend [lone n] (stringBody halves opening none (pos + 6) rest)
                else
                  prepend [.char (Char.ofNat n)] (stringBody halves opening none (pos + 6) rest)
          | _ => .error (.illFormed .unicodeEscape (pos + 1))
        else match escaped? e with
          | some x =>
            prepend (alone high ++ [.char x]) (stringBody halves opening none (pos + 2) rest)
          | none => .error (.illFormed .escape pos)
    else if c.toNat < 0x20 then .error (.illFormed .control pos)
    else
      prepend (alone high ++ [pointAt halves pos c]) (stringBody halves opening none (pos + 1) rest)

/-- A string whose opening quotation mark the cursor has just passed. -/
def stringAfterMark (halves : Halves) (c : Cursor) : Read RawText :=
  (stringBody halves (c.pos - 1) none c.pos c.rest).map fun (s, c) => (RawText.ofPoints s, c)

/-! ## Numbers -/

/-- A number in its parts, as it is written. -/
structure Numeral where
  negative : Bool
  whole : List Char
  fraction : List Char
  exponent : List Char

/-- The longest numeral at the start of a text: a sign, digits without a
leading zero, a point with digits, an exponent with digits. A part that
is not complete is left in the text. -/
def numeral? (s : List Char) : Option (Numeral × Nat) :=
  let negative := s.head? = some '-'
  let s := if negative then s.drop 1 else s
  let whole := if s.head? = some '0' then ['0'] else s.takeWhile isDigit
  if whole.isEmpty then none
  else
    let s := s.drop whole.length
    let fraction := if s.head? = some '.' then (s.drop 1).takeWhile isDigit else []
    let s := if fraction.isEmpty then s else s.drop (fraction.length + 1)
    let mark := s.head? = some 'e' || s.head? = some 'E'
    let sign := if mark then (s.drop 1).takeWhile (fun c => c = '+' || c = '-') else []
    let sign := sign.take 1
    let digits := if mark then (s.drop (1 + sign.length)).takeWhile isDigit else []
    let exponent := if digits.isEmpty then [] else sign ++ digits
    let size := (if negative then 1 else 0) + whole.length +
      (if fraction.isEmpty then 0 else fraction.length + 1) +
      (if exponent.isEmpty then 0 else exponent.length + 1)
    some (⟨negative, whole, fraction, exponent⟩, size)

/-- The number of an exponent with an optional sign. -/
def exponentOf (s : List Char) : Int :=
  match s with
  | '-' :: digits => -(ofDigits digits : Int)
  | '+' :: digits => ofDigits digits
  | digits => ofDigits digits

/-- No integer of more digits is converted. -/
def mostDigits : Nat := 4300

/-- The value of a numeral: an integer if it has neither a fraction nor an
exponent. -/
def Numeral.value (n : Numeral) : Except ReadError Json :=
  if n.fraction.isEmpty && n.exponent.isEmpty then
    if n.whole.length > mostDigits then .error .tooManyDigits
    else
      let size : Int := ofDigits n.whole
      .ok (.int (if n.negative then -size else size))
  else
    .ok (.real (.ofDecimal n.negative (ofDigits (n.whole ++ n.fraction))
      (exponentOf n.exponent - n.fraction.length)))

/-- The words that stand for a value of their own. -/
def words : List (String × Json) :=
  [("null", .null), ("true", .bool true), ("false", .bool false), ("NaN", .real .undefined),
    ("Infinity", .real (.infinite false)), ("-Infinity", .real (.infinite true))]

/-- A word or a number. -/
def plainValue (c : Cursor) : Read Json :=
  match words.findSome? fun (word, v) => (c.word? word).map (v, ·) with
  | some r => .ok r
  | none =>
    match numeral? c.rest with
    | some (n, size) => n.value.map (·, c.advance size)
    | none => .error (.illFormed .value c.pos)

/-! ## Values -/

mutual

/-- A value at the cursor. The number bounds the depth of calls; twice the
length of the text is always enough. -/
def valueAt (halves : Halves) : Nat → Cursor → Read Json
  | 0, c => .error (.illFormed .value c.pos)
  | bound + 1, c =>
    match c.rest.head? with
    | some '"' => (stringAfterMark halves (c.advance 1)).map fun (s, c) => (.text s, c)
    | some '{' =>
      let c := (c.advance 1).skipGap
      if c.rest.head? = some '}' then .ok (.object [], c.advance 1)
      else (entriesAt halves bound c).map fun (entries, c) => (ofEntries entries, c)
    | some '[' =>
      let c := (c.advance 1).skipGap
      if c.rest.head? = some ']' then .ok (.list [], c.advance 1)
      else (itemsAt halves bound c).map fun (items, c) => (.list items, c)
    | _ => plainValue c

/-- The items of a list and its closing bracket. -/
def itemsAt (halves : Halves) : Nat → Cursor → Except ReadError (List Json × Cursor)
  | 0, c => .error (.illFormed .value c.pos)
  | bound + 1, c => do
    let (v, c) ← valueAt halves bound c
    let c := c.skipGap
    if c.rest.head? = some ']' then return ([v], c.advance 1)
    else if c.rest.head? = some ',' then
      let (rest, c) ← itemsAt halves bound (c.advance 1).skipGap
      return (v :: rest, c)
    else throw (.illFormed .comma c.pos)

/-- The entries of an object and its closing bracket. -/
def entriesAt (halves : Halves) :
    Nat → Cursor → Except ReadError (List (RawText × Json) × Cursor)
  | 0, c => .error (.illFormed .propertyName c.pos)
  | bound + 1, c => do
    if c.rest.head? ≠ some '"' then throw (.illFormed .propertyName c.pos)
    let (key, c) ← stringAfterMark halves (c.advance 1)
    let c := c.skipGap
    if c.rest.head? ≠ some ':' then throw (.illFormed .colon c.pos)
    let (v, c) ← valueAt halves bound (c.advance 1).skipGap
    let c := c.skipGap
    if c.rest.head? = some '}' then return ([(key, v)], c.advance 1)
    else if c.rest.head? = some ',' then
      let (rest, c) ← entriesAt halves bound (c.advance 1).skipGap
      return ((key, v) :: rest, c)
    else throw (.illFormed .comma c.pos)

end

/-- The value of a text that holds one value and white space around it. -/
def ofShown (halves : Halves) (s : List Char) : Except ReadError Json := do
  let start : Cursor := ⟨0, s⟩
  let (v, c) ← valueAt halves (2 * s.length + 2) start.skipGap
  let c := c.skipGap
  if c.rest.isEmpty then return v else throw (.illFormed .extraData c.pos)

/-- The value of a text of characters. -/
def ofChars (s : List Char) : Except ReadError Json := ofShown noHalves s

/-- The character that shows in a text at a point. -/
def shownChar : Point → Char
  | .char c => c
  | .half _ => Char.ofNat 0xFFFD

/-- The places of the halves among some points. -/
def halvesOf (points : List Point) : Halves :=
  let places := points.toArray
  fun pos => match places[pos]? with
    | some (.half half) => some half
    | _ => none

/-- The value of a text that may have lone halves itself. -/
def ofPoints (points : List Point) : Except ReadError Json :=
  ofShown (halvesOf points) (points.map shownChar)

/-- The value of a text from a file. A byte order mark is refused. -/
def ofFileText (s : List Char) : Except ReadError Json :=
  if s.head? = some (Char.ofNat 0xFEFF) then .error (.illFormed .byteOrderMark 0) else ofChars s

end CommentThreads.Json
