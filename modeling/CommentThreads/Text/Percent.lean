/-
CommentThreads.Text.Percent — percent encoding, as addresses and form
fields use it.

* `percentEncode safe` writes every character outside `safe` as its UTF-8
  bytes, each behind a percent sign in two capital hexadecimal digits.
* `percentDecode` undoes it. A percent sign without two digits stands for
  itself, and bytes that spell no character are read as U+FFFD.
* `formEncode`, `formFields` — the fields of a query: `key=value` joined
  by `&`, with a plus sign for a space.
-/
import CommentThreads.Text.Digits
import CommentThreads.Text.Lines
import CommentThreads.Text.Utf8

namespace CommentThreads.Text

/-- The capital hexadecimal digit for a value below sixteen. -/
def capitalHexChar (n : Nat) : Char :=
  if n % 16 < 10 then digitChar (n % 16) else Char.ofNat (n % 16 - 10 + 'A'.toNat)

/-- A byte as a percent sign and two digits. -/
def percentByte (b : UInt8) : List Char :=
  ['%', capitalHexChar (b.toNat / 16), capitalHexChar b.toNat]

/-- The text with every character outside `safe` percent-encoded. -/
def percentEncode (safe : Char → Bool) (s : List Char) : List Char :=
  s.flatMap fun c => if safe c then [c] else (encodeChar c).flatMap percentByte

/-- The characters that never need encoding: letters and digits of ASCII
and the four marks `_`, `.`, `-`, `~`. -/
def isUnreserved (c : Char) : Bool :=
  c.isAlphanum || c = '_' || c = '.' || c = '-' || c = '~'

/-- The bytes of a text of ASCII characters once its percent signs with
two digits are resolved. -/
def percentBytes : List Char → List UInt8
  | '%' :: a :: b :: rest =>
    match hexValue? a, hexValue? b with
    | some x, some y => (x * 16 + y).toUInt8 :: percentBytes rest
    | _, _ => 0x25 :: percentBytes (a :: b :: rest)
  | c :: rest => c.toNat.toUInt8 :: percentBytes rest
  | [] => []

/-- The text with its percent signs resolved. Characters outside ASCII
stand for themselves and end the run of bytes before them. -/
def percentDecodeRun (run : List Char) : List Char → List Char
  | [] => decodeLossy (percentBytes run.reverse)
  | c :: rest =>
    if c.toNat < 0x80 then percentDecodeRun (c :: run) rest
    else decodeLossy (percentBytes run.reverse) ++ c :: percentDecodeRun [] rest

/-- The text with its percent signs resolved. -/
def percentDecode (s : List Char) : List Char :=
  percentDecodeRun [] s

/-- A form value: spaces become plus signs, and all but unreserved
characters are percent-encoded. -/
def formEncode (s : List Char) : List Char :=
  s.flatMap fun c =>
    if isUnreserved c then [c] else if c = ' ' then ['+'] else (encodeChar c).flatMap percentByte

/-- A form value read back. -/
def formDecode (s : List Char) : List Char :=
  percentDecode (s.map fun c => if c = '+' then ' ' else c)

/-- One field of a query; without an equals sign the value is empty. -/
def formField (s : List Char) : List Char × List Char :=
  (formDecode (s.takeWhile (· ≠ '=')), formDecode ((s.dropWhile (· ≠ '=')).drop 1))

/-- The fields of a query, in order. Empty pieces are no fields. -/
def formFields (s : List Char) : List (List Char × List Char) :=
  ((splitAt '&' s).filter (· ≠ [])).map formField

end CommentThreads.Text
