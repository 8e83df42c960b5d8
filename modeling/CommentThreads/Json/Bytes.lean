/-
CommentThreads.Json.Bytes — JSON that arrives as bytes.

The bytes are text in UTF-8, UTF-16 or UTF-32. A byte order mark says
which; without one, the places of the zero bytes among the first four do,
since a value begins with a character of ASCII. In all three a lone half
of a surrogate pair may be spelled like a character.
-/
import CommentThreads.Json.Reader
import CommentThreads.Text.Utf8

namespace CommentThreads.Json

open CommentThreads.Text

/-- How text is laid out in bytes; `big` is the order with the high byte
first. -/
inductive Encoding
  | utf8
  | utf16 (big : Bool)
  | utf32 (big : Bool)
deriving DecidableEq, Repr

/-- The encoding of some bytes, and how many of them are its mark. -/
def Encoding.detect : List UInt8 → Encoding × Nat
  | 0x00 :: 0x00 :: 0xFE :: 0xFF :: _ => (.utf32 true, 4)
  | 0xFF :: 0xFE :: 0x00 :: 0x00 :: _ => (.utf32 false, 4)
  | 0xFE :: 0xFF :: _ => (.utf16 true, 2)
  | 0xFF :: 0xFE :: _ => (.utf16 false, 2)
  | 0xEF :: 0xBB :: 0xBF :: _ => (.utf8, 3)
  | a :: b :: c :: d :: _ =>
    if a = 0 then (if b = 0 then .utf32 true else .utf16 true, 0)
    else if b = 0 then (if c = 0 && d = 0 then .utf32 false else .utf16 false, 0)
    else (.utf8, 0)
  | [a, b] => (if a = 0 then .utf16 true else if b = 0 then .utf16 false else .utf8, 0)
  | _ => (.utf8, 0)

/-- The number of two bytes. -/
def unitOf (big : Bool) (a b : UInt8) : Nat :=
  if big then a.toNat * 0x100 + b.toNat else b.toNat * 0x100 + a.toNat

/-- The 16-bit units of some bytes; none if a byte is left over. -/
def units16? (big : Bool) : List UInt8 → Option (List Nat)
  | [] => some []
  | a :: b :: rest => (units16? big rest).map (unitOf big a b :: ·)
  | [_] => none

/-- The text of 16-bit units, with the first half of a surrogate pair that
the unit before has left open. -/
def ofUnits16 : (high : Option Nat) → List Nat → List Point
  | high, [] => alone high
  | high, n :: rest =>
    match high with
    | some h =>
      if isLowUnit n then .char (joinUnits h n) :: ofUnits16 none rest
      else if isHighUnit n then lone h :: ofUnits16 (some n) rest
      else lone h :: .char (Char.ofNat n) :: ofUnits16 none rest
    | none =>
      if isHighUnit n then ofUnits16 (some n) rest
      else if isLowUnit n then lone n :: ofUnits16 none rest
      else .char (Char.ofNat n) :: ofUnits16 none rest

/-- What a 32-bit unit stands for; none past U+10FFFF. -/
def ofUnit32? (n : Nat) : Option Point :=
  if n > 0x10FFFF then none
  else if 0xD800 ≤ n && n < 0xE000 then some (lone n)
  else some (.char (Char.ofNat n))

/-- The text of 32-bit units; none if bytes are left over. -/
def points32? (big : Bool) : List UInt8 → Option (List Point)
  | [] => some []
  | a :: b :: c :: d :: rest =>
    let n := if big then unitOf big a b * 0x10000 + unitOf big c d
      else unitOf big c d * 0x10000 + unitOf big a b
    match ofUnit32? n, points32? big rest with
    | some x, some xs => some (x :: xs)
    | _, _ => none
  | _ => none

/-- The lone half that three bytes spell the way UTF-8 would. -/
def halfOf? (a b c : UInt8) : Option Half :=
  if a = 0xED && 0xA0 ≤ b && b ≤ 0xBF && 0x80 ≤ c && c ≤ 0xBF then
    some (Half.ofUnit (0xD000 + b.toNat % 0x40 * 0x40 + c.toNat % 0x40))
  else none

/-- The text of UTF-8 in which lone halves are spelled as well. The bytes
since the last of them are given in reverse. -/
def pointsAfter? (before : List UInt8) : List UInt8 → Option (List Point)
  | a :: b :: c :: rest =>
    match halfOf? a b c with
    | some half => do
      let chars ← decode before.reverse
      let points ← pointsAfter? [] rest
      return chars.map .char ++ .half half :: points
    | none => pointsAfter? (a :: before) (b :: c :: rest)
  | bytes => (decode (before.reverse ++ bytes)).map (List.map .char)

/-- The text of some bytes in an encoding. -/
def Encoding.text? : Encoding → List UInt8 → Option (List Point)
  | .utf8, bytes =>
    match decode bytes with
    | some s => some (s.map .char)
    | none => pointsAfter? [] bytes
  | .utf16 big, bytes => (units16? big bytes).map (ofUnits16 none)
  | .utf32 big, bytes => points32? big bytes

/-- Why some bytes are no JSON: they are no text, or the text is none. -/
inductive BytesError
  | notText
  | notJson (error : ReadError)
deriving DecidableEq, Repr

/-- The value that some bytes hold. -/
def ofBytes (bytes : List UInt8) : Except BytesError Json :=
  let (encoding, mark) := Encoding.detect bytes
  match encoding.text? (bytes.drop mark) with
  | none => .error .notText
  | some points => (ofPoints points).mapError .notJson

end CommentThreads.Json
