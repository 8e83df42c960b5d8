/-
CommentThreads.Text.Digits — natural numbers written and read in decimal
and in hexadecimal.

`decimal` writes a number without leading zeros; `padded` and `hex` write
a fixed number of digits. `digitValue?` and `hexValue?` read one digit,
`ofDigits` and `ofHexDigits?` a run of them.
-/

namespace CommentThreads.Text

/-- The digit for a value below ten. -/
def digitChar (n : Nat) : Char :=
  Char.ofNat (n % 10 + '0'.toNat)

/-- The decimal digits of a number, the last one first. -/
def digitsFromLast (n : Nat) : List Char :=
  if n < 10 then [digitChar n] else digitChar n :: digitsFromLast (n / 10)

/-- The number in decimal, without leading zeros; zero is `0`. -/
def decimal (n : Nat) : List Char :=
  (digitsFromLast n).reverse

/-- The number in decimal, with a minus sign in front when negative. -/
def signedDecimal : Int → List Char
  | .ofNat n => decimal n
  | .negSucc n => '-' :: decimal (n + 1)

/-- The last `width` decimal digits of a number. -/
def padded : (width : Nat) → Nat → List Char
  | 0, _ => []
  | width + 1, n => padded width (n / 10) ++ [digitChar n]

/-- The value of a decimal digit of ASCII. -/
def digitValue? (c : Char) : Option Nat :=
  if '0' ≤ c && c ≤ '9' then some (c.toNat - '0'.toNat) else none

/-- A decimal digit of ASCII. -/
def isDigit (c : Char) : Bool :=
  '0' ≤ c && c ≤ '9'

/-- The number that a run of decimal digits denotes; anything else in it
counts as zero. -/
def ofDigits (s : List Char) : Nat :=
  s.foldl (fun n c => n * 10 + (digitValue? c).getD 0) 0

/-- The value of a hexadecimal digit of ASCII, in either case. -/
def hexValue? (c : Char) : Option Nat :=
  if '0' ≤ c && c ≤ '9' then some (c.toNat - '0'.toNat)
  else if 'a' ≤ c && c ≤ 'f' then some (c.toNat - 'a'.toNat + 10)
  else if 'A' ≤ c && c ≤ 'F' then some (c.toNat - 'A'.toNat + 10)
  else none

/-- The number that a run of hexadecimal digits denotes, if all of them
are digits. -/
def ofHexDigits? (s : List Char) : Option Nat :=
  s.foldlM (fun n c => (hexValue? c).map (n * 16 + ·)) 0

/-- The small hexadecimal digit for a value below sixteen. -/
def hexChar (n : Nat) : Char :=
  if n % 16 < 10 then digitChar (n % 16) else Char.ofNat (n % 16 - 10 + 'a'.toNat)

/-- The last `width` hexadecimal digits of a number, in small letters. -/
def hex : (width : Nat) → Nat → List Char
  | 0, _ => []
  | width + 1, n => hex width (n / 16) ++ [hexChar n]

end CommentThreads.Text
