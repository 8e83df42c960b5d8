/-
CommentThreads.Number.Shortest — the text of a binary number with the
fewest digits that read back as that number.

On the grid of the decimals with `n` digits a number has two neighbours.
The first grid, from one digit to seventeen, on which a neighbour reads
back gives the digits; of two that do, the nearer. The text is positional
for sizes from 10^-4 up to 10^16, and has one digit before the point and
an exponent of at least two digits otherwise.
-/
import CommentThreads.Number.Binary64

namespace CommentThreads.Number.Binary64

open CommentThreads.Text

/-- The power of ten just above `num / den`: the least `k` with
`num / den < 10^k`. Neither term is zero. -/
def pointPlace (num den : Nat) : Int :=
  if den ≤ num then (decimal (num / den)).length
  else
    let a := (decimal (den / num)).length - 1
    if num * tenTo a = den then 1 - (a : Int) else -(a : Int)

/-- The two terms of `num / den / 10^k`. -/
def rescaleTen (num den : Nat) : Int → Nat × Nat
  | .ofNat k => (num, den * tenTo k)
  | .negSucc k => (num * tenTo (k + 1), den)

/-- The digits on the grid with spacing `10^power` that read back as the
number, if a neighbour on that grid does. -/
def digitsOnGrid? (mantissa : Nat) (exponent power : Int) : Option Nat :=
  let (num, den) := ratio mantissa exponent
  let (n, d) := rescaleTen num den power
  let below := n / d
  let readsBack (k : Nat) := ofDecimal false k power = .finite false mantissa exponent
  let nearBelow := 2 * (n % d) < d || (2 * (n % d) = d && below % 2 = 0)
  match decide (readsBack below), decide (readsBack (below + 1)) with
  | true, true => some (if nearBelow then below else below + 1)
  | true, false => some below
  | false, true => some (below + 1)
  | false, false => none

/-- The shortest digits of a number other than zero, and the power of ten
that its last digit stands for. -/
def shortest (mantissa : Nat) (exponent : Int) : Nat × Int :=
  let (num, den) := ratio mantissa exponent
  let place := pointPlace num den
  let grid? (n : Nat) : Option (Nat × Int) :=
    let power := place - (n + 1 : Nat)
    (digitsOnGrid? mantissa exponent power).map (·, power)
  ((List.range 17).findSome? grid?).getD (0, 0)

/-- The digits without the zeros at their end, and how many those were. -/
def dropZeros (digits : List Char) : List Char × Nat :=
  let kept := (digits.reverse.dropWhile (· = '0')).reverse
  (kept, digits.length - kept.length)

/-- An exponent with its sign and at least two digits. -/
def exponentText (e : Int) : List Char :=
  let digits := decimal e.natAbs
  (if e < 0 then '-' else '+') :: (if digits.length < 2 then '0' :: digits else digits)

/-- Digits with the point behind the first `place` of them, filled up with
zeros; a whole number keeps one zero behind the point. -/
def positional (digits : List Char) (place : Int) : List Char :=
  if place ≤ 0 then '0' :: '.' :: List.replicate place.natAbs '0' ++ digits
  else
    let whole := place.toNat
    if digits.length ≤ whole then
      digits ++ List.replicate (whole - digits.length) '0' ++ ['.', '0']
    else digits.take whole ++ '.' :: digits.drop whole

/-- One digit, the others behind a point, and the exponent. -/
def scientific (digits : List Char) (place : Int) : List Char :=
  let tail := digits.drop 1
  digits.take 1 ++ (if tail.isEmpty then [] else '.' :: tail) ++ 'e' :: exponentText (place - 1)

/-- The text of a finite number without its sign. -/
def sizeText (mantissa : Nat) (exponent : Int) : List Char :=
  if mantissa = 0 then ['0', '.', '0']
  else
    let (value, power) := shortest mantissa exponent
    let (digits, zeros) := dropZeros (decimal value)
    let place := (digits.length : Int) + power + zeros
    if -4 < place && place ≤ 16 then positional digits place else scientific digits place

/-- The text of a number, with the given words for the values that have no
digits. -/
def text (infinity undefinedText : String) : Binary64 → List Char
  | .finite negative m e => (if negative then ['-'] else []) ++ sizeText m e
  | .infinite negative => (if negative then ['-'] else []) ++ infinity.toList
  | .undefined => undefinedText.toList

end CommentThreads.Number.Binary64
