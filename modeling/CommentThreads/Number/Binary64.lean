/-
CommentThreads.Number.Binary64 — binary floating-point numbers of 64
bits, as exact values.

A finite number is a sign, a mantissa below 2^53 and a power of two. It
is canonical: the mantissa has 53 bits, or the power is the least one,
2^-1074. `ofRatio` and `ofDecimal` give the nearest such number, the even
one of two that are equally near; past the largest they give an infinity.
-/
import CommentThreads.Number.Power
import CommentThreads.Text.Digits

namespace CommentThreads.Number

/-- A number with a sign, `mantissa · 2^exponent`; one of the two
infinities; or the result of an operation that has none. -/
inductive Binary64
  | finite ( negative : Bool) (mantissa : Nat) (exponent : Int)
  | infinite ( negative : Bool)
  | undefined
deriving DecidableEq, Repr

namespace Binary64

/-- The number is neither infinite nor undefined. -/
def isFinite : Binary64 → Bool
  | .finite .. => true
  | _ => false

/-- The quotient rounded to the nearest natural number, a half to the
even neighbour. -/
def roundQuotient (num den : Nat) : Nat :=
  let q := num / den
  let r := num % den
  if 2 * r < den || (2 * r = den && q % 2 = 0) then q else q + 1

/-- The two terms of `num / den / 2^e`. -/
def rescale (num den : Nat) : Int → Nat × Nat
  | .ofNat e => (num, den * twoTo e)
  | .negSucc e => (num * twoTo (e + 1), den)

/-- The power of two with which the quotient has 53 bits before the
point, but no less than the least power. -/
def exponentFor (num den : Nat) : Int :=
  let guess : Int := (num.log2 : Int) - (den.log2 : Int) - 52
  let (n, d) := rescale num den guess
  max (if n < d * twoTo 52 then guess - 1 else guess) (-1074)

/-- The number nearest to `num / den`; `den` is not zero. -/
def ofRatio ( negative : Bool) (num den : Nat) : Binary64 :=
  if num = 0 then .finite negative 0 (-1074)
  else
    let e := exponentFor num den
    let (n, d) := rescale num den e
    let m := roundQuotient n d
    let (m, e) := if m = twoTo 53 then (twoTo 52, e + 1) else (m, e)
    if e > 971 then .infinite negative else .finite negative m e

/-- The number nearest to `digits · 10^power`. Powers so large or so
small that no digit could matter are not computed. -/
def ofDecimal ( negative : Bool) (digits : Nat) (power : Int) : Binary64 :=
  let size : Int := (Text.decimal digits).length + power
  if digits = 0 || size < -400 then .finite negative 0 (-1074)
  else if size > 400 then .infinite negative
  else match power with
    | .ofNat k => ofRatio negative (digits * tenTo k) 1
    | .negSucc k => ofRatio negative digits (tenTo (k + 1))

/-- The number nearest to an integer. -/
def ofInt (n : Int) : Binary64 :=
  ofRatio (n < 0) n.natAbs 1

/-- The size of a finite number as a fraction: numerator and denominator. -/
def ratio (mantissa : Nat) : (exponent : Int) → Nat × Nat
  | .ofNat e => (mantissa * twoTo e, 1)
  | .negSucc e => (mantissa, twoTo (e + 1))

end Binary64

end CommentThreads.Number
