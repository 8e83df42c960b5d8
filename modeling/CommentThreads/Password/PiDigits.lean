/-
CommentThreads.Password.PiDigits — the binary digits of the number π
behind the point, as words of 32 bits.

They come from Machin's formula, π = 16·arctan(1/5) − 4·arctan(1/239), in
whole numbers scaled by a power of two, with 64 bits more than are kept.
-/
import CommentThreads.Number.Power

namespace CommentThreads.Password

open CommentThreads.Number

/-- `scale · arctan(1/n)`, summed over its first `terms` terms. -/
def arctanInverse (scale n terms : Nat) : Int :=
  let sum := (List.range terms).foldl
    (fun (state : Nat × Int) i =>
      let (power, sum) := state
      let term : Int := (power / (2 * i + 1) : Nat)
      (power / (n * n), if i % 2 = 0 then sum + term else sum - term))
    (scale / n, 0)
  sum.2

/-- The first `bits` binary digits of π behind the point, as one number. -/
def piFraction (bits : Nat) : Nat :=
  let scale := twoTo (bits + 64)
  let scaled := 16 * arctanInverse scale 5 (bits / 4 + 64) -
    4 * arctanInverse scale 239 (bits / 15 + 64)
  scaled.toNat / twoTo 64 % twoTo bits

/-- The first `count` words of 32 binary digits of π behind the point. -/
def piWords (count : Nat) : Array UInt32 :=
  let digits := piFraction (32 * count)
  Array.ofFn fun i : Fin count => (digits / twoTo (32 * (count - 1 - i.val))).toUInt32

end CommentThreads.Password
