/-
CommentThreads.Text.Similarity — which words are much like another one.

The likeness of two words counts the characters of their longest common
block, of the longest one to the left of it, and so on, and the same to
the right. It is twice that count over the length of both words together.
-/
import CommentThreads.Text.Words

namespace CommentThreads.Text

/-- How many characters two texts begin with in common. -/
def commonStart : List Char → List Char → Nat
  | a :: s, b :: t => if a = b then commonStart s t + 1 else 0
  | _, _ => 0

/-- A block that stands in two texts: where in each, and how long. -/
structure Block where
  left : Nat
  right : Nat
  size : Nat
deriving DecidableEq, Repr

/-- The longest block of two texts; of several the one that begins first in
the first text, and then in the second. -/
def longestBlock (s t : List Char) : Block :=
  let candidates := (List.range s.length).flatMap fun i =>
    (List.range t.length).map fun j => Block.mk i j (commonStart (s.drop i) (t.drop j))
  candidates.foldl (fun best b => if b.size > best.size then b else best) ⟨0, 0, 0⟩

/-- The characters in common blocks. The first argument bounds the depth;
the length of the first text is always enough. -/
def commonChars : Nat → List Char → List Char → Nat
  | 0, _, _ => 0
  | bound + 1, s, t =>
    let b := longestBlock s t
    if b.size = 0 then 0
    else b.size + commonChars bound (s.take b.left) (t.take b.right) +
      commonChars bound (s.drop (b.left + b.size)) (t.drop (b.right + b.size))

/-- How many characters of two words are in common blocks. -/
def commonCount (s t : String) : Nat :=
  commonChars s.length s.toList t.toList

/-- A word and its likeness, as a fraction. -/
structure Likeness where
  word : String
  common : Nat
  total : Nat
deriving DecidableEq, Repr

/-- At least six tenths alike. -/
def Likeness.isClose (l : Likeness) : Bool := 6 * l.total ≤ 20 * l.common

/-- More alike, or as much and later in the alphabet. -/
def Likeness.before (a b : Likeness) : Bool :=
  a.common * b.total > b.common * a.total ||
    (a.common * b.total = b.common * a.total && b.word ≤ a.word)

/-- Up to three words that are close to a given one, the closest first. -/
def closeWords (word : String) (words : List String) : List String :=
  let likenesses := words.map fun w => Likeness.mk w (commonCount w word) (w.length + word.length)
  (((likenesses.filter Likeness.isClose).mergeSort Likeness.before).take 3).map Likeness.word

end CommentThreads.Text
