/-
CommentThreads.Text.Lines — cutting a text into lines.

Two notions of line are in use. `splitLines` breaks at every line
boundary of Unicode and shows no empty line after a final break, which
is how a message is laid out behind its indent. `splitAt` breaks at one
given character only and always has a last piece, which is how printed
text becomes lines of the terminal. `inputLines` cuts what is typed: a
line ends at a line feed, a carriage return, or the two together.
-/
import CommentThreads.Text.Raw

namespace CommentThreads.Text

/-- The characters that end a line: line feed, vertical tab, form feed,
carriage return, the file, group and record separators, next line, and
the line and paragraph separators. -/
def isLineBreak (c : Char) : Bool :=
  let n := c.toNat
  (0x0A ≤ n && n ≤ 0x0D) || (0x1C ≤ n && n ≤ 0x1E) || n == 0x85 || n == 0x2028 || n == 0x2029

/-- A lone half ends no line. -/
def endsLine : Point → Bool
  | .char c => isLineBreak c
  | .half _ => false

/-- The first line is extended by what stands in front of the text. -/
def consFirst {α : Type} (c : α) : List (List α) → List (List α)
  | [] => [[c]]
  | line :: rest => (c :: line) :: rest

/-- The lines of a text. A carriage return and the line feed after it are
one break; a break at the very end starts no further line, so the empty
text has no lines. -/
def splitLines : List Point → List (List Point)
  | [] => []
  | .char '\r' :: .char '\n' :: rest => [] :: splitLines rest
  | p :: rest => if endsLine p then [] :: splitLines rest else consFirst p (splitLines rest)

/-- The pieces between the occurrences of `sep`; always one more piece
than there are occurrences. -/
def splitAt {α : Type} [DecidableEq α] (sep : α) : List α → List (List α)
  | [] => [[]]
  | c :: rest => if c = sep then [] :: splitAt sep rest else consFirst c (splitAt sep rest)

/-- The lines of typed input, without their ends. Input that stops short
of a line end still gives its last line. -/
def inputLines : List Char → List (List Char)
  | [] => []
  | '\r' :: '\n' :: rest => [] :: inputLines rest
  | c :: rest =>
    if c = '\n' || c = '\r' then [] :: inputLines rest else consFirst c (inputLines rest)

/-- The pieces of a string between the occurrences of a character. -/
def pieces (sep : Char) (s : String) : List String :=
  (splitAt sep s.toList).map String.ofList

end CommentThreads.Text

namespace CommentThreads.RawText

/-- The lines of a text. -/
def lines (t : RawText) : List RawText :=
  (Text.splitLines t.points).map ofPoints

/-- The pieces of a text between the occurrences of a character. -/
def pieces (sep : Char) (t : RawText) : List RawText :=
  (Text.splitAt (.char sep) t.points).map ofPoints

end CommentThreads.RawText
