/-
CommentThreads.Text.Quoted — a text between quotation marks, so that its
invisible characters can be seen.

The mark is the apostrophe, unless the text has apostrophes and no double
quotation marks. The mark itself and the backslash are written behind a
backslash; tab, line feed and carriage return as `\t`, `\n`, `\r`; every
other character without a visible form by its number, as `\x`, `\u` or
`\U` with two, four or eight digits.
-/
import CommentThreads.Text.Digits
import CommentThreads.Text.Printable
import CommentThreads.Text.Raw

namespace CommentThreads.Text

/-- The mark that quotes a text with the fewest backslashes. -/
def quoteMark (s : List Point) : Char :=
  if s.contains (.char '\'') && !s.contains (.char '"') then '"' else '\''

/-- One character inside the given marks. -/
def quoteChar (mark c : Char) : List Char :=
  if c = mark || c = '\\' then ['\\', c]
  else if c = '\t' then ['\\', 't']
  else if c = '\n' then ['\\', 'n']
  else if c = '\r' then ['\\', 'r']
  else if isPrintable c then [c]
  else if c.toNat < 0x100 then '\\' :: 'x' :: hex 2 c.toNat
  else if c.toNat < 0x10000 then '\\' :: 'u' :: hex 4 c.toNat
  else '\\' :: 'U' :: hex 8 c.toNat

/-- One point inside the given marks. A lone half has no visible form. -/
def quotePoint (mark : Char) : Point → List Char
  | .char c => quoteChar mark c
  | .half half => '\\' :: 'u' :: hex 4 half.unit

/-- The text between marks. -/
def quote (s : RawText) : String :=
  let mark := quoteMark s.points
  String.ofList (mark :: s.points.flatMap (quotePoint mark) ++ [mark])

end CommentThreads.Text
