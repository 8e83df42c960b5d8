/-
CommentThreads.Json.Printer — values as JSON text.

* `compact` is what goes over the wire: no blanks, and only the quotation
  mark, the backslash and the control characters escaped.
* `indented` is what goes into a file: two blanks for each level, one
  entry a line, and everything outside visible ASCII escaped, characters
  past U+FFFF as two units.

A lone half is escaped in a file. On the wire there is no form for it, and
U+FFFD stands in its place; a value with one is never sent.
-/
import CommentThreads.Json.Basic
import CommentThreads.Number.Shortest
import CommentThreads.Text.Digits

namespace CommentThreads.Json

open CommentThreads.Text CommentThreads.Number

/-- A 16-bit unit as an escape of four hexadecimal digits. -/
def unitEscape (unit : Nat) : List Char :=
  '\\' :: 'u' :: hex 4 unit

/-- The escapes that both forms of text share. -/
def shortEscape? (c : Char) : Option (List Char) :=
  if c = '"' then some ['\\', '"']
  else if c = '\\' then some ['\\', '\\']
  else if c = '\n' then some ['\\', 'n']
  else if c = '\r' then some ['\\', 'r']
  else if c = '\t' then some ['\\', 't']
  else if c = '\x0C' then some ['\\', 'f']
  else if c = '\x08' then some ['\\', 'b']
  else none

/-- A character inside a string on the wire. -/
def wireChar (c : Char) : List Char :=
  (shortEscape? c).getD (if c.toNat < 0x20 then unitEscape c.toNat else [c])

/-- A character inside a string in a file. -/
def fileChar (c : Char) : List Char :=
  let n := c.toNat
  (shortEscape? c).getD <|
    if 0x20 ≤ n && n < 0x7F then [c]
    else if n < 0x10000 then unitEscape n
    else unitEscape (0xD800 + (n - 0x10000) / 0x400) ++ unitEscape (0xDC00 + (n - 0x10000) % 0x400)

/-- A point inside a string on the wire. -/
def wirePoint : Point → List Char
  | .char c => wireChar c
  | .half _ => [Char.ofNat 0xFFFD]

/-- A point inside a string in a file. -/
def filePoint : Point → List Char
  | .char c => fileChar c
  | .half half => unitEscape half.unit

/-- A text in quotation marks, each point written by `point`. -/
def quoted (point : Point → List Char) (s : RawText) : List Char :=
  '"' :: s.points.flatMap point ++ ['"']

/-- The values that are neither lists nor objects. -/
def scalar (point : Point → List Char) : Json → List Char
  | .bool true => ['t', 'r', 'u', 'e']
  | .bool false => ['f', 'a', 'l', 's', 'e']
  | .int n => signedDecimal n
  | .real x => x.text "Infinity" "NaN"
  | .text s => quoted point s
  | _ => ['n', 'u', 'l', 'l']

mutual

/-- A value without blanks. -/
def compact : Json → List Char
  | .list items => '[' :: compactItems items ++ [']']
  | .object entries => '{' :: compactEntries entries ++ ['}']
  | v => scalar wirePoint v

/-- The items of a list, with commas between them. -/
def compactItems : List Json → List Char
  | [] => []
  | [v] => compact v
  | v :: rest => compact v ++ ',' :: compactItems rest

/-- The entries of an object, with commas between them. -/
def compactEntries : List (RawText × Json) → List Char
  | [] => []
  | [(k, v)] => quoted wirePoint k ++ ':' :: compact v
  | (k, v) :: rest => quoted wirePoint k ++ ':' :: compact v ++ ',' :: compactEntries rest

end

/-- The start of a line at a level. -/
def newLine (level : Nat) : List Char :=
  '\n' :: List.replicate (2 * level) ' '

mutual

/-- A value laid out over lines; its own lines stand one level deeper. -/
def laidOut (level : Nat) : Json → List Char
  | .list [] => ['[', ']']
  | .list items => '[' :: laidOutItems (level + 1) items ++ newLine level ++ [']']
  | .object [] => ['{', '}']
  | .object entries => '{' :: laidOutEntries (level + 1) entries ++ newLine level ++ ['}']
  | v => scalar filePoint v

/-- The items of a list, each on a line of its own. -/
def laidOutItems (level : Nat) : List Json → List Char
  | [] => []
  | [v] => newLine level ++ laidOut level v
  | v :: rest => newLine level ++ laidOut level v ++ ',' :: laidOutItems level rest

/-- The entries of an object, each on a line of its own. -/
def laidOutEntries (level : Nat) : List (RawText × Json) → List Char
  | [] => []
  | [(k, v)] => newLine level ++ quoted filePoint k ++ ':' :: ' ' :: laidOut level v
  | (k, v) :: rest =>
    newLine level ++ quoted filePoint k ++ ':' :: ' ' :: laidOut level v ++
      ',' :: laidOutEntries level rest

end

/-- The value as it is kept in a file. -/
def indented (v : Json) : List Char :=
  laidOut 0 v

end CommentThreads.Json
