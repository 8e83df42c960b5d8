/-
CommentThreads.Text.Blank — which characters are white space, and
trimming a text at both ends.

* `isBlank` — the white space of the Unicode standard together with the
  four information separators U+001C to U+001F, which end a word too.
* `trim`, `strip` — a text without the white space at its two ends, over
  characters and over strings.
* `isBlankText` — nothing but white space; the empty text counts.
-/

namespace CommentThreads.Text

/-- White space is U+0009 to U+000D, the information separators, the
space, the next-line control, and the space separators of Unicode. -/
def isBlank (c : Char) : Bool :=
  let n := c.toNat
  (0x09 ≤ n && n ≤ 0x0D) || (0x1C ≤ n && n ≤ 0x20) || n == 0x85 || n == 0xA0 ||
    n == 0x1680 || (0x2000 ≤ n && n ≤ 0x200A) || n == 0x2028 || n == 0x2029 ||
    n == 0x202F || n == 0x205F || n == 0x3000

/-- The text from its first character that is not white space. -/
def trimStart (s : List Char) : List Char :=
  s.dropWhile isBlank

/-- The text up to its last character that is not white space. -/
def trimEnd (s : List Char) : List Char :=
  (s.reverse.dropWhile isBlank).reverse

/-- The text without white space at either end. -/
def trim (s : List Char) : List Char :=
  trimEnd (trimStart s)

/-- The string without white space at either end. -/
def strip (s : String) : String :=
  String.ofList (trim s.toList)

/-- A string of white space only; the empty string is one. -/
def isBlankText (s : String) : Bool :=
  s.toList.all isBlank

end CommentThreads.Text
