/-
CommentThreads.CommandLine.Style — how printed lines look on a screen.

A style is an escape sequence before the text, and every line ends with
the sequence that takes styles back. On a screen without styles all such
sequences are taken out, also those that a text brings along.
-/
import CommentThreads.Terminal.Session

namespace CommentThreads.CommandLine

open CommentThreads.Terminal

/-- The character that begins an escape sequence. -/
def escapeChar : Char := '\x1b'

/-- The number of a line's colour. -/
def colour? : LineKind → Option String
  | .output => none
  | .command => some "90"
  | .hash => some "33"
  | .success => some "36"
  | .error => some "31"
  | .muted => some "90"

/-- An escape sequence with a number. -/
def sequence (number : String) : List Char :=
  escapeChar :: '[' :: number.toList ++ ['m']

/-- The text of a line with its style. -/
def styled (kind : LineKind) (text : String) : List Char :=
  ((colour? kind).map sequence).getD [] ++ text.toList ++ sequence "0"

/-- What may stand between the bracket and the letter of a sequence. -/
def isParameter (c : Char) : Bool :=
  ('0' ≤ c && c ≤ '9') || c = ';' || c = '?'

/-- The text without its escape sequences. What may still become a sequence
is held back, in reverse. -/
def stripSequences (held : List Char) : List Char → List Char
  | [] => held.reverse
  | c :: rest =>
    if c = escapeChar then held.reverse ++ stripSequences [c] rest
    else if held = [escapeChar] && c = '[' then stripSequences (c :: held) rest
    else if held.length < 2 then held.reverse ++ c :: stripSequences [] rest
    else if isParameter c then stripSequences (c :: held) rest
    else if c.isAlpha then stripSequences [] rest
    else held.reverse ++ c :: stripSequences [] rest

/-- The text of a line as it is shown on a screen with or without styles. -/
def shown (color : Bool) (kind : LineKind) (text : String) : List Char :=
  (if color then styled kind text else stripSequences [] (styled kind text)) ++ ['\n']

end CommentThreads.CommandLine
