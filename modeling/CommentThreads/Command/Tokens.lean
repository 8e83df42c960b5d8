/-
CommentThreads.Command.Tokens — cutting a line into tokens.

White space separates tokens, except between double quotation marks. The
marks themselves are dropped, wherever they stand, so `a"b c"d` is one
token; a pair of marks with nothing between them makes an empty token; a
mark without a partner reaches to the end of the line.
-/
import CommentThreads.Text.Blank

namespace CommentThreads.Command

open CommentThreads.Text

/-- The token under way, if one has begun. Its characters stand in reverse. -/
abbrev Current := Option (List Char)

/-- The token under way, finished. -/
def Current.finish (current : Current) : List (List Char) :=
  (current.map List.reverse).toList

/-- The token under way with one more character. -/
def Current.push (current : Current) (c : Char) : Current :=
  some (c :: current.getD [])

/-- The tokens of the rest of a line. `quoted` tells whether it begins
between quotation marks. -/
def tokensFrom (quoted : Bool) (current : Current) : List Char → List (List Char)
  | [] => current.finish
  | c :: rest =>
    if c = '"' then tokensFrom (!quoted) (some (current.getD [])) rest
    else if isBlank c && !quoted then current.finish ++ tokensFrom quoted none rest
    else tokensFrom quoted (current.push c) rest

/-- The tokens of a line. -/
def tokens (line : String) : List String :=
  (tokensFrom false none line.toList).map String.ofList

end CommentThreads.Command
