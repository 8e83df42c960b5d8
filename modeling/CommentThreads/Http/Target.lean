/-
CommentThreads.Http.Target — what a request asks a server for: a path and
a query.

`Target.ofReference?` makes one from a reference that may hold any
characters. The fragment is dropped, the query split off, what may not
stand in an address is percent-encoded (percent signs stay as they are),
and the segments `.` and `..` are resolved. `Target.ofField?` makes a
target with a query of one field.
-/
import CommentThreads.Text.Percent

namespace CommentThreads.Http

open CommentThreads.Text

/-- A path and, behind a question mark, a query; both percent-encoded. -/
structure Target where
  path : List Char
  query : Option (List Char)
deriving DecidableEq, Repr

namespace Target

/-- The most characters that an address, and each part of one, may have. -/
def mostChars : Nat := 65536

/-- A control character of ASCII, which no address may hold. -/
def isControl (c : Char) : Bool :=
  c.toNat < 0x20 || c.toNat = 0x7F

/-- Characters of ASCII with a visible form. -/
def isVisibleAscii (c : Char) : Bool :=
  0x21 ≤ c.toNat && c.toNat ≤ 0x7E

/-- What a query may hold. -/
def isQueryChar (c : Char) : Bool :=
  isVisibleAscii c && !(['"', '#', '<', '>'].contains c)

/-- What a path may hold. -/
def isPathChar (c : Char) : Bool :=
  isQueryChar c && !(['?', '\x60', '\x7b', '\x7d'].contains c)

/-- Resolve the segments `.` and `..`. The segments kept so far stand in
reverse; the empty one before the leading slash is never taken away. -/
def resolveDots (kept : List (List Char)) : List (List Char) → List (List Char)
  | [] => kept.reverse
  | segment :: rest =>
    if segment = ['.'] then resolveDots kept rest
    else if segment = ['.', '.'] then
      resolveDots (if kept = [] || kept = [[]] then kept else kept.drop 1) rest
    else resolveDots (segment :: kept) rest

/-- Segments with slashes between them. -/
def joinSegments : List (List Char) → List Char
  | [] => []
  | [segment] => segment
  | segment :: rest => segment ++ '/' :: joinSegments rest

/-- A path without the segments `.` and `..`. -/
def normalize (path : List Char) : List Char :=
  joinSegments (resolveDots [] (splitAt '/' path))

/-- The target of a reference, whose path begins at the root; none if it
holds control characters or is too long. -/
def ofReference? (reference : List Char) : Option Target :=
  if reference.length > mostChars || reference.any isControl then none
  else
    let reference := reference.takeWhile (· ≠ '#')
    let path := percentEncode isPathChar (reference.takeWhile (· ≠ '?'))
    let query := if reference.contains '?' then
        some (percentEncode isQueryChar ((reference.dropWhile (· ≠ '?')).drop 1))
      else none
    if path.length > mostChars || (query.getD []).length > mostChars then none
    else some ⟨normalize ('/' :: path.dropWhile (· = '/')), query⟩

/-- The target with one field as its query; none if that is too long. -/
def ofField? (path key value : String) : Option Target :=
  let query := formEncode key.toList ++ '=' :: formEncode value.toList
  if query.length > mostChars then none else some ⟨path.toList, some query⟩

/-- The target as it is written. -/
def text (t : Target) : List Char :=
  t.path ++ (t.query.map ('?' :: ·)).getD []

end Target

end CommentThreads.Http
