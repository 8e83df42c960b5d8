/-
CommentThreads.Server.Route — which resource a path names.

There are two: all comments, `/comments`, and one comment,
`/comments/<hash>`. A path that names one of them but for a slash at its
end is redirected there. The pages that describe the service itself, at
`/docs`, `/redoc` and `/openapi.json`, are left out.
-/
import CommentThreads.Http.Message
import CommentThreads.Text.Words

namespace CommentThreads.Server

open CommentThreads.Http CommentThreads.Text

/-- A resource of the service. -/
inductive Resource
  | comments
  | comment (hash : String)
deriving DecidableEq, Repr

/-- The path of all comments. -/
def commentsPath : List Char := "/comments".toList

/-- The resource of a decoded path. A line feed at the end of the first
path does not matter. -/
def Resource.ofPath? (path : List Char) : Option Resource :=
  match afterStart? commentsPath path with
  | some [] => some .comments
  | some ['\n'] => some .comments
  | some ('/' :: hash) =>
    if hash = [] || hash.contains '/' then none else some (.comment (String.ofList hash))
  | _ => none

/-- The path with the slashes at its end taken away, or with one put there. -/
def toggleSlash (path : List Char) : List Char :=
  if path.getLast? = some '/' then (path.reverse.dropWhile (· = '/')).reverse
  else path ++ ['/']

/-- Where a request goes. -/
inductive Route
  | found (resource : Resource)
  | elsewhere (path : List Char)
  | nowhere
deriving DecidableEq, Repr

/-- The route of a decoded path. -/
def Route.ofPath (path : List Char) : Route :=
  match Resource.ofPath? path with
  | some resource => .found resource
  | none =>
    if path ≠ ['/'] && (Resource.ofPath? (toggleSlash path)).isSome then
      .elsewhere (toggleSlash path)
    else .nowhere

/-- The path of a request with its percent signs resolved. An empty path is
the root. -/
def decodedPath (t : Target) : List Char :=
  let path := percentDecode t.path
  if path = [] then ['/'] else path

/-- What an address in a header may hold. -/
def isLocationChar (c : Char) : Bool :=
  isUnreserved c || ":/%#?=@[]!$&'()*+,;".toList.contains c

/-- The address of a path and a query on a host. -/
def location (host : String) (path : List Char) (query : Option (List Char)) : String :=
  let address := "http://".toList ++ host.toList ++ path ++ (query.map ('?' :: ·)).getD []
  String.ofList (percentEncode isLocationChar address)

/-- The answer that sends a request to another address. -/
def redirect (address : String) : Response :=
  ⟨307, [("location", address)], .text ""⟩

end CommentThreads.Server
