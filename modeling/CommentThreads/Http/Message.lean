/-
CommentThreads.Http.Message — requests and responses.

A request carries bytes; a response carries a value or a text, and
`Body.bytes` is what goes over the wire. Names of headers are small
letters.
-/
import CommentThreads.Http.Target
import CommentThreads.Json.Printer

namespace CommentThreads.Http

open CommentThreads.Text

/-- Headers in order. -/
abbrev Headers := List (String × String)

/-- The first header with a name. -/
def Headers.find? (name : String) (headers : Headers) : Option String :=
  List.lookup name headers

/-- A request as a server receives it. -/
structure Request where
  method : String
  target : Target
  headers : Headers
  body : List UInt8
deriving Repr

/-- What a response carries. -/
inductive Body
  | json (value : Json)
  | text (content : String)
deriving Repr

/-- The body has a written form. A value may have none. -/
def Body.isSendable : Body → Bool
  | .json value => value.isSendable
  | .text _ => true

/-- The bytes of a body. -/
def Body.bytes : Body → List UInt8
  | .json value => encode value.compact
  | .text content => utf8 content

/-- An answer to a request. -/
structure Response where
  status : Nat
  headers : Headers
  body : Body
deriving Repr

namespace Response

/-- An answer that carries a value. -/
def json (status : Nat) (value : Json) : Response :=
  ⟨status, [("content-type", "application/json")], .json value⟩

/-- An answer that carries a text. -/
def plain (status : Nat) (content : String) : Response :=
  ⟨status, [("content-type", "text/plain; charset=utf-8")], .text content⟩

/-- An answer that says why there is nothing better. -/
def detail (status : Nat) (message : RawText) : Response :=
  json status (.object [("detail", .text message)])

/-- The answer with more headers. -/
def withHeaders (r : Response) (more : Headers) : Response :=
  { r with headers := r.headers ++ more }

end Response

end CommentThreads.Http
