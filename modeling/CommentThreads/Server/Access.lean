/-
CommentThreads.Server.Access — who may talk to the service.

Pages of other origins may read its answers if their origin is allowed; a
browser asks beforehand by a preflight request. Requests for a host that
the service does not go by are refused.
-/
import CommentThreads.Http.Message
import CommentThreads.Settings
import CommentThreads.Text.Blank
import CommentThreads.Text.Lines

namespace CommentThreads.Server

open CommentThreads.Http CommentThreads.Text

/-- The methods that pages of other origins may use. -/
def allowedMethods : List String := ["GET", "POST", "PUT", "DELETE", "OPTIONS"]

/-- The headers that pages of other origins may send. -/
def allowedHeaders : List String :=
  ["Accept", "Accept-Language", "Content-Language", "Content-Type"]

/-- How many seconds a browser may rely on a preflight answer. -/
def preflightAge : String := "600"

/-- What a preflight answer depends on. -/
def preflightVary : String :=
  "Origin, Access-Control-Request-Method, Access-Control-Request-Headers, " ++
    "Access-Control-Request-Private-Network"

/-- Every origin is allowed. -/
def allowsAll (s : Settings) : Bool := s.allowedOrigins.contains ("*" : RawText)

/-- The origin is allowed. -/
def allowsOrigin (s : Settings) (origin : String) : Bool :=
  allowsAll s || s.allowedOrigins.contains (origin : RawText)

/-- A request of a browser that asks what another request may do. -/
def isPreflight (r : Request) : Bool :=
  r.method = "OPTIONS" && (Headers.find? "origin" r.headers).isSome &&
    (Headers.find? "access-control-request-method" r.headers).isSome

/-- The header names of a list, all of which may be sent. -/
def allowsHeaders (names : String) : Bool :=
  (pieces ',' names).all fun name =>
    (allowedHeaders.map Settings.lowered).contains (strip (Settings.lowered name))

/-- What a preflight request asks for in vain. -/
def refusals (s : Settings) (r : Request) : List String :=
  let header (name : String) := Headers.find? name r.headers
  (if allowsOrigin s ((header "origin").getD "") then [] else ["origin"]) ++
  (if allowedMethods.contains ((header "access-control-request-method").getD "") then []
    else ["method"]) ++
  (if ((header "access-control-request-headers").map allowsHeaders).getD true then []
    else ["headers"]) ++
  (if (header "access-control-request-private-network").isSome then ["private-network"] else [])

/-- The origin that an answer names, if it may be read there. -/
def namedOrigin (s : Settings) (origin : String) : Headers :=
  if allowsAll s then [("access-control-allow-origin", "*")]
  else if allowsOrigin s origin then [("access-control-allow-origin", origin)]
  else []

/-- The answer to a preflight request. -/
def preflight (s : Settings) (r : Request) : Response :=
  let failures := refusals s r
  let answer := if failures.isEmpty then Response.plain 200 "OK"
    else Response.plain 400 ("Disallowed CORS " ++ joinWith ", " failures)
  answer.withHeaders
    ([("vary", preflightVary), ("access-control-allow-methods", joinWith ", " allowedMethods),
      ("access-control-max-age", preflightAge),
      ("access-control-allow-headers", joinWith ", " allowedHeaders)] ++
      namedOrigin s ((Headers.find? "origin" r.headers).getD ""))

/-- The headers of any other answer. With cookies a request's origin is
named itself, since browsers then take no star. -/
def originHeaders (s : Settings) (r : Request) : Headers :=
  ("vary", "Origin") :: match Headers.find? "origin" r.headers with
    | none => []
    | some origin =>
      if allowsAll s && (Headers.find? "cookie" r.headers).isSome then
        [("access-control-allow-origin", origin)]
      else namedOrigin s origin

/-- The host that a request is for. -/
def hostHeader (r : Request) : String := (Headers.find? "host" r.headers).getD ""

/-- A host that a pattern allows: the pattern itself, or, behind a star,
any name that ends in the pattern. No host has a lone half in its name. -/
def hostMatches (host : String) : RawText → Bool
  | .plain pattern => host = pattern || match following? "*" pattern with
    | some ending => ending.toList.isSuffixOf host.toList
    | none => false
  | .torn .. => false

/-- What is made of the host of a request. -/
inductive HostVerdict
  | served
  | servedAsWww
  | refused
deriving DecidableEq, Repr

/-- The service goes by the host, or only by the host with `www.` before it,
or by neither. -/
def judgeHost (s : Settings) (r : Request) : HostVerdict :=
  let host := String.ofList ((hostHeader r).toList.takeWhile (· ≠ ':'))
  if s.allowedHosts.contains ("*" : RawText) || s.allowedHosts.any (hostMatches host) then .served
  else if s.allowedHosts.contains (("www." ++ host : String) : RawText) then .servedAsWww
  else .refused

end CommentThreads.Server
