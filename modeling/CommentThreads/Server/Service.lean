/-
CommentThreads.Server.Service — the answers of the service.

`respond` answers a request by a program over the store. The order in
which a request is judged is: its origin and host, its path, its method,
whether its body is JSON, whether there is a store, what the body or query
holds, the size of the message, and what the store says. An answer with a
lone half of a surrogate pair in it cannot be sent, whatever was done.
-/
import CommentThreads.Server.Access
import CommentThreads.Server.Input
import CommentThreads.Server.Route
import CommentThreads.Store.Backend
import CommentThreads.Store.Comments

namespace CommentThreads.Server

open CommentThreads.Http CommentThreads.Store

/-- A service: its settings, the salt for new passwords, and whether it has
a store. -/
structure Service where
  settings : Settings
  salt : String
  hasStore : Bool
deriving Repr

namespace Service

/-- What the operations on comments need to know. -/
def config (s : Service) : Config := ⟨s.settings.defaultAuthor, s.salt⟩

/-- The empty store that the settings name, if they name one. -/
def openStore? (settings : Settings) : Option Backend :=
  Backend.ofName? settings.backend settings.collection

end Service

/-- The answer of an action. -/
def answer {α : Type} (action : Action α) (good : α → Response) (bad : Fault → Response) :
    Program Response := do
  match ← action.run with
  | .ok a => return good a
  | .error fault => return bad fault

/-- The answer to an error that is the service's own. -/
def internal (activity : String) : Response :=
  .detail 500 ("Internal server error while " ++ activity ++ ".")

/-- There is no such comment. -/
def commentNotFound : Response := .detail 404 "Comment not found"

/-- The threads of a post. -/
def showThreads (post : RawText) : Program Response :=
  answer (threads post) (fun ts => .json 200 (Listing.toJson ts))
    fun _ => internal "fetching comments"

/-- A comment by itself. -/
def showComment (hash : String) : Program Response :=
  answer (find hash)
    (fun
      | some c => .json 200 c.detail.toJson
      | none => commentNotFound)
    fun _ => internal "fetching comment"

/-- The answer to a message that is too large. -/
def tooLarge (s : Settings) : Response :=
  .detail 413 ("Comment message exceeds the maximum size of " ++ toString s.maxMessageKb ++ " KB.")

/-- A message within the limit; its size is counted in bytes. -/
def fits (s : Settings) (message : String) : Bool :=
  ((Text.utf8 message).length : Int) ≤ s.maxMessageBytes

/-- The answer to a comment that was stored. -/
def receipt (c : Comment) : Receipt :=
  ⟨c.hash, c.author, "[comment " ++ c.hash ++ "] " ++ c.message⟩

/-- An answer of the application, or none if it failed without one. -/
abbrev Outcome := Option Response

/-- Go on with a message that is within the limit. The size of one that cannot
be encoded is not known, and the application fails on it. -/
def withinLimit (s : Settings) (message : RawText) (next : Program Response) : Program Outcome :=
  match message.string? with
  | none => return none
  | some message => if fits s message then some <$> next else return some (tooLarge s)

/-- Store a comment. -/
def postComment (s : Service) (c : NewComment) : Program Outcome :=
  withinLimit s.settings c.message <|
    answer (create s.config c.post c.message c.author c.password c.parent)
      (fun stored => .json 201 (receipt stored).toJson)
      fun
        | .notFound _ => .detail 404 ("Parent comment " ++ c.parent.getD "None" ++ " not found")
        | _ => internal "creating comment"

/-- The answer to a change that was not made; `done` is what the change
would have done to the comment, and `doing` its activity. -/
def unchanged (done doing : String) : Fault → Response
  | .notFound _ => commentNotFound
  | .locked _ => .detail 403 ("This comment cannot be " ++ done ++ " (no password set)")
  | .wrongPassword _ => .detail 401 "Invalid password"
  | _ => internal (doing ++ " comment")

/-- Give a comment a new message. -/
def putComment (s : Service) (e : Edit) : Program Outcome :=
  withinLimit s.settings e.message <|
    answer (update e.hash e.password e.message)
      (fun _ => .json 200 (Notice.toJson ⟨"[" ++ e.hash ++ "] Comment updated successfully"⟩))
      (unchanged "edited" "updating")

/-- Take a comment away. -/
def deleteComment (r : Removal) : Program Outcome :=
  some <$> answer (delete r.hash r.password)
    (fun _ => .json 200 (Notice.toJson ⟨"Comment " ++ r.hash ++ " deleted."⟩))
    (unchanged "deleted" "deleting")

/-- The answer while there is no store. -/
def unavailable : Response := .detail 503 "Comment storage unavailable"

/-- The answer to a method that a resource does not have. -/
def methodNotAllowed : Response :=
  (Response.detail 405 "Method Not Allowed").withHeaders [("allow", "GET")]

/-- Go on with what was read, or give the answer that says it was not. -/
def orAnswer {α : Type} (input : Except Response α) (next : α → Program Outcome) :
    Program Outcome :=
  match input with
  | .ok a => next a
  | .error response => return some response

/-- A handler that needs the store. -/
def withStore (s : Service) (next : Program Outcome) : Program Outcome :=
  if s.hasStore then next else return some unavailable

/-- A handler that reads a body. -/
def withBody {α : Type} (s : Service) (r : Request) (read : FieldReader α)
    (next : α → Program Outcome) : Program Outcome :=
  match bodyValue r with
  | .ok body => withStore s (orAnswer (ofBody read body) next)
  | .error (.answered response) => return some response
  | .error .crash => if s.hasStore then return none else return some unavailable

/-- The answer of a resource. -/
def atResource (s : Service) (r : Request) : Resource → Program Outcome
  | .comments =>
    match r.method with
    | "GET" => withStore s (orAnswer (queryPost r.target) fun post => some <$> showThreads post)
    | "POST" => withBody s r NewComment.reader (postComment s)
    | "PUT" => withBody s r Edit.reader (putComment s)
    | "DELETE" => withBody s r Removal.reader deleteComment
    | _ => return some methodNotAllowed
  | .comment hash =>
    match r.method with
    | "GET" => withStore s (some <$> showComment hash)
    | _ => return some methodNotAllowed

/-- The answer at the route of a request. -/
def atRoute (s : Service) (r : Request) : Program Outcome :=
  match Route.ofPath (decodedPath r.target) with
  | .found resource => atResource s r resource
  | .elsewhere path => return some (redirect (location (hostHeader r) path r.target.query))
  | .nowhere => return some (.detail 404 "Not Found")

/-- The answer once the host is judged. -/
def atHost (s : Service) (r : Request) : Program Outcome :=
  match judgeHost s.settings r with
  | .served => atRoute s r
  | .servedAsWww =>
    return some (redirect (location ("www." ++ hostHeader r) (decodedPath r.target) r.target.query))
  | .refused => return some (.plain 400 "Invalid host header")

/-- An answer to a request that only asks for its head has no body. -/
def headOnly (r : Request) (a : Response) : Response :=
  if r.method = "HEAD" then { a with body := .text "" } else a

/-- The answer where the application failed without one. -/
def failure : Response := .plain 500 "Internal Server Error"

/-- An answer as it is sent. One that has no written form fails at the last
moment, when the request has been carried out. -/
def sent (s : Service) (r : Request) : Outcome → Response
  | some a =>
    if a.body.isSendable then headOnly r (a.withHeaders (originHeaders s.settings r)) else failure
  | none => failure

/-- The answer to a request. -/
def respond (s : Service) (r : Request) : Program Response := do
  if isPreflight r then return preflight s.settings r
  return sent s r (← atHost s r)

end CommentThreads.Server
