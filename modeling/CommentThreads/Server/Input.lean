/-
CommentThreads.Server.Input — what a request brings: the body as a value,
and the fields of the query.

A body is JSON if the request says so; otherwise its text is taken as a
value, which no handler accepts. A body that is empty, or null, counts as
missing.
-/
import CommentThreads.Json.Bytes
import CommentThreads.Record.Change
import CommentThreads.Server.Complaints
import CommentThreads.Settings
import CommentThreads.Text.Blank
import CommentThreads.Text.Words

namespace CommentThreads.Server

open CommentThreads.Http CommentThreads.Text

/-- The type before any parameters, in small letters. -/
def mediaType (contentType : String) : String :=
  strip (Settings.lowered (String.ofList (contentType.toList.takeWhile (· ≠ ';'))))

/-- JSON is `application/json`, and every `application` type whose name
ends in `+json`. -/
def isJsonType (contentType : String) : Bool :=
  match pieces '/' (mediaType contentType) with
  | ["application", kind] => kind = "json" || "+json".toList.isSuffixOf kind.toList
  | _ => false

/-- The request says that its body is JSON. -/
def saysJson (r : Request) : Bool :=
  ((Headers.find? "content-type" r.headers).map isJsonType).getD false

/-- Why there is no value to look at: an answer that says so, or a body
that is no text at all, which the service fails on. -/
inductive BodyFault
  | answered (response : Response)
  | crash

/-- The value of a body. -/
def bodyValue (r : Request) : Except BodyFault Json :=
  if r.body.isEmpty then .ok .null
  else if saysJson r then
    match Json.ofBytes r.body with
    | .ok v => .ok v
    | .error (.notJson (.illFormed problem position)) =>
      .error (.answered (jsonInvalid problem position))
    | .error (.notJson .tooManyDigits) => .error (.answered bodyUnreadable)
    | .error .notText => .error (.answered bodyUnreadable)
  else match decode r.body with
    | some s => .ok (.text (String.ofList s))
    | none => .error .crash

/-- What a body asks for. -/
def ofBody {α : Type} (read : FieldReader α) (body : Json) : Except Response α :=
  let result : Validated α := match body with
    | .null => .fail .missing .null
    | v => FieldReader.record read v
  match result with
  | .valid a => .ok a
  | .invalid errors => .error (unprocessable (errors.map (entryOf "body")))

/-- The last of a query's fields with a name. -/
def queryField? (name : String) (t : Target) : Option String :=
  let fields := formFields (t.query.getD [])
  (fields.reverse.lookup name.toList).map String.ofList

/-- The post that a query names. -/
def queryPost (t : Target) : Except Response RawText :=
  let field : Validated RawText := match queryField? "post_id" t with
    | some s => (FieldReader.nonEmptyText (.text s)).under (.key "post_id")
    | none => .invalid [⟨.missing, [.key "post_id"], .null⟩]
  match field with
  | .valid post => .ok post
  | .invalid errors => .error (unprocessable (errors.map (entryOf "query")))

end CommentThreads.Server
