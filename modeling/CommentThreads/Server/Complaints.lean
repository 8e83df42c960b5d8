/-
CommentThreads.Server.Complaints — how the service words what is wrong
with a request.

Each error of a field becomes an entry with the kind of the complaint,
where the field is, a sentence, and what was found there.
-/
import CommentThreads.Http.Message
import CommentThreads.Json.Reader
import CommentThreads.Validation

namespace CommentThreads.Server

open CommentThreads.Http

/-- The name of a complaint. -/
def complaintName : Complaint → String
  | .missing => "missing"
  | .notText => "string_type"
  | .torn => "string_unicode"
  | .tooShort _ => "string_too_short"
  | .blankMessage => "value_error"
  | .notList => "list_type"
  | .notObject => "model_attributes_type"
  | .notInteger => "int_parsing"
  | .date .otherKind => "datetime_type"
  | .date .unreadable => "datetime_parsing"
  | .date .torn => "string_unicode"

/-- The sentence of a complaint about a text with a lone half. -/
def notUnicode : String :=
  "Input should be a valid string, unable to parse raw data as a unicode string"

/-- The sentence of a complaint. -/
def complaintText : Complaint → String
  | .missing => "Field required"
  | .notText => "Input should be a valid string"
  | .torn => notUnicode
  | .tooShort least =>
    "String should have at least " ++ toString least ++
      (if least = 1 then " character" else " characters")
  | .blankMessage => "Value error, Message cannot be empty"
  | .notList => "Input should be a valid list"
  | .notObject => "Input should be a valid dictionary or object to extract fields from"
  | .notInteger => "Input should be a valid integer, unable to parse string as an integer"
  | .date .otherKind => "Input should be a valid datetime"
  | .date .unreadable => "Input should be a valid datetime"
  | .date .torn => notUnicode

/-- What a complaint adds to its sentence. -/
def complaintContext : Complaint → List (RawText × Json)
  | .tooShort least => [("ctx", .object [("min_length", .int least)])]
  | .blankMessage => [("ctx", .object [("error", .object [])])]
  | _ => []

/-- A step as part of a place. -/
def stepJson : Step → Json
  | .key name => .text name
  | .index place => .int place

/-- The entry of an error; `source` is the part of the request it is in. -/
def entryOf (source : String) (e : FieldError) : Json :=
  .object ([(("type" : RawText), .text (complaintName e.complaint)),
    ("loc", .list (.text source :: e.path.map stepJson)),
    ("msg", .text (complaintText e.complaint)), ("input", e.found)] ++
    complaintContext e.complaint)

/-- The answer to a request with errors in it. -/
def unprocessable (entries : List Json) : Response :=
  .json 422 (.object [("detail", .list entries)])

/-- The answer to a body that is no JSON from some position on. -/
def jsonInvalid (problem : Json.Problem) (position : Nat) : Response :=
  unprocessable [.object [("type", .text "json_invalid"),
    ("loc", .list [.text "body", .int position]), ("msg", .text "JSON decode error"),
    ("input", .object []), ("ctx", .object [("error", .text problem.message)])]]

/-- The answer to a body that cannot even be looked at as JSON. -/
def bodyUnreadable : Response :=
  .detail 400 "There was an error parsing the body"

end CommentThreads.Server
