/-
CommentThreads.Record.Change — what is asked of the service to change its
comments, and what it answers.

`NewComment`, `Edit` and `Removal` are the bodies of requests, and their
readers say which bodies are good. `Receipt` answers a new comment, and
`Notice` an edit or a removal.
-/
import CommentThreads.Validation

namespace CommentThreads

/-- A comment to be stored. -/
structure NewComment where
  post : RawText
  author : Option RawText
  password : Option RawText
  message : RawText
  parent : Option RawText
deriving DecidableEq, Repr

/-- A new message for a stored comment. -/
structure Edit where
  hash : RawText
  password : RawText
  message : RawText
deriving DecidableEq, Repr

/-- A stored comment to be taken away. -/
structure Removal where
  hash : RawText
  password : RawText
deriving DecidableEq, Repr

/-- The answer to a new comment. -/
structure Receipt where
  hash : RawText
  author : RawText
  message : RawText
deriving DecidableEq, Repr

/-- The answer to an edit or a removal. -/
structure Notice where
  message : RawText
deriving DecidableEq, Repr

namespace FieldReader

/-- A text of at least one character. To count them it must have no lone
halves. -/
def nonEmptyText : FieldReader RawText
  | .text s =>
    if !s.isPlain then .fail .torn (.text s)
    else if s = "" then .fail (.tooShort 1) (.text s)
    else .valid s
  | v => .fail .notText v

/-- A message, which has to hold more than white space. -/
def message : FieldReader RawText
  | .text s => if s.isBlank then .fail .blankMessage (.text s) else .valid s
  | v => .fail .notText v

end FieldReader

namespace NewComment

/-- The body that asks to store a comment. Author and password may be
values that no reader accepts; that is for the reader to say. -/
def body (post : RawText) (author password : Json) (message : RawText) (parent : Option RawText) :
    Json :=
  .object [("post_id", .text post), ("author", author), ("password", password),
    ("message", .text message), ("parent_hash", .ofText? parent)]

/-- The body for a comment. -/
def toJson (c : NewComment) : Json :=
  body c.post (.ofText? c.author) (.ofText? c.password) c.message c.parent

/-- The comment that a body asks to store. -/
def reader : FieldReader NewComment := fun v =>
  NewComment.mk
    <$> FieldReader.required "post_id" .nonEmptyText v
    <*> FieldReader.optional "author" .text v
    <*> FieldReader.optional "password" .text v
    <*> FieldReader.required "message" .message v
    <*> FieldReader.optional "parent_hash" .text v

end NewComment

namespace Edit

/-- The body that asks for an edit. Hash and password may be values that no
reader accepts. -/
def body (hash password : Json) (message : RawText) : Json :=
  .object [("commit_hash", hash), ("password", password), ("message", .text message)]

/-- The body for an edit. -/
def toJson (e : Edit) : Json := body (.text e.hash) (.text e.password) e.message

/-- The edit that a body asks for. -/
def reader : FieldReader Edit := fun v =>
  Edit.mk
    <$> FieldReader.required "commit_hash" .text v
    <*> FieldReader.required "password" .text v
    <*> FieldReader.required "message" .message v

end Edit

namespace Removal

/-- The body that asks for a removal. Hash and password may be values that no
reader accepts. -/
def body (hash password : Json) : Json :=
  .object [("commit_hash", hash), ("password", password)]

/-- The body for a removal. -/
def toJson (r : Removal) : Json := body (.text r.hash) (.text r.password)

/-- The removal that a body asks for. -/
def reader : FieldReader Removal := fun v =>
  Removal.mk
    <$> FieldReader.required "commit_hash" .text v
    <*> FieldReader.required "password" .text v

end Removal

namespace Receipt

/-- The answer on the wire. -/
def toJson (r : Receipt) : Json :=
  .object [("commit_hash", .text r.hash), ("author", .text r.author), ("message", .text r.message)]

/-- The answer read back. -/
def reader : FieldReader Receipt := fun v =>
  Receipt.mk
    <$> FieldReader.required "commit_hash" .text v
    <*> FieldReader.required "author" .text v
    <*> FieldReader.required "message" .text v

end Receipt

namespace Notice

/-- The answer on the wire. -/
def toJson (n : Notice) : Json :=
  .object [("message", .text n.message)]

/-- The answer read back. -/
def reader : FieldReader Notice := fun v =>
  Notice.mk <$> FieldReader.required "message" .text v

end Notice

end CommentThreads
