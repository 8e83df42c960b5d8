/-
CommentThreads.Record.Comment — a comment as it is stored.

`Comment.toJson` is the record that is kept; `Comment.reader` reads one.
A record may lack its hash, its author or the time of its creation: the
reader is given what stands in for the hash and the time, and a comment
without an author is a guest's.
-/
import CommentThreads.Validation

namespace CommentThreads

open Time

/-- A comment on a post. `parent` is the hash of the comment it answers;
`updated` is the time of its last edit. -/
structure Comment where
  hash : RawText
  post : RawText
  author : RawText
  message : RawText
  parent : Option RawText
  created : DateTime
  updated : Option DateTime
deriving DecidableEq, Repr

namespace Comment

/-- The author of a record that names none. -/
def guest : String := "Guest"

/-- How many characters a hash has. -/
def hashLength : Nat := 8

/-- A comment that answers no other. An empty parent is none. -/
def isRoot (c : Comment) : Bool := c.parent.getD "" = ""

/-- A written date and time; null when there is none. -/
def stampOrNull : Option DateTime → Json
  | some d => .text d.stamp
  | none => .null

/-- The record of a comment. -/
def toJson (c : Comment) : Json :=
  .object [("commit_hash", .text c.hash), ("post_id", .text c.post), ("author", .text c.author),
    ("message", .text c.message), ("parent_hash", .ofText? c.parent),
    ("created_at", .text c.created.stamp), ("updated_at", stampOrNull c.updated)]

/-- The comment of a record, with a hash and a time of creation for a
record that has none. -/
def reader (hash : RawText) (created : DateTime) : FieldReader Comment := fun v =>
  Comment.mk
    <$> FieldReader.withDefault "commit_hash" .text hash v
    <*> FieldReader.required "post_id" .text v
    <*> FieldReader.withDefault "author" .text guest v
    <*> FieldReader.required "message" .text v
    <*> FieldReader.optional "parent_hash" .text v
    <*> FieldReader.withDefault "created_at" .date created v
    <*> FieldReader.optional "updated_at" .date v

end Comment

end CommentThreads
