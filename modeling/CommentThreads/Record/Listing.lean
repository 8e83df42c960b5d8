/-
CommentThreads.Record.Listing — comments as readers see them.

A `Summary` is one comment in a list, a `Thread` a comment with its
answers, a `Listing` all threads of a post, and a `Detail` one comment by
itself. Each is written to and read from the wire.
-/
import CommentThreads.Record.Comment

namespace CommentThreads

open Time

/-- A comment in a list. -/
structure Summary where
  hash : RawText
  author : RawText
  date : DateTime
  message : RawText
deriving DecidableEq, Repr

/-- A comment and the answers to it. -/
structure Thread where
  root : Summary
  replies : List Summary
deriving DecidableEq, Repr

/-- A comment by itself. -/
structure Detail where
  summary : Summary
  post : RawText
  parent : Option RawText
  updated : Option DateTime
deriving DecidableEq, Repr

/-- What a list shows of a comment. -/
def Comment.summary (c : Comment) : Summary :=
  ⟨c.hash, c.author, c.created, c.message⟩

/-- What is shown of a comment by itself. -/
def Comment.detail (c : Comment) : Detail :=
  ⟨c.summary, c.post, c.parent, c.updated⟩

namespace Summary

/-- The entries of a comment in a list. -/
def entries (s : Summary) : List (RawText × Json) :=
  [("hash", .text s.hash), ("author", .text s.author), ("date", .text s.date.stamp),
    ("message", .text s.message)]

/-- A comment in a list, on the wire. -/
def toJson (s : Summary) : Json := .object s.entries

/-- A comment in a list, read back. -/
def reader : FieldReader Summary := fun v =>
  Summary.mk
    <$> FieldReader.required "hash" .text v
    <*> FieldReader.required "author" .text v
    <*> FieldReader.required "date" .date v
    <*> FieldReader.required "message" .text v

end Summary

namespace Thread

/-- A thread on the wire: the root's entries and the answers. -/
def toJson (t : Thread) : Json :=
  .object (t.root.entries ++ [(("replies" : RawText), .list (t.replies.map Summary.toJson))])

/-- A thread read back; one that names no answers has none. -/
def reader : FieldReader Thread := fun v =>
  Thread.mk
    <$> Summary.reader v
    <*> FieldReader.withDefault "replies" (.listOf (.record Summary.reader)) [] v

/-- The comments of some threads, each root before its answers. -/
def comments (threads : List Thread) : List Summary :=
  threads.flatMap fun t => t.root :: t.replies

end Thread

namespace Listing

/-- All threads of a post on the wire. -/
def toJson (threads : List Thread) : Json :=
  .object [("commits", .list (threads.map Thread.toJson))]

/-- All threads of a post, read back. -/
def reader : FieldReader (List Thread) :=
  FieldReader.required "commits" (.listOf (.record Thread.reader))

end Listing

namespace Detail

/-- A comment by itself, on the wire. -/
def toJson (d : Detail) : Json :=
  .object (d.summary.entries ++ [(("post_id" : RawText), .text d.post),
    ("parent_hash", .ofText? d.parent), ("updated_at", Comment.stampOrNull d.updated)])

/-- A comment by itself, read back. -/
def reader : FieldReader Detail := fun v =>
  Detail.mk
    <$> Summary.reader v
    <*> FieldReader.required "post_id" .text v
    <*> FieldReader.optional "parent_hash" .text v
    <*> FieldReader.optional "updated_at" .date v

end Detail

end CommentThreads
