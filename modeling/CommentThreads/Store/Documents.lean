/-
CommentThreads.Store.Documents — a store over a collection of documents,
one document for each key.

The name of a document is its key, percent-encoded so that it holds no
slash. What cannot be encoded is no key: a text with a lone half is
refused. A value lies in one field of the document and a list in another.
Setting a value, and prepending, replace the whole document; removing from
a list keeps the other field, and makes the list an empty one where there
was none.
-/
import CommentThreads.Store.Call
import CommentThreads.Text.Percent

namespace CommentThreads.Store

open CommentThreads.Text

/-- A document: the field of its value and the field of its list. -/
structure Document where
  value : Option Json
  items : Option (List RawText)
deriving Repr

/-- The documents of a collection, each under its name. -/
structure Documents where
  collection : String
  documents : Entries String Document
deriving Repr

namespace Documents

/-- A collection without documents. -/
def empty (collection : String) : Documents := ⟨collection, []⟩

/-- The name of the document for a key; none for a text that is no key. -/
def name? (key : RawText) : Option String :=
  key.string?.map fun s => String.ofList (percentEncode isUnreserved s.toList)

/-- The document for a key. -/
def find? (d : Documents) (key : RawText) : Option Document :=
  (name? key).bind fun name => Entries.get? name d.documents

/-- Replace the document for a key. -/
def replace (d : Documents) (key : RawText) (document : Document) : Documents :=
  match name? key with
  | some name => { d with documents := Entries.put name document d.documents }
  | none => d

/-- Take the document for a key away. -/
def erase (d : Documents) (key : RawText) : Documents :=
  match name? key with
  | some name => { d with documents := Entries.erase name d.documents }
  | none => d

/-- The list at a key. -/
def listAt (d : Documents) (key : RawText) : List RawText :=
  ((d.find? key).bind Document.items).getD []

/-- The value at a key. -/
def valueAt? (d : Documents) (key : RawText) : Option Json :=
  ((d.find? key).bind Document.value).bind Json.nonNull?

/-- Perform a call. -/
def perform : (call : Call) → Documents → call.Answer × Documents
  | .get key, d => (d.valueAt? key, d)
  | .set key value, d => ((), d.replace key ⟨some value, none⟩)
  | .delete key, d => ((), d.erase key)
  | .prepend key item, d => ((), d.replace key ⟨none, some (item :: d.listAt key)⟩)
  | .items key, d => (d.listAt key, d)
  | .remove key item, d =>
    ((), d.replace key ⟨(d.find? key).bind Document.value,
      some ((d.listAt key).filter (· ≠ item))⟩)

instance : KeyValue Documents := ⟨fun key _ => (name? key).isSome, perform⟩

end Documents

end CommentThreads.Store
