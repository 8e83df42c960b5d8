/-
CommentThreads.Store.Backend — the kinds of store that can be chosen by
name.
-/
import CommentThreads.Store.Documents
import CommentThreads.Store.Memory
import CommentThreads.Text.Quoted

namespace CommentThreads.Store

/-- A store of either kind. -/
inductive Backend
  | memory (store : Memory)
  | documents (store : Documents)
deriving Repr

namespace Backend

/-- The empty store of a kind, if the name is one. The collection matters
to documents only. -/
def ofName? (name collection : String) : Option Backend :=
  match name with
  | "memory" => some (.memory .empty)
  | "firestore" => some (.documents (.empty collection))
  | _ => none

/-- What is said of a name that is no kind of store. -/
def unknownMessage (name : String) : String :=
  "Unknown key-value backend: " ++ Text.quote name

/-- Perform a call. -/
def perform (call : Call) : Backend → call.Answer × Backend
  | .memory m => let (answer, m) := m.perform call; (answer, .memory m)
  | .documents d => let (answer, d) := d.perform call; (answer, .documents d)

/-- A store of either kind takes the keys that its kind takes. -/
def takes (key : RawText) : Backend → Bool
  | .memory m => KeyValue.takes key m
  | .documents d => KeyValue.takes key d

instance : KeyValue Backend := ⟨takes, perform⟩

end Backend

end CommentThreads.Store
