/-
CommentThreads.Store.Call — the calls that a key-value store answers.

A key holds a value (`get`, `set`) or a list of texts, newest first
(`prepend`, `items`, `remove`); `delete` takes away whatever it holds.
Each call is atomic for its own key. A store is any state that performs
calls; `Memory` and `Documents` are two. It may refuse keys: a call with
such a key does nothing and has no answer.
-/
import CommentThreads.Json.Basic

namespace CommentThreads.Store

/-- A call on a store. -/
inductive Call
  | get (key : RawText)
  | set (key : RawText) (value : Json)
  | delete (key : RawText)
  | prepend (key item : RawText)
  | items (key : RawText)
  | remove (key item : RawText)
deriving Repr

/-- What a call answers. A key that holds nothing, or null, has no value. -/
abbrev Call.Answer : Call → Type
  | .get _ => Option Json
  | .items _ => List RawText
  | .set _ _ => Unit
  | .delete _ => Unit
  | .prepend _ _ => Unit
  | .remove _ _ => Unit

/-- The key that a call is about. -/
def Call.key : Call → RawText
  | .get key | .set key _ | .delete key | .prepend key _ | .items key | .remove key _ => key

/-- A state that performs calls, on the keys that it takes. -/
class KeyValue (σ : Type) where
  takes : (key : RawText) → σ → Bool
  perform : (call : Call) → σ → call.Answer × σ

end CommentThreads.Store
