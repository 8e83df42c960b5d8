/-
CommentThreads.Client.Dialogue — computations that ask a server.

A dialogue is done, or sends a request and goes on with what comes back.
Who answers is not part of it: `Dialogue.run` takes any function from
requests to replies with a state of its own.
-/
import CommentThreads.Http.Message

namespace CommentThreads.Client

open CommentThreads.Http

/-- A request as a client makes it; its body is a value, if it has one. -/
structure Query where
  method : String
  target : Target
  json : Option Json
deriving Repr

/-- What comes back: an answer with a status and bytes, nothing because the
server cannot be reached, or nothing because its address is none. -/
inductive Reply
  | answered (status : Nat) (body : List UInt8)
  | unreachable
  | badAddress
deriving Repr

/-- A computation that sends requests. -/
inductive Dialogue (α : Type) : Type
  | done (value : α)
  | ask (query : Query) (next : Reply → Dialogue α)

namespace Dialogue

/-- One dialogue after another. -/
def bind {α β : Type} (d : Dialogue α) (f : α → Dialogue β) : Dialogue β :=
  match d with
  | .done a => f a
  | .ask query next => .ask query fun reply => (next reply).bind f

instance : Monad Dialogue where
  pure := .done
  bind := Dialogue.bind

/-- Send one request. -/
def send (query : Query) : Dialogue Reply := .ask query .done

/-- Hold a dialogue with one who answers. -/
def run {σ α : Type} (reply : Query → σ → Reply × σ) : Dialogue α → σ → α × σ
  | .done a, s => (a, s)
  | .ask query next, s =>
    let (r, s) := reply query s
    (next r).run reply s

variable {σ α β : Type}

@[simp] theorem bind_done_right (d : Dialogue α) : d.bind done = d := by
  induction d with
  | done a => rfl
  | ask query next ih => simp [bind, ih]

theorem bind_assoc {γ : Type} (d : Dialogue α) (f : α → Dialogue β) (g : β → Dialogue γ) :
    (d.bind f).bind g = d.bind fun a => (f a).bind g := by
  induction d with
  | done a => rfl
  | ask query next ih => simp [bind, ih]

instance : LawfulMonad Dialogue :=
  LawfulMonad.mk' Dialogue bind_done_right (fun _ _ => rfl) bind_assoc

@[simp] theorem run_pure (reply : Query → σ → Reply × σ) (a : α) (s : σ) :
    (pure a : Dialogue α).run reply s = (a, s) := rfl

/-- A dialogue after another goes on where the other one ended. -/
@[simp] theorem run_bind (reply : Query → σ → Reply × σ) (d : Dialogue α)
    (f : α → Dialogue β) (s : σ) :
    (d >>= f).run reply s = (f (d.run reply s).1).run reply (d.run reply s).2 := by
  change (d.bind f).run reply s = _
  induction d generalizing s with
  | done a => rfl
  | ask query next ih => simp [bind, run, ih]

end Dialogue

/-- The request on the wire. -/
def Query.toRequest (q : Query) (host : String) : Request where
  method := q.method
  target := q.target
  headers := (q.json.map fun _ => ("content-type", "application/json")).toList ++ [("host", host)]
  body := (q.json.map fun v => (Body.json v).bytes).getD []

/-- The answer as it comes from the wire. -/
def Reply.ofResponse (r : Response) : Reply :=
  .answered r.status r.body.bytes

end CommentThreads.Client
