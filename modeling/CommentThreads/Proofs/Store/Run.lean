/-
CommentThreads.Proofs.Store.Run — operations on comments, one after the
other.

An `Operation` is a call with its arguments. A run performs a list of them
and writes down an `Event` for each: the operation, what was still to be
drawn when it began, and how it ended. The same run can be made on a store
and on the ledger that the store keeps.

* `run_induction` — what every operation of a run preserves holds at its
  end, together with all that was written down.
* `run_refines` — on a store and on its ledger the same is written down,
  and the store keeps the ledger that results.
* `ledger_of_run` — both at once, for a store that was empty.
-/
import CommentThreads.Proofs.Store.Refinement

namespace CommentThreads.Store

open Ledger

/-- An operation with its arguments. A new comment comes with the salt that
is drawn for its password. -/
inductive Operation
  | create (salt : String) (post message : RawText) (author password parent : Option RawText)
  | update (hash password message : RawText)
  | delete (hash password : RawText)
  | find (hash : RawText)
  | list (post : RawText)
  | threads (post : RawText)

namespace Operation

/-- What an operation gives when it goes well. -/
abbrev Answer : Operation → Type
  | .create .. => Comment
  | .update .. => Comment
  | .delete .. => Comment
  | .find _ => Option Comment
  | .list _ => List Comment
  | .threads _ => List Thread

/-- The operation on a store. -/
def action (defaultAuthor : String) : (op : Operation) → Action op.Answer
  | .create salt post message author password parent =>
    Store.create ⟨defaultAuthor, salt⟩ post message author password parent
  | .update hash password message => Store.update hash password message
  | .delete hash password => Store.delete hash password
  | .find hash => Store.find hash
  | .list post => Store.list post
  | .threads post => Store.threads post

/-- The operation on a ledger. -/
def onLedger (defaultAuthor : String) :
    (op : Operation) → Site Ledger → Except Fault op.Answer × Site Ledger
  | .create salt post message author password parent, t =>
    Ledger.create ⟨defaultAuthor, salt⟩ post message author password parent t
  | .update hash password message, t => Ledger.update hash password message t
  | .delete hash password, t => Ledger.delete hash password t
  | .find hash, t => (.ok (withHash? hash t.store.comments), t)
  | .list post, t => (.ok (ofPost post t.store.comments), t)
  | .threads post, t => (.ok (threadsOf (ofPost post t.store.comments)), t)

/-- A new comment comes with a salt that passwords can be hashed under. -/
def SaltAccepted : Operation → Prop
  | .create salt .. => (Password.Salt.ofText? salt).isSome = true
  | _ => True

instance : DecidablePred SaltAccepted
  | .create salt .. => inferInstanceAs (Decidable ((Password.Salt.ofText? salt).isSome = true))
  | .update .. | .delete .. | .find _ | .list _ | .threads _ => inferInstanceAs (Decidable True)

/-- The password of a new comment, if it comes with one, can be encoded. -/
def PasswordEncodable : Operation → Prop
  | .create _ _ _ _ password _ => ∀ text ∈ password, text.isPlain = true
  | _ => True

end Operation

/-- An operation that was performed: what was still to be drawn when it
began, and how it ended. -/
structure Event where
  operation : Operation
  supply : Supply
  outcome : Except Fault operation.Answer

/-- Perform operations one after the other. Each one's faults are its own:
the next operation is performed whatever the outcome was. -/
def runWith {σ : Type} (perform : (op : Operation) → Site σ → Except Fault op.Answer × Site σ) :
    List Operation → Site σ → List Event × Site σ
  | [], s => ([], s)
  | op :: ops, s =>
    let (outcome, s') := perform op s
    let (later, s'') := runWith perform ops s'
    (⟨op, s.supply, outcome⟩ :: later, s'')

/-- Operations on a store. -/
def run {σ : Type} [KeyValue σ] (defaultAuthor : String) :
    List Operation → Site σ → List Event × Site σ :=
  runWith fun op => (op.action defaultAuthor).outcome

/-- Operations on a ledger. -/
def Ledger.run (defaultAuthor : String) : List Operation → Site Ledger → List Event × Site Ledger :=
  runWith (Operation.onLedger defaultAuthor)

/-- What each operation of a run preserves holds at the end of the run. The
log before an operation is the invariant's, so it may speak of all that
happened. -/
theorem run_induction {σ : Type}
    {perform : (op : Operation) → Site σ → Except Fault op.Answer × Site σ}
    (Inv : List Event → Site σ → Prop) (ops : List Operation)
    (hstep : ∀ op ∈ ops, ∀ log s, Inv log s →
      Inv (log ++ [⟨op, s.supply, (perform op s).1⟩]) (perform op s).2)
    {log : List Event} {s : Site σ} (h : Inv log s) :
    Inv (log ++ (runWith perform ops s).1) (runWith perform ops s).2 := by
  induction ops generalizing log s with
  | nil => simpa [runWith] using h
  | cons op ops ih =>
    have hnext := ih (fun op' hop' => hstep op' (List.mem_cons_of_mem _ hop'))
      (hstep op List.mem_cons_self log s h)
    simpa [runWith] using hnext

/-- Operations after others begin where those ended. -/
theorem runWith_append {σ : Type}
    (perform : (op : Operation) → Site σ → Except Fault op.Answer × Site σ)
    (ops later : List Operation) (s : Site σ) :
    runWith perform (ops ++ later) s =
      ((runWith perform ops s).1 ++ (runWith perform later (runWith perform ops s).2).1,
        (runWith perform later (runWith perform ops s).2).2) := by
  induction ops generalizing s with
  | nil => rfl
  | cons op ops ih => simp [runWith, ih]

theorem run_append {σ : Type} [KeyValue σ] (defaultAuthor : String) (ops later : List Operation)
    (s : Site σ) :
    run defaultAuthor (ops ++ later) s =
      ((run defaultAuthor ops s).1 ++ (run defaultAuthor later (run defaultAuthor ops s).2).1,
        (run defaultAuthor later (run defaultAuthor ops s).2).2) :=
  runWith_append _ ops later s

/-- A log names the operations that were performed, in their order. -/
theorem operations_runWith {σ : Type}
    (perform : (op : Operation) → Site σ → Except Fault op.Answer × Site σ)
    (ops : List Operation) (s : Site σ) :
    (runWith perform ops s).1.map Event.operation = ops := by
  induction ops generalizing s with
  | nil => rfl
  | cons op ops ih => simp [runWith, ih]

section Refinement

variable {σ : Type} [KeyValue σ] [Viewed σ] [TakesAll σ]

theorem operation_refines (defaultAuthor : String) (op : Operation) :
    Refines σ (op.action defaultAuthor) (op.onLedger defaultAuthor) := by
  cases op with
  | create salt post message author password parent =>
    exact create_refines ⟨defaultAuthor, salt⟩ post message author password parent
  | update hash password message => exact update_refines hash password message
  | delete hash password => exact delete_refines hash password
  | find hash =>
    rintro s t ⟨h, hsupply⟩
    rw [Operation.action, outcome_find h]
    exact ⟨rfl, h, hsupply⟩
  | list post =>
    rintro s t ⟨h, hsupply⟩
    rw [Operation.action, outcome_list h]
    exact ⟨rfl, h, hsupply⟩
  | threads post =>
    rintro s t ⟨h, hsupply⟩
    rw [Operation.action, outcome_threads h]
    exact ⟨rfl, h, hsupply⟩

/-- A run on a store is the run on the ledger that it keeps. -/
theorem run_refines (defaultAuthor : String) (ops : List Operation) {s : Site σ} {t : Site Ledger}
    (h : KeepsAt s t) :
    (run defaultAuthor ops s).1 = (Ledger.run defaultAuthor ops t).1 ∧
      KeepsAt (run defaultAuthor ops s).2 (Ledger.run defaultAuthor ops t).2 := by
  induction ops generalizing s t with
  | nil => exact ⟨rfl, h⟩
  | cons op ops ih =>
    obtain ⟨houtcome, hkept⟩ := operation_refines defaultAuthor op s t h
    obtain ⟨hlater, hkept'⟩ := ih hkept
    refine ⟨?_, hkept'⟩
    simp only [run, Ledger.run, runWith] at hlater ⊢
    rw [houtcome, h.supply, hlater]

/-- After a run from an empty store there is a ledger that the store keeps,
with the same draws ahead, and what every operation on a ledger preserves holds
of it and of the log. -/
theorem ledgerAt_of_run {defaultAuthor : String} {supply : Supply} {ops : List Operation}
    {log : List Event} {site : Site Memory}
    (hrun : run defaultAuthor ops ⟨Memory.empty, supply⟩ = (log, site))
    (Inv : List Event → Site Ledger → Prop)
    (hstep : ∀ op ∈ ops, ∀ log t, Inv log t →
      Inv (log ++ [⟨op, t.supply, (op.onLedger defaultAuthor t).1⟩])
        (op.onLedger defaultAuthor t).2)
    (hnil : Inv [] ⟨[], supply⟩) : ∃ t, KeepsAt site t ∧ Inv log t := by
  have hempty : KeepsAt (σ := Memory) ⟨Memory.empty, supply⟩ ⟨[], supply⟩ :=
    ⟨keeps_nil (fun _ => rfl) (fun _ => rfl), rfl⟩
  obtain ⟨hlog, hkept⟩ := run_refines defaultAuthor ops hempty
  have hinv := run_induction Inv ops hstep hnil
  rw [hrun] at hlog hkept
  rw [List.nil_append, ← Ledger.run, ← hlog] at hinv
  exact ⟨_, hkept, hinv⟩

/-- The same for what does not speak of the draws. -/
theorem ledger_of_run {defaultAuthor : String} {supply : Supply} {ops : List Operation}
    {log : List Event} {site : Site Memory}
    (hrun : run defaultAuthor ops ⟨Memory.empty, supply⟩ = (log, site))
    (Inv : List Event → Ledger → Prop)
    (hstep : ∀ op ∈ ops, ∀ log (t : Site Ledger), Inv log t.store →
      Inv (log ++ [⟨op, t.supply, (op.onLedger defaultAuthor t).1⟩])
        (op.onLedger defaultAuthor t).2.store)
    (hnil : Inv [] []) : ∃ l, Keeps site.store l ∧ Inv log l := by
  obtain ⟨t, hkept, hinv⟩ :=
    ledgerAt_of_run hrun (fun log t => Inv log t.store) hstep hnil
  exact ⟨t.store, hkept.store, hinv⟩

end Refinement

end CommentThreads.Store
