/-
CommentThreads.Proofs.Terminal.Session — how a step of a terminal ends, told
from how its requests are answered.

* `Session.outcome` — the result of a step, and how the terminal and the one who
  answers stand after it, with one lemma for each way of building a step.
* `Upholds` — a step keeps an invariant however it ends, and fails only in ways
  that are allowed. The invariant may speak of the terminal and of the one who
  answers.
* `EndsAt` — what is known after an exchange, for each of its endings.
-/
import CommentThreads.Proofs.Client.Exchange
import CommentThreads.Terminal.Session

namespace CommentThreads.Terminal

open CommentThreads.Client CommentThreads.Text

variable {σ α β : Type}

/-- A terminal, and the one who answers its requests. -/
structure Scene (σ : Type) where
  terminal : State
  server : σ

namespace Scene

/-- The scene with one more text on the terminal. -/
def showing (text : RawText) (kind : LineKind) (s : Scene σ) : Scene σ :=
  { s with terminal := { s.terminal with
      output := s.terminal.output ++ (text.pieces '\n').map (Line.mk kind) } }

/-- The scene with the terminal at another prompt. -/
def atPrompt (prompt : Prompt) (s : Scene σ) : Scene σ :=
  { s with terminal := { s.terminal with prompt := prompt } }

/-- The scene with other things remembered. -/
def withFile (file : StateFile) (s : Scene σ) : Scene σ :=
  { s with terminal := { s.terminal with file := file } }

/-- The scene with the server as it is after an exchange. -/
def withServer (server : σ) (s : Scene σ) : Scene σ := { s with server := server }

end Scene

/-! ## Outcomes -/

section Outcome

variable {reply : Query → σ → Reply × σ}

/-- In a dialogue that keeps a state and may fail, a step after another one starts from
the state that was left; a fault leaves out what was still to be done. -/
theorem run_bind_stateful {τ ε : Type} (a : ExceptT ε (StateT τ Dialogue) α)
    (f : α → ExceptT ε (StateT τ Dialogue) β) (t : τ) (s : σ) :
    Dialogue.run reply ((a >>= f).run.run t) s =
      match Dialogue.run reply (a.run.run t) s with
      | ((.ok x, t'), s') => Dialogue.run reply ((f x).run.run t') s'
      | ((.error fault, t'), s') => ((.error fault, t'), s') := by
  simp only [ExceptT.run_bind, StateT.run_bind, Dialogue.run_bind]
  cases Dialogue.run reply (a.run.run t) s with
  | mk ended s' =>
    obtain ⟨r, t'⟩ := ended
    cases r <;> rfl

/-- A dialogue that keeps no state leaves the state as it is. -/
theorem run_lift_stateful {τ ε : Type} (p : Dialogue α) (t : τ) (s : σ) :
    Dialogue.run reply ((ExceptT.lift (StateT.lift p) :
        ExceptT ε (StateT τ Dialogue) α).run.run t) s =
      ((.ok (p.run reply s).1, t), (p.run reply s).2) := by
  simp only [ExceptT.run_lift, StateT.run_map, StateT.run_lift]
  simp only [map_eq_pure_bind, Dialogue.run_bind, Dialogue.run_pure]

/-- How a step of a terminal ends, and the scene after it. -/
def Session.outcome (reply : Query → σ → Reply × σ) (a : Session α) (s : Scene σ) :
    Except Fault α × Scene σ :=
  let ended := Dialogue.run reply (a.run.run s.terminal) s.server
  (ended.1.1, ⟨ended.1.2, ended.2⟩)

@[simp] theorem outcome_pure (x : α) (s : Scene σ) :
    Session.outcome reply (pure x) s = (.ok x, s) := rfl

@[simp] theorem outcome_throw (fault : Fault) (s : Scene σ) :
    Session.outcome reply (throw fault : Session α) s = (.error fault, s) := rfl

@[simp] theorem outcome_get (s : Scene σ) :
    Session.outcome reply get s = (.ok s.terminal, s) := rfl

/-- A step after another one starts where that one ended; a fault ends
everything that was still to be done. -/
theorem outcome_bind (a : Session α) (f : α → Session β) (s : Scene σ) :
    Session.outcome reply (a >>= f) s =
      match a.outcome reply s with
      | (.ok x, s') => (f x).outcome reply s'
      | (.error fault, s') => (.error fault, s') := by
  simp only [Session.outcome, run_bind_stateful]
  cases Dialogue.run reply (a.run.run s.terminal) s.server with
  | mk ended server =>
    obtain ⟨r, terminal⟩ := ended
    cases r <;> rfl

theorem outcome_bind_ok {a : Session α} {f : α → Session β} {s s' : Scene σ} {x : α}
    (h : a.outcome reply s = (.ok x, s')) :
    Session.outcome reply (a >>= f) s = (f x).outcome reply s' := by
  rw [outcome_bind, h]

@[simp] theorem outcome_print (text : RawText) (kind : LineKind) (s : Scene σ) :
    (print text kind).outcome reply s = (.ok (), s.showing text kind) := rfl

@[simp] theorem outcome_enter (prompt : Prompt) (s : Scene σ) :
    (enter prompt).outcome reply s = (.ok (), s.atPrompt prompt) := rfl

@[simp] theorem outcome_configured? (key : RawText) (s : Scene σ) :
    (configured? key).outcome reply s = (.ok (s.terminal.file.config.get? key), s) := rfl

@[simp] theorem outcome_remembered? (hash : RawText) (s : Scene σ) :
    (remembered? hash).outcome reply s =
      (.ok ((s.terminal.file.reflog.get? hash).filter Json.isGiven), s) := rfl

theorem outcome_remembering (update : StateFile.Update Unit) (s : Scene σ) :
    (remembering update).outcome reply s =
      ((update.run.run s.terminal.file).1.mapError .file,
        s.withFile (update.run.run s.terminal.file).2) := by
  have hget : Session.outcome reply get s = (.ok s.terminal, s) := rfl
  rw [remembering, outcome_bind_ok hget]
  cases update.run.run s.terminal.file with
  | mk result file =>
    have hset : Session.outcome reply (set { s.terminal with file := file }) s =
        (.ok (), s.withFile file) := rfl
    simp only
    rw [outcome_bind_ok hset]
    cases result <;> rfl

/-- An exchange goes on with what it gives; a refusal is handed on, and no
other fault is. -/
theorem outcome_exchange (e : Client.Exchange α) (good : α → Session Unit)
    (refused : Json → Option Nat → Session Unit) (s : Scene σ) :
    (exchange e good refused).outcome reply s =
      match e.outcome reply s.server with
      | (.ok a, server) => (good a).outcome reply (s.withServer server)
      | (.error (.refused detail status), server) =>
        (refused detail status).outcome reply (s.withServer server)
      | (.error fault, server) => (.error (.exchange fault), s.withServer server) := by
  have hlift : Session.outcome reply (ExceptT.lift (StateT.lift e.run)) s =
      (.ok (e.outcome reply s.server).1, s.withServer (e.outcome reply s.server).2) := by
    rw [Session.outcome, run_lift_stateful]
    rfl
  rw [exchange, outcome_bind_ok hlift]
  cases e.outcome reply s.server with
  | mk r server =>
    cases r with
    | ok a => rfl
    | error fault => cases fault <;> rfl

theorem outcome_exchange_ok {e : Client.Exchange α} {good : α → Session Unit}
    {refused : Json → Option Nat → Session Unit} {s : Scene σ} {a : α} {server : σ}
    (h : e.outcome reply s.server = (.ok a, server)) :
    (exchange e good refused).outcome reply s = (good a).outcome reply (s.withServer server) := by
  rw [outcome_exchange, h]

theorem outcome_exchange_refused {e : Client.Exchange α} {good : α → Session Unit}
    {refused : Json → Option Nat → Session Unit} {s : Scene σ} {detail : Json}
    {status : Option Nat} {server : σ}
    (h : e.outcome reply s.server = (.error (.refused detail status), server)) :
    (exchange e good refused).outcome reply s =
      (refused detail status).outcome reply (s.withServer server) := by
  rw [outcome_exchange, h]

theorem outcome_exchange_badAddress {e : Client.Exchange α} {good : α → Session Unit}
    {refused : Json → Option Nat → Session Unit} {s : Scene σ} {server : σ}
    (h : e.outcome reply s.server = (.error .badAddress, server)) :
    (exchange e good refused).outcome reply s =
      (.error (.exchange .badAddress), s.withServer server) := by
  rw [outcome_exchange, h]

end Outcome

/-! ## Keeping an invariant -/

section Upholding

variable {reply : Query → σ → Reply × σ} {Inv : Scene σ → Prop} {allowed : Fault → Prop}

/-- However a step ends at a scene, an invariant holds then, and a fault is one
of those that are allowed. -/
def UpheldAt (reply : Query → σ → Reply × σ) (Inv : Scene σ → Prop) (allowed : Fault → Prop)
    (a : Session α) (s : Scene σ) : Prop :=
  Inv (a.outcome reply s).2 ∧ ∀ fault, (a.outcome reply s).1 = .error fault → allowed fault

/-- A step upholds an invariant wherever it is taken. -/
def Upholds (reply : Query → σ → Reply × σ) (Inv : Scene σ → Prop) (allowed : Fault → Prop)
    (a : Session α) : Prop :=
  ∀ s, Inv s → UpheldAt reply Inv allowed a s

theorem upheldAt_of_ok {a : Session α} {s s' : Scene σ} {x : α}
    (h : a.outcome reply s = (.ok x, s')) (hinv : Inv s') : UpheldAt reply Inv allowed a s := by
  rw [UpheldAt, h]
  refine ⟨hinv, fun fault hfault => ?_⟩
  cases hfault

theorem upheldAt_of_error {a : Session α} {s s' : Scene σ} {fault : Fault}
    (h : a.outcome reply s = (.error fault, s')) (hinv : Inv s') (hallowed : allowed fault) :
    UpheldAt reply Inv allowed a s := by
  rw [UpheldAt, h]
  refine ⟨hinv, ?_⟩
  rintro _ ⟨⟩
  exact hallowed

/-- What is read off the scene may be used in the rest of a step. -/
theorem upheldAt_bind_ok {a : Session α} {f : α → Session β} {s s' : Scene σ} {x : α}
    (h : a.outcome reply s = (.ok x, s')) (hf : UpheldAt reply Inv allowed (f x) s') :
    UpheldAt reply Inv allowed (a >>= f) s := by
  rw [UpheldAt, outcome_bind_ok h]
  exact hf

theorem upheldAt_bind {a : Session α} {f : α → Session β} {s : Scene σ}
    (ha : UpheldAt reply Inv allowed a s) (hf : ∀ x, Upholds reply Inv allowed (f x)) :
    UpheldAt reply Inv allowed (a >>= f) s := by
  obtain ⟨hinv, hfault⟩ := ha
  cases hr : a.outcome reply s with
  | mk r s' =>
    rw [hr] at hinv hfault
    cases r with
    | ok x => exact upheldAt_bind_ok hr (hf x s' hinv)
    | error fault =>
      have hended : Session.outcome reply (a >>= f) s = (.error fault, s') := by
        rw [outcome_bind, hr]
      exact upheldAt_of_error hended hinv (hfault fault rfl)

theorem upholds_pure (x : α) : Upholds reply Inv allowed (pure x : Session α) := by
  intro s hs
  exact upheldAt_of_ok (outcome_pure x s) hs

theorem upholds_throw {fault : Fault} (h : allowed fault) :
    Upholds reply Inv allowed (throw fault : Session α) := by
  intro s hs
  exact upheldAt_of_error (outcome_throw fault s) hs h

theorem upholds_bind {a : Session α} {f : α → Session β} (ha : Upholds reply Inv allowed a)
    (hf : ∀ x, Upholds reply Inv allowed (f x)) : Upholds reply Inv allowed (a >>= f) := by
  intro s hs
  exact upheldAt_bind (ha s hs) hf

/-- A loop upholds what each of its rounds does. -/
theorem upholds_forIn {γ : Type} (items : List γ) {f : γ → β → Session (ForInStep β)}
    (hf : ∀ x ∈ items, ∀ b, Upholds reply Inv allowed (f x b)) (b : β) :
    Upholds reply Inv allowed (forIn items b f) := by
  induction items generalizing b with
  | nil =>
    rw [List.forIn_nil]
    exact upholds_pure b
  | cons x rest ih =>
    rw [List.forIn_cons]
    refine upholds_bind (hf x List.mem_cons_self b) fun step => ?_
    cases step with
    | done b => exact upholds_pure b
    | yield b => exact ih (fun y hy => hf y (List.mem_cons_of_mem x hy)) b

/-- The same for a loop that only does things. -/
theorem upholds_for {γ : Type} (items : List γ) {f : γ → PUnit → Session (ForInStep PUnit)}
    (hf : ∀ x ∈ items, ∀ u, Upholds reply Inv allowed (f x u)) :
    Upholds reply Inv allowed (do forIn items PUnit.unit f; pure ()) :=
  upholds_bind (upholds_forIn items hf _) fun _ => upholds_pure ()

/-- An invariant that lines of a kind do not touch. -/
def Spares (Inv : Scene σ → Prop) (kind : LineKind) : Prop :=
  ∀ s text, Inv s → Inv (s.showing text kind)

theorem upholds_print {kind : LineKind} (h : Spares Inv kind) (text : RawText) :
    Upholds reply Inv allowed (print text kind) := by
  intro s hs
  exact upheldAt_of_ok (outcome_print text kind s) (h s text hs)

end Upholding

/-! ## Exchanges -/

section Exchanges

variable {reply : Query → σ → Reply × σ} {Inv : Scene σ → Prop} {allowed : Fault → Prop}

/-- What is known after an exchange: `good` of what it gives, and `keep` of the
server after a refusal. Any other fault has to be allowed. -/
def EndsAt (reply : Query → σ → Reply × σ) (keep : σ → Prop) (allowed : Fault → Prop)
    (e : Client.Exchange α) (good : α → σ → Prop) (server : σ) : Prop :=
  match e.outcome reply server with
  | (.ok a, after) => good a after
  | (.error (.refused _ _), after) => keep after
  | (.error fault, after) => keep after ∧ allowed (.exchange fault)

theorem endsAt_of_ok {keep : σ → Prop} {e : Client.Exchange α} {good : α → σ → Prop}
    {server after : σ} {a : α} (h : e.outcome reply server = (.ok a, after))
    (hgood : good a after) : EndsAt reply keep allowed e good server := by
  rw [EndsAt, h]
  exact hgood

theorem endsAt_of_refused {keep : σ → Prop} {e : Client.Exchange α} {good : α → σ → Prop}
    {server after : σ} {detail : Json} {status : Option Nat}
    (h : e.outcome reply server = (.error (.refused detail status), after))
    (hkeep : keep after) : EndsAt reply keep allowed e good server := by
  rw [EndsAt, h]
  exact hkeep

theorem EndsAt.imp {keep : σ → Prop} {e : Client.Exchange α} {good good' : α → σ → Prop}
    {server : σ} (h : EndsAt reply keep allowed e good server)
    (himp : ∀ a after, good a after → good' a after) :
    EndsAt reply keep allowed e good' server := by
  rw [EndsAt] at h ⊢
  cases hended : e.outcome reply server with
  | mk r after =>
    rw [hended] at h
    cases r with
    | ok a => exact himp a after h
    | error fault => cases fault <;> exact h

/-- If any fault is allowed, it is enough to know the two ends. -/
theorem endsAt_of_any {keep : σ → Prop} {e : Client.Exchange α} {good : α → σ → Prop} {server : σ}
    (hgood : ∀ a after, e.outcome reply server = (.ok a, after) → good a after)
    (hkeep : ∀ fault after, e.outcome reply server = (.error fault, after) → keep after)
    (hallowed : ∀ fault, allowed fault) : EndsAt reply keep allowed e good server := by
  rw [EndsAt]
  cases hr : e.outcome reply server with
  | mk r after =>
    cases r with
    | ok a => exact hgood a after hr
    | error fault =>
      have hafter := hkeep fault after hr
      cases fault with
      | refused detail status => exact hafter
      | badAddress => exact ⟨hafter, hallowed _⟩
      | unwritable => exact ⟨hafter, hallowed _⟩
      | entryNotObject => exact ⟨hafter, hallowed _⟩
      | messageNotText => exact ⟨hafter, hallowed _⟩

theorem upheldAt_exchange {keep : σ → Prop} {e : Client.Exchange α} {good : α → σ → Prop}
    {next : α → Session Unit} {refused : Json → Option Nat → Session Unit} {s : Scene σ}
    (he : EndsAt reply keep allowed e good s.server)
    (hnext : ∀ a server, good a server → UpheldAt reply Inv allowed (next a) (s.withServer server))
    (hrefused : ∀ detail status, Upholds reply Inv allowed (refused detail status))
    (hkeep : ∀ server, keep server → Inv (s.withServer server)) :
    UpheldAt reply Inv allowed (exchange e next refused) s := by
  have hended : (exchange e next refused).outcome reply s = _ := outcome_exchange e next refused s
  rw [EndsAt] at he
  cases hr : e.outcome reply s.server with
  | mk r server =>
    rw [hr] at he hended
    cases r with
    | ok a =>
      rw [UpheldAt, hended]
      exact hnext a server he
    | error fault =>
      cases fault with
      | refused detail status =>
        rw [UpheldAt, hended]
        exact hrefused detail status _ (hkeep server he)
      | badAddress => exact upheldAt_of_error hended (hkeep server he.1) he.2
      | unwritable => exact upheldAt_of_error hended (hkeep server he.1) he.2
      | entryNotObject => exact upheldAt_of_error hended (hkeep server he.1) he.2
      | messageNotText => exact upheldAt_of_error hended (hkeep server he.1) he.2

end Exchanges

end CommentThreads.Terminal
