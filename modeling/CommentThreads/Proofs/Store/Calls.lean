/-
CommentThreads.Proofs.Store.Calls — the calls that an action makes.

* `Action.calls` — the calls of an action that are answered at a site, in their
  order. What the action leaves of the store is what its calls leave
  (`store_outcome`), so a statement about every prefix of them is one about an
  action that was cut short.
* `Throughout` — a property of a store that it has after each of some calls.
* `Makes` — an action makes only calls of some kind, wherever it runs.
* `create_calls`, `update_calls`, `delete_calls` — the three changes read first
  and write last. What they write is listed here once, call by call; it is all
  for one hash (`writesFor_of_created`, `writesFor_of_removed`). A new comment with a
  key that is refused stops there: it has written a first part of its list.

As in `Frame`, nothing is said of what the store holds: the records may be
broken.
-/
import CommentThreads.Proofs.Store.Permanence
import CommentThreads.Proofs.Store.Views

namespace CommentThreads.Store

open Ledger Time

/-! ## What calls leave of a store -/

section Calls

variable {σ : Type} [KeyValue σ]

/-- A store after some calls. -/
def storeAfter (calls : List Call) (s : σ) : σ :=
  calls.foldl (fun s c => (KeyValue.perform c s).2) s

@[simp] theorem storeAfter_nil (s : σ) : storeAfter [] s = s := rfl

@[simp] theorem storeAfter_cons (c : Call) (rest : List Call) (s : σ) :
    storeAfter (c :: rest) s = storeAfter rest (KeyValue.perform c s).2 := rfl

theorem storeAfter_append (calls later : List Call) (s : σ) :
    storeAfter (calls ++ later) s = storeAfter later (storeAfter calls s) := by
  induction calls generalizing s with
  | nil => rfl
  | cons c rest ih => exact ih _

/-- What every call preserves is so after all of them. -/
theorem storeAfter_induction (Inv : σ → Prop) {calls : List Call}
    (hstep : ∀ c ∈ calls, ∀ s, Inv s → Inv (KeyValue.perform c s).2) {s : σ} (h : Inv s) :
    Inv (storeAfter calls s) := by
  induction calls generalizing s with
  | nil => exact h
  | cons c rest ih =>
    exact ih (fun d hd => hstep d (List.mem_cons_of_mem c hd)) (hstep c List.mem_cons_self s h)

/-- A call that leaves the store as it is. -/
def Call.IsRead : Call → Prop
  | .get _ | .items _ => True
  | _ => False

theorem perform_read [Viewed σ] {c : Call} (hc : c.IsRead) (s : σ) :
    (KeyValue.perform c s).2 = s := by
  cases c with
  | get key => rw [Viewed.perform_get]
  | items key => rw [Viewed.perform_items]
  | set | delete | prepend | remove => exact absurd hc id

theorem storeAfter_reads [Viewed σ] {calls : List Call} (h : ∀ c ∈ calls, c.IsRead) (s : σ) :
    storeAfter calls s = s :=
  storeAfter_induction (· = s) (fun c hc s' hs => by rw [perform_read (h c hc), hs]) rfl

/-! ## After each of some calls -/

/-- A store has a property before some calls, after each of them, and so at the
end. -/
def Throughout (Inv : σ → Prop) (calls : List Call) (s : σ) : Prop :=
  ∀ n, Inv (storeAfter (calls.take n) s)

section Throughout

variable {Inv : σ → Prop} {s : σ}

theorem throughout_nil (h : Inv s) : Throughout Inv [] s := by
  intro n
  rw [List.take_nil]
  exact h

theorem throughout_cons {c : Call} {rest : List Call} (h : Inv s)
    (hrest : Throughout Inv rest (KeyValue.perform c s).2) : Throughout Inv (c :: rest) s := by
  intro n
  cases n with
  | zero => exact h
  | succ n => exact hrest n

/-- What is so throughout some calls is so throughout the first of them. -/
theorem Throughout.of_isPrefix {calls writes : List Call} (h : Throughout Inv calls s)
    (hwrites : writes <+: calls) : Throughout Inv writes s := by
  intro n
  rw [List.prefix_iff_eq_take.mp hwrites, List.take_take]
  exact h _

theorem Throughout.start {calls : List Call} (h : Throughout Inv calls s) : Inv s := h 0

theorem Throughout.finish {calls : List Call} (h : Throughout Inv calls s) :
    Inv (storeAfter calls s) := by
  have hall := h calls.length
  rw [List.take_length] at hall
  exact hall

/-- What is only read before some calls adds nothing. -/
theorem throughout_reads_append [Viewed σ] {reads writes : List Call}
    (hreads : ∀ c ∈ reads, c.IsRead) (h : Throughout Inv writes s) :
    Throughout Inv (reads ++ writes) s := by
  induction reads with
  | nil => exact h
  | cons c rest ih =>
    refine throughout_cons h.start ?_
    rw [perform_read (hreads c List.mem_cons_self)]
    exact ih fun d hd => hreads d (List.mem_cons_of_mem c hd)

theorem throughout_reads [Viewed σ] {reads : List Call} (hreads : ∀ c ∈ reads, c.IsRead)
    (h : Inv s) : Throughout Inv reads s := by
  rw [← List.append_nil reads]
  exact throughout_reads_append hreads (throughout_nil h)

end Throughout

/-! ## The calls of a program -/

/-- The calls of a program that are answered at a site. -/
def Program.calls {α : Type} : Program α → Site σ → List Call
  | .done _, _ => []
  | .call c next, s =>
    if KeyValue.takes c.key s.store then c :: (next (some (s.perform c).1)).calls (s.perform c).2
    else (next none).calls s
  | .draw next, s => (next s.supply.nextDigits.1).calls { s with supply := s.supply.nextDigits.2 }
  | .readClock next, s =>
    (next s.supply.nextTime.1).calls { s with supply := s.supply.nextTime.2 }

theorem store_run {α : Type} (p : Program α) (s : Site σ) :
    (p.run s).2.store = storeAfter (p.calls s) s.store := by
  induction p generalizing s with
  | done a => rfl
  | call c next ih =>
    simp only [Program.run, Program.calls, Site.request]
    split
    · exact ih _ _
    · exact ih _ _
  | draw next ih => exact ih _ _
  | readClock next ih => exact ih _ _

theorem programCalls_bind {α β : Type} (p : Program α) (f : α → Program β) (s : Site σ) :
    (p >>= f).calls s = p.calls s ++ (f (p.run s).1).calls (p.run s).2 := by
  change (p.bind f).calls s = _
  induction p generalizing s with
  | done a => rfl
  | call c next ih =>
    simp only [Program.bind, Program.calls, Program.run, Site.request]
    split
    · exact congrArg (c :: ·) (ih _ _)
    · exact ih _ _
  | draw next ih => exact ih _ _
  | readClock next ih => exact ih _ _

/-- What is answered once is always answered. -/
theorem taken_of_mem_calls [Viewed σ] {α : Type} {p : Program α} {s : Site σ} {c : Call}
    (h : c ∈ p.calls s) (t : σ) : KeyValue.takes c.key t = true := by
  induction p generalizing s with
  | done a => cases h
  | call d next ih =>
    rw [Program.calls] at h
    split at h
    · next htaken =>
      rcases List.mem_cons.mp h with rfl | h
      · rw [Viewed.takes_same c.key t s.store, htaken]
      · exact ih _ h
    · exact ih _ h
  | draw next ih => exact ih _ h
  | readClock next ih => exact ih _ h

/-! ## The calls of an action -/

variable {α β : Type}

/-- The calls of an action that are answered at a site. -/
def Action.calls (a : Action α) (s : Site σ) : List Call := Program.calls (ExceptT.run a) s

theorem store_outcome (a : Action α) (s : Site σ) :
    (a.outcome s).2.store = storeAfter (a.calls s) s.store :=
  store_run (ExceptT.run a) s

@[simp] theorem calls_pure (x : α) (s : Site σ) : Action.calls (pure x) s = [] := rfl

@[simp] theorem calls_throw (fault : Fault) (s : Site σ) :
    Action.calls (throw fault : Action α) s = [] := rfl

theorem calls_ask_eq (c : Call) (s : Site σ) :
    (ask c).calls s = if KeyValue.takes c.key s.store then [c] else [] := by
  change (if KeyValue.takes c.key s.store then c :: _ else _) = _
  split <;> rfl

theorem calls_ask_taken {c : Call} {s : Site σ} (h : KeyValue.takes c.key s.store = true) :
    (ask c).calls s = [c] := by
  rw [calls_ask_eq, if_pos h]

theorem calls_ask_refused {c : Call} {s : Site σ} (h : KeyValue.takes c.key s.store = false) :
    (ask c).calls s = [] := by
  rw [calls_ask_eq, h]
  rfl

/-- An action after another one adds its calls. -/
theorem calls_bind_ok {a : Action α} {f : α → Action β} {s s' : Site σ} {x : α}
    (h : a.outcome s = (.ok x, s')) :
    Action.calls (a >>= f) s = a.calls s ++ (f x).calls s' := by
  have hrun : Program.run (ExceptT.run a) s = (.ok x, s') := h
  simp only [Action.calls, ExceptT.run_bind, programCalls_bind, hrun]

/-- After a fault no more calls are made. -/
theorem calls_bind_error {a : Action α} {f : α → Action β} {s s' : Site σ} {fault : Fault}
    (h : a.outcome s = (.error fault, s')) : Action.calls (a >>= f) s = a.calls s := by
  have hrun : Program.run (ExceptT.run a) s = (.error fault, s') := h
  simp only [Action.calls, ExceptT.run_bind, programCalls_bind, hrun]
  exact List.append_nil _

/-- A call of an action after another one is made by the one or the other. -/
theorem mem_calls_bind {a : Action α} {f : α → Action β} {s : Site σ} {c : Call}
    (h : c ∈ Action.calls (a >>= f) s) :
    c ∈ a.calls s ∨ ∃ x s', a.outcome s = (.ok x, s') ∧ c ∈ (f x).calls s' := by
  cases hr : a.outcome s with
  | mk r s' =>
    cases r with
    | ok x =>
      rw [calls_bind_ok hr] at h
      exact (List.mem_append.mp h).imp_right fun hc => ⟨x, s', rfl, hc⟩
    | error fault =>
      rw [calls_bind_error hr] at h
      exact .inl h

@[simp] theorem calls_freshHash (s : Site σ) : freshHash.calls s = [] := rfl

@[simp] theorem calls_currentTime (s : Site σ) : currentTime.calls s = [] := by
  have hnow : Action.outcome (ExceptT.lift Program.now) s =
      (.ok s.supply.nextTime.1, { s with supply := s.supply.nextTime.2 }) := rfl
  have hnone : Action.calls (ExceptT.lift Program.now) s = [] := rfl
  rw [currentTime, calls_bind_ok hnow, hnone]
  split <;> rfl

/-! ## Calls of one kind -/

/-- An action makes only calls of some kind, wherever it runs. -/
def Makes (σ : Type) [KeyValue σ] {α : Type} (kind : Call → Prop) (a : Action α) : Prop :=
  ∀ s : Site σ, ∀ c ∈ a.calls s, kind c

variable {kind : Call → Prop}

theorem makes_of_silent {a : Action α} (h : ∀ s : Site σ, a.calls s = []) : Makes σ kind a := by
  intro s c hc
  rw [h s] at hc
  cases hc

theorem makes_pure (x : α) : Makes σ kind (pure x : Action α) := makes_of_silent fun _ => rfl

theorem makes_throw (fault : Fault) : Makes σ kind (throw fault : Action α) :=
  makes_of_silent fun _ => rfl

theorem makes_ask {c : Call} (hc : kind c) : Makes σ kind (ask c) := by
  intro s d hd
  rw [calls_ask_eq] at hd
  split at hd
  · cases List.mem_singleton.mp hd
    exact hc
  · cases hd

theorem makes_bind {a : Action α} {f : α → Action β} (ha : Makes σ kind a)
    (hf : ∀ x, Makes σ kind (f x)) : Makes σ kind (a >>= f) := by
  intro s c hc
  rcases mem_calls_bind hc with hc | ⟨x, s', -, hc⟩
  · exact ha s c hc
  · exact hf x s' c hc

theorem makes_unlessPresent {key : String} {record : Json} {unused : α} {make : Action α}
    (hmake : Makes σ kind make) : Makes σ kind (unlessPresent key record unused make) := by
  unfold unlessPresent
  split
  · exact makes_pure _
  · exact hmake

/-- A record is read without a call. -/
theorem makes_loadRecord (record : Json) : Makes σ kind (loadRecord record) := by
  unfold loadRecord
  split
  · refine makes_bind (makes_unlessPresent (makes_of_silent calls_freshHash)) fun hash => ?_
    refine makes_bind (makes_unlessPresent (makes_of_silent calls_currentTime)) fun created => ?_
    split
    · exact makes_pure _
    · exact makes_throw _
  · exact makes_throw _

theorem makes_find {hash : RawText} (hrecord : kind (.get (recordKey hash))) :
    Makes σ kind (find hash) := by
  unfold find
  refine makes_bind (makes_ask hrecord) fun found => ?_
  cases found with
  | none => exact makes_pure _
  | some record => exact makes_bind (makes_loadRecord record) fun c => makes_pure _

theorem makes_findAll {hashes : List RawText}
    (hrecords : ∀ hash ∈ hashes, kind (.get (recordKey hash))) : Makes σ kind (findAll hashes) := by
  induction hashes with
  | nil => exact makes_pure _
  | cons hash rest ih =>
    rw [findAll]
    have hothers := ih fun other hother => hrecords other (List.mem_cons_of_mem hash hother)
    exact makes_bind (makes_find (hrecords hash List.mem_cons_self)) fun found =>
      makes_bind hothers fun others => makes_pure _

theorem makes_list {post : RawText} (hindex : kind (.items (indexKey post)))
    (hrecords : ∀ hash, kind (.get (recordKey hash))) : Makes σ kind (list post) :=
  makes_bind (makes_ask hindex) fun _ => makes_findAll fun hash _ => hrecords hash

theorem makes_newHash (hrecords : ∀ hash, kind (.get (recordKey hash))) (attempts : Nat) :
    Makes σ kind (newHash attempts) := by
  induction attempts with
  | zero => exact makes_throw _
  | succ attempts ih =>
    rw [newHash]
    refine makes_bind (makes_of_silent calls_freshHash) fun hash => ?_
    refine makes_bind (makes_ask (hrecords hash)) fun found => ?_
    cases found with
    | none => exact makes_pure _
    | some record => exact ih

theorem makes_findOn {hash : RawText} (hrecord : kind (.get (recordKey hash))) (post : RawText) :
    Makes σ kind (findOn post hash) := by
  unfold findOn
  refine makes_bind (makes_find hrecord) fun found => ?_
  cases found with
  | none => exact makes_throw _
  | some c =>
    simp only
    split
    · exact makes_pure _
    · exact makes_throw _

theorem makes_resolveGiven (hrecords : ∀ hash, kind (.get (recordKey hash))) (post : RawText)
    (parent : Option RawText) : Makes σ kind (resolveGiven post parent) := by
  have hresolve (hash : RawText) : Makes σ kind (resolveParent post hash) := by
    unfold resolveParent
    refine makes_bind (makes_findOn (hrecords hash) post) fun c => ?_
    split
    · exact makes_pure _
    · exact makes_bind (makes_findOn (hrecords _) post) fun root => makes_pure _
  unfold resolveGiven
  split
  · exact makes_pure _
  · exact makes_bind (hresolve _) fun root => makes_pure _

theorem makes_authorize {hash : RawText} (hrecord : kind (.get (recordKey hash)))
    (hpassword : kind (.get (passwordKey hash))) (password : RawText) :
    Makes σ kind (authorize hash password) := by
  unfold authorize
  refine makes_bind (makes_find hrecord) fun found => ?_
  cases found with
  | none => exact makes_throw _
  | some c =>
    refine makes_bind (makes_ask hpassword) fun stored => ?_
    cases stored with
    | none => exact makes_throw _
    | some stored =>
      simp only
      split
      · exact makes_throw _
      · refine makes_bind (makes_of_silent fun _ => rfl) fun passed => ?_
        split
        · exact makes_pure _
        · exact makes_throw _

end Calls

/-! ## What the changes write -/

/-- The calls that store a comment, with what is kept of its password. -/
def newCalls (c : Comment) (lock : Option String) : List Call :=
  [.set (recordKey c.hash) c.toJson, .prepend (indexKey c.post) c.hash] ++
    (lock.map fun stored : String => Call.set (passwordKey c.hash) (.text stored)).toList

/-- The calls that take a comment of a post away. -/
def removalCalls (post hash : RawText) : List Call :=
  [.remove (indexKey post) hash, .delete (recordKey hash), .delete (passwordKey hash)]

/-- The hash of a new comment, drawn after its parent was resolved. -/
def chooseHash (post : RawText) (parent : Option RawText) : Action RawText := do
  let _ ← resolveGiven post parent
  newHash mostAttempts

/-- What came of calls that were to end in some result: all were answered, or the
key of one was refused and those before it were answered. -/
inductive Wrote (σ : Type) [KeyValue σ] {α : Type} (calls : List Call) (r : Except Fault α) :
    List Call → Except Fault α → Prop
  | all : Wrote σ calls r calls r
  | part {writes rest : List Call} {c : Call} {s : σ} (hcalls : calls = writes ++ c :: rest)
    (hrefused : KeyValue.takes c.key s = false) : Wrote σ calls r writes (.error .notEncodable)

section Wrote

variable {σ α : Type} [KeyValue σ] {calls writes : List Call} {r r' : Except Fault α}

theorem Wrote.isPrefix (h : Wrote σ calls r writes r') : writes <+: calls := by
  cases h with
  | all => exact List.prefix_refl calls
  | part hcalls => exact ⟨_, hcalls.symm⟩

/-- What ends well has been written to the end. -/
theorem Wrote.of_ok {x : α} (h : Wrote σ calls r writes (.ok x)) :
    r = .ok x ∧ writes = calls := by
  cases h with
  | all => exact ⟨rfl, rfl⟩

/-- Where no key is refused, all is written. -/
theorem Wrote.of_taken [Viewed σ] (h : Wrote σ calls r writes r') {s : σ}
    (htaken : ∀ c ∈ calls, KeyValue.takes c.key s = true) : r' = r ∧ writes = calls := by
  cases h with
  | all => exact ⟨rfl, rfl⟩
  | @part _ _ c t hcalls hrefused =>
    have hc := htaken c (hcalls ▸ List.mem_append_right _ List.mem_cons_self)
    rw [Viewed.takes_same c.key s t, hrefused] at hc
    cases hc

end Wrote

section Changes

variable {σ α β : Type} [KeyValue σ]

/-- An action makes some calls, in their order, and ends in some result, or stops at
a key that is refused. -/
def Executes (σ : Type) [KeyValue σ] {α : Type} (a : Action α) (calls : List Call)
    (r : Except Fault α) : Prop :=
  ∀ s : Site σ, Wrote σ calls r (a.calls s) (a.outcome s).1

theorem executes_pure (x : α) : Executes σ (pure x : Action α) [] (.ok x) := fun _ => .all

theorem executes_throw (fault : Fault) :
    Executes σ (throw fault : Action α) [] (.error fault) := fun _ => .all

/-- Whatever a call answers, what comes after it goes on from there. -/
theorem executes_ask {c : Call} {f : c.Answer → Action β} {later : List Call} {r : Except Fault β}
    (hf : ∀ answer, Executes σ (f answer) later r) :
    Executes σ (ask c >>= f) (c :: later) r := by
  intro s
  cases htaken : KeyValue.takes c.key s.store with
  | true =>
    rw [outcome_bind_ok (outcome_ask_taken htaken), calls_bind_ok (outcome_ask_taken htaken),
      calls_ask_taken htaken]
    have hs := hf (s.perform c).1 (s.perform c).2
    generalize (f (s.perform c).1).calls (s.perform c).2 = writes,
      ((f (s.perform c).1).outcome (s.perform c).2).1 = r' at hs ⊢
    cases hs with
    | all => exact .all
    | part hlater hrefused => exact .part (congrArg (c :: ·) hlater) hrefused
  | false =>
    have hrefused : (ask c).outcome s = (.error .notEncodable, s) := by
      rw [outcome_ask_eq, htaken]
      rfl
    rw [outcome_bind hrefused, calls_bind_error hrefused, calls_ask_refused htaken]
    exact .part (List.nil_append _).symm htaken

theorem executes_bind {a : Action α} {f : α → Action β} {x : α} {calls later : List Call}
    {r : Except Fault β} (ha : Executes σ a calls (.ok x)) (hf : Executes σ (f x) later r) :
    Executes σ (a >>= f) (calls ++ later) r := by
  intro s
  have hs := ha s
  cases hr : a.outcome s with
  | mk end' s' =>
    rw [hr] at hs
    generalize hcalls : a.calls s = writes at hs
    cases hs with
    | all =>
      rw [outcome_bind_ok hr, calls_bind_ok hr, hcalls]
      have hs' := hf s'
      generalize (f x).calls s' = writes', ((f x).outcome s').1 = r' at hs'
      cases hs' with
      | all => exact .all
      | part hlater hrefused => exact .part (by rw [hlater, List.append_assoc]) hrefused
    | part hfirst hrefused =>
      rw [outcome_bind hr, calls_bind_error hr, hcalls]
      exact .part (by rw [hfirst, List.append_assoc, List.cons_append]) hrefused

theorem executes_bind_error {a : Action α} {f : α → Action β} {calls : List Call} {fault : Fault}
    (ha : Executes σ a calls (.error fault)) : Executes σ (a >>= f) calls (.error fault) := by
  intro s
  have hs := ha s
  cases hr : a.outcome s with
  | mk end' s' =>
    rw [hr] at hs
    generalize hcalls : a.calls s = writes at hs
    cases hs with
    | all =>
      rw [outcome_bind hr, calls_bind_error hr, hcalls]
      exact .all
    | part hfirst hrefused =>
      rw [outcome_bind hr, calls_bind_error hr, hcalls]
      exact .part hfirst hrefused

theorem executes_keepPassword (config : Config) (hash : RawText) (password : Option RawText) :
    Executes σ (keepPassword config hash password)
      ((lockFor config.salt password).toOption.join.map fun stored : String =>
        Call.set (passwordKey hash) (.text stored)).toList
      ((lockFor config.salt password).map fun _ => ()) := by
  rw [keepPassword, lockFor]
  cases given password with
  | none => exact executes_pure ()
  | some password =>
    simp only
    cases Password.hash? config.salt password with
    | none => exact executes_throw _
    | some stored =>
      have hset : ask (.set (passwordKey hash) (.text stored)) =
          ask (.set (passwordKey hash) (.text stored)) >>= pure := (bind_pure _).symm
      change Executes σ (ask (.set (passwordKey hash) (.text stored))) _ _
      rw [hset]
      exact executes_ask fun _ => executes_pure ()

theorem executes_writeNew (config : Config) (password : Option RawText) (c : Comment) :
    Executes σ (writeNew config password c)
      (newCalls c (lockFor config.salt password).toOption.join)
      ((lockFor config.salt password).map fun _ => c) := by
  have hkeep := executes_keepPassword (σ := σ) config c.hash password
  refine executes_ask fun _ => executes_ask fun _ => ?_
  cases hlock : lockFor config.salt password with
  | ok lock =>
    rw [hlock] at hkeep
    have hdone := executes_bind (f := fun _ => pure c) hkeep (executes_pure c)
    rwa [List.append_nil] at hdone
  | error fault =>
    rw [hlock] at hkeep
    exact executes_bind_error hkeep

/-- A new comment that is stored is one of the post that is asked for, with a
hash that was chosen for it and the time of the clock. Where nothing is stored,
nothing is written. -/
theorem create_calls (config : Config) (post message : RawText)
    (author password parent : Option RawText) (s : Site σ) :
    (∃ fault, ((create config post message author password parent).outcome s).1 = .error fault ∧
      (create config post message author password parent).calls s =
        (chooseHash post parent).calls s) ∨
    ∃ c s' writes, (chooseHash post parent).outcome s = (.ok c.hash, s') ∧ c.post = post ∧
      c.Dated ∧
      Wrote σ (newCalls c (lockFor config.salt password).toOption.join)
        ((lockFor config.salt password).map fun _ => c) writes
        ((create config post message author password parent).outcome s).1 ∧
      (create config post message author password parent).calls s =
        (chooseHash post parent).calls s ++ writes := by
  rw [create_eq, chooseHash]
  cases hresolve : (resolveGiven post parent).outcome s with
  | mk r s₁ =>
    cases r with
    | error fault =>
      rw [outcome_bind hresolve, calls_bind_error hresolve, calls_bind_error hresolve]
      exact .inl ⟨fault, rfl, rfl⟩
    | ok resolved =>
      rw [outcome_bind_ok hresolve, outcome_bind_ok hresolve, calls_bind_ok hresolve,
        calls_bind_ok hresolve]
      cases hhash : (newHash mostAttempts).outcome s₁ with
      | mk r s₂ =>
        cases r with
        | error fault =>
          rw [outcome_bind hhash, calls_bind_error hhash]
          exact .inl ⟨fault, rfl, rfl⟩
        | ok hash =>
          rw [outcome_bind_ok hhash, calls_bind_ok hhash]
          have htime := outcome_currentTime s₂
          cases hrange : inRange s₂.supply.nextTime.1 with
          | false =>
            simp only [hrange, Bool.false_eq_true, if_false] at htime
            rw [outcome_bind htime, calls_bind_error htime, calls_currentTime, List.append_nil]
            exact .inl ⟨_, rfl, rfl⟩
          | true =>
            simp only [hrange, if_true] at htime
            rw [outcome_bind_ok htime, calls_bind_ok htime, calls_currentTime, List.nil_append]
            refine .inr ⟨_, s₂, _, rfl, rfl, ⟨⟨_, hrange, rfl⟩, by simp⟩,
              executes_writeNew config password
                ⟨hash, post, (given author).getD config.defaultAuthor, message, resolved,
                  .utc s₂.supply.nextTime.1, none⟩
                { s₂ with supply := s₂.supply.nextTime.2 }, ?_⟩
            rw [List.append_assoc]

/-- What is written of an edited comment, with the time of the clock. -/
def writeEdit (hash message : RawText) (c : Comment) : Action Comment := do
  let time ← currentTime
  ask (.set (recordKey hash) (edited message time c).toJson)
  return edited message time c

theorem update_eq (hash password message : RawText) :
    update hash password message = authorize hash password >>= writeEdit hash message := rfl

theorem writeEdit_calls (hash message : RawText) (c : Comment) (s : Site σ) :
    (inRange s.supply.nextTime.1 = false ∧
      ((writeEdit hash message c).outcome s).1 = .error .clockOutOfRange ∧
      (writeEdit hash message c).calls s = []) ∨
    (inRange s.supply.nextTime.1 = true ∧
      Wrote σ [.set (recordKey hash) (edited message (.utc s.supply.nextTime.1) c).toJson]
        (.ok (edited message (.utc s.supply.nextTime.1) c))
        ((writeEdit hash message c).calls s) ((writeEdit hash message c).outcome s).1) := by
  rw [writeEdit]
  have htime := outcome_currentTime s
  cases hrange : inRange s.supply.nextTime.1 with
  | false =>
    simp only [hrange, Bool.false_eq_true, if_false] at htime
    rw [outcome_bind htime, calls_bind_error htime, calls_currentTime]
    exact .inl ⟨rfl, rfl, rfl⟩
  | true =>
    simp only [hrange, if_true] at htime
    rw [outcome_bind_ok htime, calls_bind_ok htime, calls_currentTime, List.nil_append]
    exact .inr ⟨rfl, executes_ask (fun _ => executes_pure _) _⟩

/-- An edit writes the record of the comment that was authorized, with the new
message and a time of the calendar. -/
theorem update_calls (hash password message : RawText) (s : Site σ) :
    (∃ fault, ((update hash password message).outcome s).1 = .error fault ∧
      (update hash password message).calls s = (authorize hash password).calls s) ∨
    ∃ c s' time, (authorize hash password).outcome s = (.ok c, s') ∧ DateTime.IsMoment time ∧
      ((update hash password message).outcome s).1 = .ok (edited message time c) ∧
      (update hash password message).calls s = (authorize hash password).calls s ++
        [.set (recordKey hash) (edited message time c).toJson] := by
  rw [update_eq]
  cases hauthorize : (authorize hash password).outcome s with
  | mk r s₁ =>
    cases r with
    | error fault =>
      rw [outcome_bind hauthorize, calls_bind_error hauthorize]
      exact .inl ⟨fault, rfl, rfl⟩
    | ok c =>
      rw [outcome_bind_ok hauthorize, calls_bind_ok hauthorize]
      obtain ⟨-, hfault, hcalls⟩ | ⟨hrange, hwrote⟩ := writeEdit_calls hash message c s₁
      · rw [hcalls, List.append_nil]
        exact .inl ⟨_, hfault, rfl⟩
      · generalize (writeEdit hash message c).calls s₁ = writes,
          ((writeEdit hash message c).outcome s₁).1 = r at hwrote ⊢
        cases hwrote with
        | all => exact .inr ⟨c, s₁, _, rfl, ⟨_, hrange, rfl⟩, rfl, rfl⟩
        | part hfirst =>
          obtain rfl : writes = [] := by
            cases writes with
            | nil => rfl
            | cons d later => simp at hfirst
          exact .inl ⟨_, rfl, List.append_nil _⟩

/-- What is written to take a comment away. -/
def writeRemoval (hash : RawText) (c : Comment) : Action Comment := do
  ask (.remove (indexKey c.post) hash)
  ask (.delete (recordKey hash))
  ask (.delete (passwordKey hash))
  return c

theorem delete_eq (hash password : RawText) :
    delete hash password = authorize hash password >>= writeRemoval hash := rfl

theorem executes_removal (hash : RawText) (c : Comment) :
    Executes σ (writeRemoval hash c) (removalCalls c.post hash) (.ok c) :=
  executes_ask fun _ => executes_ask fun _ => executes_ask fun _ => executes_pure c

section Authorized

variable [Viewed σ] {hash password : RawText} {s s' : Site σ} {c : Comment}

/-- Who is authorized has read the record and the password, so neither key is refused. -/
theorem taken_of_authorized (h : (authorize hash password).outcome s = (.ok c, s')) :
    KeyValue.takes (recordKey hash) s.store = true ∧
      KeyValue.takes (passwordKey hash) s.store = true := by
  rw [authorize] at h
  obtain ⟨found, s₁, hfind, h⟩ := ok_of_outcome_bind h
  obtain ⟨record, s₂, hget, -⟩ := ok_of_outcome_bind hfind
  cases found with
  | none => cases h
  | some c =>
    obtain ⟨stored, s₃, hstored, -⟩ := ok_of_outcome_bind h
    refine ⟨(taken_of_outcome_ask hget).1, ?_⟩
    rw [Viewed.takes_same _ _ s₁.store]
    exact (taken_of_outcome_ask hstored).1

/-- A removal that is authorized does not fail, unless the index of the post is refused. -/
theorem delete_of_authorized (h : (authorize hash password).outcome s = (.ok c, s'))
    (hindex : KeyValue.takes (indexKey c.post) s.store = true) :
    ((delete hash password).outcome s).1 = .ok c ∧ (delete hash password).calls s =
      (authorize hash password).calls s ++ removalCalls c.post hash := by
  obtain ⟨hrecord, hpassword⟩ := taken_of_authorized h
  obtain ⟨hend, hcalls⟩ := (executes_removal hash c s').of_taken (s := s.store)
    (by simp [removalCalls, Call.key, hindex, hrecord, hpassword])
  rw [delete_eq, outcome_bind_ok h, calls_bind_ok h, hend, hcalls]
  exact ⟨rfl, rfl⟩

/-- A removal writes what takes away the comment that was authorized, or nothing. -/
theorem delete_calls (hash password : RawText) (s : Site σ) :
    (∃ fault, ((delete hash password).outcome s).1 = .error fault ∧
      (delete hash password).calls s = (authorize hash password).calls s) ∨
    ∃ c s', (authorize hash password).outcome s = (.ok c, s') ∧
      ((delete hash password).outcome s).1 = .ok c ∧
      (delete hash password).calls s =
        (authorize hash password).calls s ++ removalCalls c.post hash := by
  cases hauthorize : (authorize hash password).outcome s with
  | mk r s₁ =>
    cases r with
    | error fault =>
      rw [delete_eq, outcome_bind hauthorize, calls_bind_error hauthorize]
      exact .inl ⟨fault, rfl, rfl⟩
    | ok c =>
      cases hindex : KeyValue.takes (indexKey c.post) s₁.store with
      | true =>
        rw [Viewed.takes_same _ _ s.store] at hindex
        exact .inr ⟨c, s₁, rfl, delete_of_authorized hauthorize hindex⟩
      | false =>
        have hrefused : (ask (.remove (indexKey c.post) hash)).outcome s₁ =
            (.error .notEncodable, s₁) := by
          rw [outcome_ask_eq, Call.key, hindex]
          rfl
        have hcalls : (ask (.remove (indexKey c.post) hash)).calls s₁ = [] :=
          calls_ask_refused hindex
        rw [delete_eq, outcome_bind_ok hauthorize, calls_bind_ok hauthorize, writeRemoval,
          outcome_bind hrefused, calls_bind_error hrefused, hcalls, List.append_nil]
        exact .inl ⟨_, rfl, rfl⟩

end Authorized

end Changes

/-! ## What they are for -/

theorem writesFor_of_created {c : Comment} {lock : Option String} {call : Call}
    (h : call ∈ newCalls c lock) : WritesFor c.hash call := by
  rcases List.mem_append.mp h with h | h
  · simp only [List.mem_cons, List.not_mem_nil, or_false] at h
    rcases h with rfl | rfl
    · exact .setRecord _
    · exact .prepend _
  · cases lock with
    | none => cases h
    | some stored =>
      cases List.mem_singleton.mp h
      exact .setPassword _

theorem writesFor_of_removed {post hash : RawText} {call : Call}
    (h : call ∈ removalCalls post hash) : WritesFor hash call := by
  simp only [removalCalls, List.mem_cons, List.not_mem_nil, or_false] at h
  rcases h with rfl | rfl | rfl
  · exact .remove _
  · exact .deleteRecord
  · exact .deletePassword

section Fresh

variable {σ : Type} [KeyValue σ]

theorem makes_chooseHash {kind : Call → Prop} (hrecords : ∀ hash, kind (.get (recordKey hash)))
    (post : RawText) (parent : Option RawText) : Makes σ kind (chooseHash post parent) :=
  makes_bind (makes_resolveGiven hrecords post parent) fun _ => makes_newHash hrecords mostAttempts

theorem reads_find (hash : RawText) : Makes σ Call.IsRead (find hash) := makes_find trivial

theorem reads_list (post : RawText) : Makes σ Call.IsRead (list post) :=
  makes_list trivial fun _ => trivial

theorem reads_threads (post : RawText) : Makes σ Call.IsRead (threads post) :=
  makes_bind (reads_list post) fun _ => makes_pure _

theorem reads_authorize (hash password : RawText) :
    Makes σ Call.IsRead (authorize hash password) :=
  makes_authorize trivial trivial password

theorem reads_chooseHash (post : RawText) (parent : Option RawText) :
    Makes σ Call.IsRead (chooseHash post parent) :=
  makes_chooseHash (fun _ => trivial) post parent

/-- A new comment that fails has left the store as it was, or its password has no hash:
then the comment is there, without a password. -/
theorem create_of_error [Viewed σ] [TakesAll σ] {config : Config} {post message : RawText}
    {author password parent : Option RawText} {s s' : Site σ} {fault : Fault}
    (h : (create config post message author password parent).outcome s = (.error fault, s')) :
    s'.store = s.store ∨ (lockFor config.salt password = .error fault ∧
      ∃ c, c.post = post ∧ s'.store = storeAfter (newCalls c none) s.store) := by
  have hstore := store_outcome (create config post message author password parent) s
  rw [h] at hstore
  have hread := storeAfter_reads (reads_chooseHash post parent s) s.store
  obtain ⟨fault, -, hcalls⟩ | ⟨c, s₁, writes, -, hpost, -, hwrote, hcalls⟩ :=
    create_calls config post message author password parent s
  · left
    rw [hstore, hcalls, hread]
  · right
    obtain ⟨hended, hwrites⟩ := hwrote.of_taken (s := s.store) fun _ _ => TakesAll.takes_all _ _
    rw [h] at hended
    cases hlock : lockFor config.salt password with
    | ok lock =>
      rw [hlock] at hended
      cases hended
    | error other =>
      rw [hlock] at hended hwrites
      cases hended
      refine ⟨rfl, c, hpost, ?_⟩
      rw [hstore, hcalls, storeAfter_append, hread, hwrites]
      rfl

/-- The hash of a new comment has no record when its drawing begins. -/
theorem chooseHash_fresh [Viewed σ] {post hash : RawText} {parent : Option RawText} {s s' : Site σ}
    (h : (chooseHash post parent).outcome s = (.ok hash, s')) :
    Viewed.valueAt? s.store (recordKey hash) = none := by
  have hkept : Preserves (· = s.store) (chooseHash post parent) :=
    preserves_bind (preserves_resolveGiven post parent) fun _ => preserves_newHash mostAttempts
  have hstore : s'.store = s.store := by
    have hend := hkept s rfl
    rw [h] at hend
    exact hend
  rw [chooseHash] at h
  cases hresolve : (resolveGiven post parent).outcome s with
  | mk r s₁ =>
    cases r with
    | error fault =>
      rw [outcome_bind hresolve] at h
      cases h
    | ok resolved =>
      rw [outcome_bind_ok hresolve] at h
      rw [← hstore]
      exact newHash_fresh h

theorem chooseHash_taken [Viewed σ] {post hash : RawText} {parent : Option RawText} {s s' : Site σ}
    (h : (chooseHash post parent).outcome s = (.ok hash, s')) :
    KeyValue.takes (recordKey hash) s.store = true := by
  obtain ⟨resolved, s₁, -, hhash⟩ := ok_of_outcome_bind h
  rw [Viewed.takes_same _ _ s₁.store]
  exact newHash_taken hhash

end Fresh

end CommentThreads.Store
