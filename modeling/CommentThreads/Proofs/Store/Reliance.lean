/-
CommentThreads.Proofs.Store.Reliance — what a job can rely on while others make
their calls.

A job sees the store only through the answers to its calls, and others may have
changed it before each of them. So its program is gone through with an answer from
some other store at every call. Of these stores no more is known than a property
that all jobs keep.

* `Program.Relies`, `Action.Relies` — on any such stores, each call keeps the
  property, and the program ends as it should.
* `relies_after` — when all jobs are of this kind, the property holds after every
  schedule, and each job ends as it should.
* `relies_find`, `relies_authorize` — the reads with which a change begins.
-/
import CommentThreads.Proofs.Store.Coherence
import CommentThreads.Proofs.Store.Interleaving

namespace CommentThreads.Store

open Ledger Time Shared

section Relies

variable {σ : Type} [KeyValue σ] {Inv : σ → Prop} {α β : Type}

/-- Whichever stores with a property answer the calls of a program, or refuse them,
each call keeps the property, and the program comes to a good end. What counts as one
may depend on the calls that were answered, those before the program with them. -/
def Program.Relies (Inv : σ → Prop) : Program α → (List Call → α → Prop) → List Call → Prop
  | .done a, ends, made => ends made a
  | .call c next, ends, made => ∀ s, Inv s →
    (KeyValue.takes c.key s = true → Inv (KeyValue.perform c s).2 ∧
      (next (some (KeyValue.perform c s).1)).Relies Inv ends (made ++ [c])) ∧
    (KeyValue.takes c.key s = false → (next none).Relies Inv ends made)
  | .draw next, ends, made => ∀ digits, (next digits).Relies Inv ends made
  | .readClock next, ends, made => ∀ micros, (next micros).Relies Inv ends made

theorem Program.Relies.mono {p : Program α} {ends ends' : List Call → α → Prop} {made : List Call}
    (h : p.Relies Inv ends made) (hends : ∀ made a, ends made a → ends' made a) :
    p.Relies Inv ends' made := by
  induction p generalizing made with
  | done a => exact hends made a h
  | call c next ih =>
    intro s hs
    obtain ⟨htaken, hrefused⟩ := h s hs
    exact ⟨fun h => ⟨(htaken h).1, ih _ (htaken h).2⟩, fun h => ih _ (hrefused h)⟩
  | draw next ih => exact fun digits => ih digits (h digits)
  | readClock next ih => exact fun micros => ih micros (h micros)

theorem programRelies_bind {p : Program α} {f : α → Program β} {ends : List Call → β → Prop}
    {made : List Call} (h : p.Relies Inv (fun made a => (f a).Relies Inv ends made) made) :
    (p >>= f).Relies Inv ends made := by
  change (p.bind f).Relies Inv ends made
  induction p generalizing made with
  | done a => exact h
  | call c next ih =>
    intro s hs
    obtain ⟨htaken, hrefused⟩ := h s hs
    exact ⟨fun h => ⟨(htaken h).1, ih _ (htaken h).2⟩, fun h => ih _ (hrefused h)⟩
  | draw next ih => exact fun digits => ih digits (h digits)
  | readClock next ih => exact fun micros => ih micros (h micros)

/-! ## Jobs -/

section Jobs

variable {ι : Type} [DecidableEq ι] {ends : ι → List Call → α → Prop}

/-- Jobs that rely on a property of the store, which it has. -/
structure Relying (Inv : σ → Prop) (ends : ι → List Call → α → Prop) (sh : Shared σ ι α) :
    Prop where
  store : Inv sh.store
  jobs : ∀ i, (sh.job i).program.Relies Inv (ends i) (sh.madeBy i)

/-- A job that has got on by some calls still relies on no more, and the others have
not changed. -/
theorem Relying.advance {sh sh' : Shared σ ι α} (h : Relying Inv ends sh) {i : ι} {j : Job α}
    (calls : List Call) (hjob : sh'.job = put i j sh.job)
    (hmade : sh'.made = sh.made ++ calls.map (i, ·)) (hstore : Inv sh'.store)
    (hj : j.program.Relies Inv (ends i) (sh.madeBy i ++ calls)) : Relying Inv ends sh' := by
  refine ⟨hstore, fun k => ?_⟩
  rw [hjob, madeBy_of_append hmade]
  by_cases hk : k = i
  · subst hk
    rw [put_self, if_pos rfl]
    exact hj
  · rw [put_of_ne hk, if_neg hk, List.append_nil]
    exact h.jobs k

theorem Relying.step {sh : Shared σ ι α} (h : Relying Inv ends sh) (i : ι) :
    Relying Inv ends (sh.step i) := by
  have hi := h.jobs i
  unfold Shared.step
  split
  next => exact h
  next c next hprogram =>
    rw [hprogram] at hi
    obtain ⟨htaken, hrefused⟩ := hi sh.store h.store
    split
    · next htakes =>
      obtain ⟨hkept, hnext⟩ := htaken htakes
      exact h.advance [c] rfl rfl hkept hnext
    · next htakes =>
      rw [← List.append_nil (sh.madeBy i)] at hrefused
      exact h.advance [] rfl (List.append_nil _).symm h.store
        (hrefused (Bool.eq_false_iff.mpr htakes))
  next next hprogram =>
    rw [hprogram, ← List.append_nil (sh.madeBy i)] at hi
    exact h.advance [] rfl (List.append_nil _).symm h.store (hi _)
  next next hprogram =>
    rw [hprogram, ← List.append_nil (sh.madeBy i)] at hi
    exact h.advance [] rfl (List.append_nil _).symm h.store (hi _)

/-- Whatever the schedule, a property that all jobs rely on and keep holds of the
store, and those that are done have come to a good end. -/
theorem relies_after {start : Shared σ ι α} (hstore : Inv start.store) (hmade : start.made = [])
    (hjobs : ∀ i, (start.job i).program.Relies Inv (ends i) []) (schedule : List ι) :
    Inv (start.after schedule).store ∧ ∀ i a, ((start.after schedule).job i).program = .done a →
      ends i ((start.after schedule).madeBy i) a := by
  have hstart : Relying Inv ends start := by
    refine ⟨hstore, fun i => ?_⟩
    rw [madeBy, hmade]
    exact hjobs i
  have hend : Relying Inv ends (start.after schedule) :=
    after_induction (Relying Inv ends) (fun _ i h => h.step i) schedule hstart
  refine ⟨hend.store, fun i a hdone => ?_⟩
  have hi := hend.jobs i
  rw [hdone] at hi
  exact hi

end Jobs

/-! ## Actions -/

/-- The same for an action, which may end in a fault. -/
def Action.Relies (Inv : σ → Prop) (a : Action α) (ends : List Call → Except Fault α → Prop)
    (made : List Call) : Prop :=
  Program.Relies Inv (ExceptT.run a) ends made

variable {ends : List Call → Except Fault α → Prop} {made : List Call}

theorem Action.Relies.mono {a : Action α} {ends' : List Call → Except Fault α → Prop}
    (h : a.Relies Inv ends made) (hends : ∀ made r, ends made r → ends' made r) :
    a.Relies Inv ends' made :=
  Program.Relies.mono h hends

theorem relies_pure {x : α} (h : ends made (.ok x)) : Action.Relies Inv (pure x) ends made := h

theorem relies_throw {fault : Fault} (h : ends made (.error fault)) :
    Action.Relies Inv (throw fault) ends made := h

theorem relies_ask {c : Call} {ends : List Call → Except Fault c.Answer → Prop}
    (htaken : ∀ s, Inv s → KeyValue.takes c.key s = true → Inv (KeyValue.perform c s).2 ∧
      ends (made ++ [c]) (.ok (KeyValue.perform c s).1))
    (hrefused : ends made (.error .notEncodable)) : (ask c).Relies Inv ends made :=
  fun s hs => ⟨htaken s hs, fun _ => hrefused⟩

theorem relies_bind {a : Action β} {f : β → Action α}
    (h : a.Relies Inv (fun made r => match r with
      | .ok x => (f x).Relies Inv ends made
      | .error fault => ends made (.error fault)) made) : (a >>= f).Relies Inv ends made := by
  rw [Action.Relies, ExceptT.run_bind]
  refine programRelies_bind (h.mono fun made r hr => ?_)
  cases r with
  | ok x => exact hr
  | error fault => exact hr

/-- The time is not the store's, so nothing is known of it but that it is a moment. -/
theorem relies_currentTime {ends : List Call → Except Fault DateTime → Prop}
    (hfault : ends made (.error .clockOutOfRange))
    (htime : ∀ time : DateTime, time.IsMoment → ends made (.ok time)) :
    currentTime.Relies Inv ends made := by
  rw [currentTime]
  refine relies_bind (a := ExceptT.lift Program.now) fun micros => ?_
  change Action.Relies Inv (if inRange micros then pure (.utc micros) else throw .clockOutOfRange)
    ends made
  split
  · next hrange => exact htime _ ⟨micros, hrange, rfl⟩
  · exact hfault

end Relies

/-! ## Reading -/

section Reading

variable {σ : Type} [KeyValue σ] [Viewed σ] {Inv : σ → Prop} {made : List Call}

/-- A comment that was stored is read without drawing. -/
theorem loadRecord_toJson {c : Comment} (h : c.Dated) : loadRecord c.toJson = pure c := by
  obtain ⟨hhash, -, -, -, -, hcreated, -⟩ := Comment.fields_toJson c
  have hread := Comment.reader_toJson h "" (.utc 0)
  obtain ⟨fields, hfields⟩ : ∃ fields, c.toJson = .object fields := ⟨_, rfl⟩
  rw [hfields] at hhash hcreated hread ⊢
  simp [loadRecord, unlessPresent, hhash, hcreated, hread]

/-- What a store may hold under a hash while jobs are at work: nothing, or a comment
of some kind. -/
def May (kind : Comment → Prop) (hash : RawText) (s : σ) : Prop :=
  Viewed.valueAt? s (recordKey hash) = none ∨ ∃ c, Holds s c ∧ c.hash = hash ∧ kind c

variable {kind : Comment → Prop} {hash : RawText}

theorem relies_find (hmay : ∀ s, Inv s → May kind hash s)
    {ends : List Call → Except Fault (Option Comment) → Prop}
    (hrefused : ends made (.error .notEncodable))
    (hnone : ends (made ++ [.get (recordKey hash)]) (.ok none))
    (hsome : ∀ c, c.Dated → kind c → ends (made ++ [.get (recordKey hash)]) (.ok (some c))) :
    (find hash).Relies Inv ends made := by
  rw [find]
  refine relies_bind (relies_ask (fun s hs _ => ?_) hrefused)
  rw [Viewed.perform_get]
  refine ⟨hs, ?_⟩
  obtain hnothing | ⟨c, hc, rfl, hkind⟩ := hmay s hs
  · simp only [hnothing]
    exact relies_pure hnone
  · simp only [hc.record, loadRecord_toJson hc.dated, pure_bind]
    exact relies_pure (hsome c hc.dated hkind)

/-- Who is authorized to change a comment has read it, and nothing else was done. -/
theorem relies_authorize (hmay : ∀ s, Inv s → May kind hash s) (password : RawText)
    {ends : List Call → Except Fault Comment → Prop}
    (hfault : ∀ reads fault, (∀ c ∈ reads, Call.IsRead c) → ends (made ++ reads) (.error fault))
    (hok : ∀ reads c, (∀ d ∈ reads, Call.IsRead d) → c.Dated → kind c →
      ends (made ++ reads) (.ok c)) :
    (authorize hash password).Relies Inv ends made := by
  have hone : ∀ c ∈ [Call.get (recordKey hash)], c.IsRead := by simp [Call.IsRead]
  have htwo : ∀ c ∈ [Call.get (recordKey hash), .get (passwordKey hash)], c.IsRead := by
    simp [Call.IsRead]
  have hnone := hfault [] .notEncodable (List.forall_mem_nil _)
  rw [List.append_nil] at hnone
  rw [authorize]
  refine relies_bind
    (relies_find hmay hnone (relies_throw (hfault _ _ hone)) fun c hdated hkind => ?_)
  refine relies_bind (relies_ask (fun s hs _ => ?_) (hfault _ _ hone))
  rw [Viewed.perform_get, List.append_assoc]
  refine ⟨hs, ?_⟩
  cases Viewed.valueAt? s (passwordKey hash) with
  | none => exact relies_throw (hfault _ _ htwo)
  | some stored =>
    simp only
    split
    · exact relies_throw (hfault _ _ htwo)
    · cases hpasses : passes password stored with
      | error fault => exact relies_throw (hfault _ _ htwo)
      | ok passed =>
        cases passed with
        | false => exact relies_throw (hfault _ _ htwo)
        | true => exact relies_pure (hok _ c htwo hdated hkind)

end Reading

end CommentThreads.Store
