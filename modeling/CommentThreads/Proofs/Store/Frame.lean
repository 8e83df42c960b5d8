/-
CommentThreads.Proofs.Store.Frame — what an action leaves as it is.

* `Preserves` — an action preserves a property of the store, however it
  ends. The actions that only read preserve every property.
* `newHash_fresh` — a hash that is drawn for a new comment has no record. It
  is a string, whatever texts there are elsewhere (`isPlain_of_newHash`).
* `clock_run` — no program sets the clock.

Nothing is said here about what the store holds: the records may be broken,
and the hashes in them may be wrong.
-/
import CommentThreads.Proofs.Store.Outcome

namespace CommentThreads.Store

variable {σ : Type} [KeyValue σ]

/-- No program sets the clock. -/
theorem clock_run {α : Type} (p : Program α) (s : Site σ) :
    (p.run s).2.supply.clock = s.supply.clock := by
  induction p generalizing s with
  | done a => rfl
  | call c next ih =>
    rw [Program.run, ih, Site.request]
    split <;> rfl
  | draw next ih => exact ih _ _
  | readClock next ih => exact ih _ _

theorem clock_outcome {α : Type} {a : Action α} {s s' : Site σ} {r : Except Fault α}
    (h : a.outcome s = (r, s')) : s'.supply.clock = s.supply.clock := by
  have hrun : (a.outcome s).2.supply.clock = s.supply.clock := clock_run (ExceptT.run a) s
  rw [h] at hrun
  exact hrun

/-! ## Preserving a property of the store -/

/-- However an action ends, the store has a property that it had before. -/
def Preserves {α : Type} (Inv : σ → Prop) (a : Action α) : Prop :=
  ∀ s : Site σ, Inv s.store → Inv (a.outcome s).2.store

section Building

variable {α β : Type} {Inv : σ → Prop}

theorem preserves_pure (x : α) : Preserves Inv (pure x : Action α) := fun _ h => h

theorem preserves_throw (fault : Fault) : Preserves Inv (throw fault : Action α) := fun _ h => h

theorem preserves_bind {a : Action α} {f : α → Action β} (ha : Preserves Inv a)
    (hf : ∀ x, Preserves Inv (f x)) : Preserves Inv (a >>= f) := by
  intro s hs
  have hnext := ha s hs
  cases hr : a.outcome s with
  | mk r s' =>
    rw [hr] at hnext
    rw [outcome_bind hr]
    cases r with
    | ok x => exact hf x s' hnext
    | error fault => exact hnext

/-- A call whose key is refused changes nothing. -/
theorem preserves_ask {c : Call}
    (hc : ∀ s, KeyValue.takes c.key s = true → Inv s → Inv (KeyValue.perform c s).2) :
    Preserves Inv (ask c) := by
  intro s hs
  rw [outcome_ask_eq]
  split
  · next htaken => exact hc s.store htaken hs
  · exact hs

theorem preserves_freshHash : Preserves Inv freshHash := fun _ h => h

theorem preserves_currentTime : Preserves Inv currentTime := by
  intro s hs
  rw [outcome_currentTime]
  exact hs

theorem preserves_unlessPresent {key : String} {record : Json} {unused : α} {make : Action α}
    (hmake : Preserves Inv make) : Preserves Inv (unlessPresent key record unused make) := by
  unfold unlessPresent
  split
  · exact preserves_pure _
  · exact hmake

theorem preserves_loadRecord (record : Json) : Preserves Inv (loadRecord record) := by
  unfold loadRecord
  split
  · refine preserves_bind (preserves_unlessPresent preserves_freshHash) fun hash => ?_
    refine preserves_bind (preserves_unlessPresent preserves_currentTime) fun created => ?_
    split
    · exact preserves_pure _
    · exact preserves_throw _
  · exact preserves_throw _

end Building

/-! ## Actions that only read -/

section Reading

variable [Viewed σ] {Inv : σ → Prop}

theorem preserves_get (key : RawText) : Preserves Inv (ask (.get key)) :=
  preserves_ask fun s _ h => by rw [Viewed.perform_get]; exact h

theorem preserves_items (key : RawText) : Preserves Inv (ask (.items key)) :=
  preserves_ask fun s _ h => by rw [Viewed.perform_items]; exact h

theorem preserves_find (hash : RawText) : Preserves Inv (find hash) := by
  unfold find
  refine preserves_bind (preserves_get _) fun found => ?_
  cases found with
  | none => exact preserves_pure _
  | some record => exact preserves_bind (preserves_loadRecord record) fun c => preserves_pure _

theorem preserves_findAll (hashes : List RawText) : Preserves Inv (findAll hashes) := by
  induction hashes with
  | nil => exact preserves_pure _
  | cons hash rest ih =>
    rw [findAll]
    exact preserves_bind (preserves_find hash) fun found =>
      preserves_bind ih fun others => preserves_pure _

theorem preserves_list (post : RawText) : Preserves Inv (list post) :=
  preserves_bind (preserves_items _) fun hashes => preserves_findAll hashes

theorem preserves_threads (post : RawText) : Preserves Inv (threads post) :=
  preserves_bind (preserves_list post) fun _ => preserves_pure _

theorem preserves_newHash (attempts : Nat) : Preserves Inv (newHash attempts) := by
  induction attempts with
  | zero => exact preserves_throw _
  | succ attempts ih =>
    rw [newHash]
    refine preserves_bind preserves_freshHash fun hash => ?_
    refine preserves_bind (preserves_get _) fun found => ?_
    cases found with
    | none => exact preserves_pure _
    | some record => exact ih

theorem preserves_findOn (post hash : RawText) : Preserves Inv (findOn post hash) := by
  unfold findOn
  refine preserves_bind (preserves_find hash) fun found => ?_
  cases found with
  | none => exact preserves_throw _
  | some c =>
    simp only
    split
    · exact preserves_pure _
    · exact preserves_throw _

theorem preserves_resolveGiven (post : RawText) (parent : Option RawText) :
    Preserves Inv (resolveGiven post parent) := by
  have hresolve (hash : RawText) : Preserves Inv (resolveParent post hash) := by
    unfold resolveParent
    refine preserves_bind (preserves_findOn post hash) fun c => ?_
    split
    · exact preserves_pure _
    · exact preserves_bind (preserves_findOn post _) fun root => preserves_pure _
  unfold resolveGiven
  split
  · exact preserves_pure _
  · exact preserves_bind (hresolve _) fun root => preserves_pure _

theorem preserves_authorize (hash password : RawText) :
    Preserves Inv (authorize hash password) := by
  unfold authorize
  refine preserves_bind (preserves_find hash) fun found => ?_
  cases found with
  | none => exact preserves_throw _
  | some c =>
    refine preserves_bind (preserves_get _) fun stored => ?_
    cases stored with
    | none => exact preserves_throw _
    | some stored =>
      simp only
      split
      · exact preserves_throw _
      · refine preserves_bind (fun _ h => h) fun passed => ?_
        split
        · exact preserves_pure _
        · exact preserves_throw _

/-- A hash that is drawn for a new comment has no record. -/
theorem newHash_fresh {attempts : Nat} {s s' : Site σ} {hash : RawText}
    (h : (newHash attempts).outcome s = (.ok hash, s')) :
    Viewed.valueAt? s'.store (recordKey hash) = none := by
  induction attempts generalizing s with
  | zero => cases h
  | succ attempts ih =>
    rw [newHash, outcome_bind_ok (outcome_freshHash s)] at h
    obtain ⟨found, s₁, hget, h⟩ := ok_of_outcome_bind h
    obtain ⟨-, hfound⟩ := taken_of_outcome_ask hget
    rw [Site.perform, Viewed.perform_get] at hfound
    cases hfound
    split at h
    · next hnone =>
      cases h
      exact hnone
    · exact ih h

/-- A hash that is drawn for a new comment has been looked up. -/
theorem newHash_taken {attempts : Nat} {s s' : Site σ} {hash : RawText}
    (h : (newHash attempts).outcome s = (.ok hash, s')) :
    KeyValue.takes (recordKey hash) s.store = true := by
  induction attempts generalizing s with
  | zero => cases h
  | succ attempts ih =>
    rw [newHash, outcome_bind_ok (outcome_freshHash s)] at h
    obtain ⟨found, s₁, hget, h⟩ := ok_of_outcome_bind h
    obtain ⟨htaken, hfound⟩ := taken_of_outcome_ask hget
    split at h
    · cases h
      exact htaken
    · rw [Viewed.takes_same _ _ s₁.store]
      exact ih h

omit [Viewed σ] in
/-- A hash that is drawn for a new comment is a string. -/
theorem isPlain_of_newHash {attempts : Nat} {s s' : Site σ} {hash : RawText}
    (h : (newHash attempts).outcome s = (.ok hash, s')) : hash.isPlain = true := by
  induction attempts generalizing s with
  | zero => cases h
  | succ attempts ih =>
    rw [newHash, outcome_bind_ok (outcome_freshHash s)] at h
    obtain ⟨found, s₁, -, h⟩ := ok_of_outcome_bind h
    split at h
    · cases h
      exact RawText.isPlain_plain _
    · exact ih h

end Reading

end CommentThreads.Store
