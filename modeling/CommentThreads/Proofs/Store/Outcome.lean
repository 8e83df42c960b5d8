/-
CommentThreads.Proofs.Store.Outcome — how an action on comments ends, and
what is then found in the store.

* `Action.outcome` — the result of an action at a site, and the site after
  it. One lemma for each way of building an action says what it does to the
  outcome, so that a long action is taken apart step by step.
* `TakesAll` — a store that takes every key, so that each call is answered.
* `Viewed` — a store whose calls can be told from two views of it, the
  values and the lists at its keys. What is proved over the views holds of
  every such store.
* The keys of records, of passwords and of indexes never meet, whatever the
  texts are that they are made of.
-/
import CommentThreads.Proofs.Text.Raw
import CommentThreads.Store.Comments
import CommentThreads.Store.Memory

namespace CommentThreads.Store

/-! ## Outcomes -/

section Outcome

variable {σ α β : Type} [KeyValue σ]

/-- How an action ends at a site, and the site after it. -/
def Action.outcome (a : Action α) (s : Site σ) : Except Fault α × Site σ :=
  Program.run (ExceptT.run a) s

@[simp] theorem outcome_pure (x : α) (s : Site σ) :
    Action.outcome (pure x) s = (.ok x, s) := rfl

@[simp] theorem outcome_throw (fault : Fault) (s : Site σ) :
    Action.outcome (throw fault : Action α) s = (.error fault, s) := rfl

/-- An action after another one starts where that one ended; a fault ends
everything that was still to be done. -/
theorem outcome_bind {a : Action α} {f : α → Action β} {s s' : Site σ} {r : Except Fault α} :
    a.outcome s = (r, s') →
      Action.outcome (a >>= f) s =
        match r with
        | .ok x => (f x).outcome s'
        | .error fault => (.error fault, s') := by
  intro h
  have hrun : Program.run (ExceptT.run a) s = (r, s') := h
  simp only [Action.outcome, ExceptT.run_bind, Program.run_bind, hrun]
  cases r <;> rfl

/-- After an action that went well nothing but what it gave is left of it. -/
theorem outcome_bind_ok {a : Action α} {f : α → Action β} {s s' : Site σ} {x : α}
    (h : a.outcome s = (.ok x, s')) : Action.outcome (a >>= f) s = (f x).outcome s' :=
  outcome_bind h

/-- What went well after an action did so after it went well. -/
theorem ok_of_outcome_bind {a : Action α} {f : α → Action β} {s s' : Site σ} {y : β}
    (h : Action.outcome (a >>= f) s = (.ok y, s')) :
    ∃ x s₁, a.outcome s = (.ok x, s₁) ∧ (f x).outcome s₁ = (.ok y, s') := by
  cases hr : a.outcome s with
  | mk r s₁ =>
    rw [outcome_bind hr] at h
    cases r with
    | ok x => exact ⟨x, s₁, rfl, h⟩
    | error fault => cases h

/-- A call is answered if the store takes its key. If not, nothing happens. -/
theorem outcome_ask_eq (c : Call) (s : Site σ) :
    (ask c).outcome s =
      if KeyValue.takes c.key s.store then (.ok (s.perform c).1, (s.perform c).2)
      else (.error .notEncodable, s) := by
  have hrequest : Action.outcome (ExceptT.lift (Program.perform c)) s =
      (.ok (s.request c).1, (s.request c).2) := rfl
  rw [ask, outcome_bind_ok hrequest, Site.request]
  cases KeyValue.takes c.key s.store <;> rfl

theorem outcome_ask_taken {c : Call} {s : Site σ} (h : KeyValue.takes c.key s.store = true) :
    (ask c).outcome s = (.ok (s.perform c).1, (s.perform c).2) := by
  rw [outcome_ask_eq, if_pos h]

/-- A call that was answered has a key that the store takes. -/
theorem taken_of_outcome_ask {c : Call} {s s' : Site σ} {answer : c.Answer}
    (h : (ask c).outcome s = (.ok answer, s')) :
    KeyValue.takes c.key s.store = true ∧ s.perform c = (answer, s') := by
  rw [outcome_ask_eq] at h
  split at h
  · next htaken =>
    cases h
    exact ⟨htaken, rfl⟩
  · cases h

@[simp] theorem outcome_freshHash (s : Site σ) :
    freshHash.outcome s =
      (.ok (Text.firstChars Comment.hashLength s.supply.nextDigits.1),
        { s with supply := s.supply.nextDigits.2 }) := rfl

/-- The time now is a moment, unless the clock has left the calendar. -/
theorem outcome_currentTime (s : Site σ) :
    currentTime.outcome s =
      (if Time.inRange s.supply.nextTime.1 then .ok (.utc s.supply.nextTime.1)
        else .error .clockOutOfRange, { s with supply := s.supply.nextTime.2 }) := by
  have hnow : Action.outcome (ExceptT.lift Program.now) s =
      (.ok s.supply.nextTime.1, { s with supply := s.supply.nextTime.2 }) := rfl
  rw [currentTime, outcome_bind_ok hnow]
  split <;> rfl

end Outcome

/-! ## Stores that refuse no key -/

/-- A store that takes every key. -/
class TakesAll (σ : Type) [KeyValue σ] : Prop where
  takes_all : ∀ key (s : σ), KeyValue.takes key s = true

attribute [simp] TakesAll.takes_all

instance : TakesAll Memory := ⟨fun _ _ => rfl⟩

@[simp] theorem outcome_ask {σ : Type} [KeyValue σ] [TakesAll σ] (c : Call) (s : Site σ) :
    (ask c).outcome s = (.ok (s.perform c).1, (s.perform c).2) :=
  outcome_ask_taken (TakesAll.takes_all _ _)

/-! ## Views -/

/-- A store whose calls can be told from two views of it. A key that it does not
take has nothing under it, and a call there does nothing. Where a key is used for a
value and for a list, what happens to the one when the other is written is the
store's affair. -/
class Viewed (σ : Type) [KeyValue σ] where
  valueAt? : σ → RawText → Option Json
  listAt : σ → RawText → List RawText
  takes_same : ∀ key (s t : σ), KeyValue.takes key s = KeyValue.takes key t
  perform_refused : ∀ (c : Call) (s : σ),
    KeyValue.takes c.key s = false → (KeyValue.perform c s).2 = s
  valueAt?_refused : ∀ key (s : σ), KeyValue.takes key s = false → valueAt? s key = none
  listAt_refused : ∀ key (s : σ), KeyValue.takes key s = false → listAt s key = []
  perform_get : ∀ key (s : σ), KeyValue.perform (.get key) s = (valueAt? s key, s)
  perform_items : ∀ key (s : σ), KeyValue.perform (.items key) s = (listAt s key, s)
  valueAt?_set : ∀ key value other (s : σ), KeyValue.takes key s = true →
    valueAt? (KeyValue.perform (.set key value) s).2 other =
      if other = key then value.nonNull? else valueAt? s other
  listAt_set : ∀ key value other (s : σ), other ≠ key ∨ listAt s key = [] →
    listAt (KeyValue.perform (.set key value) s).2 other = listAt s other
  valueAt?_delete : ∀ key other (s : σ),
    valueAt? (KeyValue.perform (.delete key) s).2 other =
      if other = key then none else valueAt? s other
  listAt_delete : ∀ key other (s : σ),
    listAt (KeyValue.perform (.delete key) s).2 other =
      if other = key then [] else listAt s other
  valueAt?_prepend : ∀ key item other (s : σ), other ≠ key ∨ valueAt? s key = none →
    valueAt? (KeyValue.perform (.prepend key item) s).2 other = valueAt? s other
  listAt_prepend : ∀ key item other (s : σ), KeyValue.takes key s = true →
    listAt (KeyValue.perform (.prepend key item) s).2 other =
      if other = key then item :: listAt s key else listAt s other
  valueAt?_remove : ∀ key item other (s : σ),
    valueAt? (KeyValue.perform (.remove key item) s).2 other = valueAt? s other
  listAt_remove : ∀ key item other (s : σ),
    listAt (KeyValue.perform (.remove key item) s).2 other =
      if other = key then (listAt s key).filter (· ≠ item) else listAt s other

attribute [simp] Viewed.perform_get Viewed.perform_items Viewed.valueAt?_set Viewed.listAt_set
  Viewed.valueAt?_delete Viewed.listAt_delete Viewed.valueAt?_prepend Viewed.listAt_prepend
  Viewed.valueAt?_remove Viewed.listAt_remove

instance : Viewed Memory where
  valueAt? := Memory.valueAt?
  listAt := Memory.listAt
  takes_same _ _ _ := rfl
  perform_refused _ _ h := nomatch h
  valueAt?_refused _ _ h := nomatch h
  listAt_refused _ _ h := nomatch h
  perform_get _ _ := rfl
  perform_items _ _ := rfl
  valueAt?_set key value other s _ := Memory.valueAt?_set s key other value
  listAt_set key value other s _ := Memory.listAt_set s key other value
  valueAt?_delete key other s := Memory.valueAt?_delete s key other
  listAt_delete key other s := Memory.listAt_delete s key other
  valueAt?_prepend key item other s _ := Memory.valueAt?_prepend s key item other
  listAt_prepend key item other s _ := Memory.listAt_prepend s key item other
  valueAt?_remove key item other s := Memory.valueAt?_remove s key item other
  listAt_remove key item other s := Memory.listAt_remove s key item other

/-- A call is made, or it changes nothing. -/
theorem taken_or_same {σ : Type} [KeyValue σ] [Viewed σ] (c : Call) (s : σ) :
    KeyValue.takes c.key s = true ∨ (KeyValue.perform c s).2 = s := by
  cases htaken : KeyValue.takes c.key s with
  | true => exact .inl rfl
  | false => exact .inr (Viewed.perform_refused c s htaken)

theorem taken_of_valueAt? {σ : Type} [KeyValue σ] [Viewed σ] {key : RawText} {s : σ}
    (h : Viewed.valueAt? s key ≠ none) : KeyValue.takes key s = true := by
  cases htaken : KeyValue.takes key s with
  | true => rfl
  | false => exact absurd (Viewed.valueAt?_refused key s htaken) h

/-! ## Keys -/

@[simp] theorem recordKey_inj {hash other : RawText} :
    recordKey hash = recordKey other ↔ hash = other :=
  RawText.plain_append_inj _ _ _

@[simp] theorem passwordKey_inj {hash other : RawText} :
    passwordKey hash = passwordKey other ↔ hash = other :=
  RawText.plain_append_inj _ _ _

@[simp] theorem indexKey_inj {post other : RawText} :
    indexKey post = indexKey other ↔ post = other :=
  RawText.plain_append_inj _ _ _

@[simp] theorem recordKey_ne_passwordKey (hash other : RawText) :
    recordKey hash ≠ passwordKey other := by
  simp [recordKey, passwordKey, ← RawText.points_inj]

@[simp] theorem passwordKey_ne_recordKey (hash other : RawText) :
    passwordKey hash ≠ recordKey other := (recordKey_ne_passwordKey other hash).symm

@[simp] theorem indexKey_ne_passwordKey (post hash : RawText) :
    indexKey post ≠ passwordKey hash := by
  simp [indexKey, passwordKey, ← RawText.points_inj]

@[simp] theorem passwordKey_ne_indexKey (hash post : RawText) :
    passwordKey hash ≠ indexKey post := (indexKey_ne_passwordKey post hash).symm

/-- The two names begin alike and part at their eighth character. -/
@[simp] theorem indexKey_ne_recordKey (post hash : RawText) :
    indexKey post ≠ recordKey hash := by
  simp [indexKey, recordKey, ← RawText.points_inj]

@[simp] theorem recordKey_ne_indexKey (hash post : RawText) :
    recordKey hash ≠ indexKey post := (indexKey_ne_recordKey post hash).symm

@[simp] theorem isPlain_recordKey (hash : RawText) : (recordKey hash).isPlain = hash.isPlain := by
  simp [recordKey]

@[simp] theorem isPlain_passwordKey (hash : RawText) :
    (passwordKey hash).isPlain = hash.isPlain := by
  simp [passwordKey]

@[simp] theorem isPlain_indexKey (post : RawText) : (indexKey post).isPlain = post.isPlain := by
  simp [indexKey]

end CommentThreads.Store
