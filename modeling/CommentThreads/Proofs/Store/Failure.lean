/-
CommentThreads.Proofs.Store.Failure — how the operations fail, and that what
fails changes nothing.

* `FailsClean` — an action that fails has left the store as it was. An
  operation reads first and writes last: its reading part may fail, its
  writing part does not.
* `create_failsClean`, `update_failsClean`, `delete_failsClean` — so it is for
  the three changes, whatever the store holds. The exception is a password that
  has no hash, since it is hashed after the record has been written.
* `create_fault`, `update_fault`, `delete_fault` — the faults that the changes
  can have on a ledger, each with its reason.
-/
import CommentThreads.Proofs.Store.Frame
import CommentThreads.Proofs.Store.Refinement

namespace CommentThreads.Store

open Ledger Time

variable {σ : Type} [KeyValue σ]

/-! ## Reading first, writing last -/

/-- An action that fails has left the store as it was, unless its fault is one
of those that are excepted. -/
def FailsClean (σ : Type) [KeyValue σ] {α : Type} (excepted : Fault → Prop) (a : Action α) : Prop :=
  ∀ (s s' : Site σ) (fault : Fault), a.outcome s = (.error fault, s') → ¬excepted fault →
    s'.store = s.store

/-- An action that has no other faults than those that are excepted. -/
def FailsOnly (σ : Type) [KeyValue σ] {α : Type} (excepted : Fault → Prop) (a : Action α) : Prop :=
  ∀ (s s' : Site σ) (fault : Fault), a.outcome s = (.error fault, s') → excepted fault

section Building

variable {α β : Type} {excepted : Fault → Prop}

theorem FailsOnly.failsClean {a : Action α} (h : FailsOnly σ excepted a) :
    FailsClean σ excepted a :=
  fun s s' fault hfails hnot => absurd (h s s' fault hfails) hnot

theorem failsOnly_pure (x : α) : FailsOnly σ excepted (pure x : Action α) := by
  intro s s' fault hfails
  cases hfails

theorem failsOnly_ask [TakesAll σ] (c : Call) : FailsOnly σ excepted (ask c) := by
  intro s s' fault hfails
  rw [outcome_ask] at hfails
  cases hfails

theorem failsOnly_bind {a : Action α} {f : α → Action β} (ha : FailsOnly σ excepted a)
    (hf : ∀ x, FailsOnly σ excepted (f x)) : FailsOnly σ excepted (a >>= f) := by
  intro s s' fault hfails
  cases hr : a.outcome s with
  | mk r middle =>
    rw [outcome_bind hr] at hfails
    cases r with
    | ok x => exact hf x middle s' fault hfails
    | error other =>
      cases hfails
      exact ha _ _ _ hr

/-- What only reads may come first. -/
theorem failsClean_bind {a : Action α} {f : α → Action β}
    (ha : ∀ m : σ, Preserves (· = m) a) (hf : ∀ x, FailsClean σ excepted (f x)) :
    FailsClean σ excepted (a >>= f) := by
  intro s s' fault hfails hnot
  have hsame := ha s.store s rfl
  cases hr : a.outcome s with
  | mk r middle =>
    rw [hr] at hsame
    rw [outcome_bind hr] at hfails
    cases r with
    | ok x => exact (hf x middle s' fault hfails hnot).trans hsame
    | error other =>
      cases hfails
      exact hsame

end Building

/-! ## The changes -/

theorem failsOnly_keepPassword [TakesAll σ] (config : Config) (hash : RawText)
    (password : Option RawText) :
    FailsOnly σ (fun fault => lockFor config.salt password = .error fault)
      (keepPassword config hash password) := by
  unfold keepPassword lockFor
  cases given password with
  | none => exact failsOnly_pure _
  | some text =>
    cases hhash : Password.hash? config.salt text with
    | none =>
      intro s s' fault hfails
      simp only [hhash] at hfails ⊢
      cases hfails
      rfl
    | some stored =>
      simp only [hhash]
      exact failsOnly_ask _

section Changes

variable [Viewed σ] [TakesAll σ]

theorem create_failsClean (config : Config) (post message : RawText)
    (author password parent : Option RawText) :
    FailsClean σ (fun fault => lockFor config.salt password = .error fault)
      (create config post message author password parent) := by
  rw [create_eq]
  refine failsClean_bind (fun m => preserves_resolveGiven post parent) fun parent => ?_
  refine failsClean_bind (fun m => preserves_newHash mostAttempts) fun hash => ?_
  refine failsClean_bind (fun m => preserves_currentTime) fun created => ?_
  refine FailsOnly.failsClean ?_
  unfold writeNew
  refine failsOnly_bind (failsOnly_ask _) fun _ => ?_
  refine failsOnly_bind (failsOnly_ask _) fun _ => ?_
  exact failsOnly_bind (failsOnly_keepPassword config _ password) fun _ => failsOnly_pure _

theorem update_failsClean (hash password message : RawText) :
    FailsClean σ (fun _ => False) (update hash password message) := by
  unfold update
  refine failsClean_bind (fun m => preserves_authorize hash password) fun c => ?_
  refine failsClean_bind (fun m => preserves_currentTime) fun time => ?_
  exact (failsOnly_bind (failsOnly_ask _) fun _ => failsOnly_pure _).failsClean

theorem delete_failsClean (hash password : RawText) :
    FailsClean σ (fun _ => False) (delete hash password) := by
  unfold delete
  refine failsClean_bind (fun m => preserves_authorize hash password) fun c => ?_
  refine FailsOnly.failsClean (failsOnly_bind (failsOnly_ask _) fun _ => ?_)
  refine failsOnly_bind (failsOnly_ask _) fun _ => ?_
  exact failsOnly_bind (failsOnly_ask _) fun _ => failsOnly_pure _

end Changes

/-! ## The faults of a ledger -/

namespace Ledger

theorem onPost_fault {post hash : RawText} {comments : List Comment} {fault : Fault}
    (h : onPost post hash comments = .error fault) : fault = .notFound hash := by
  unfold onPost at h
  split at h
  · split at h
    · cases h
    · cases h
      rfl
  · cases h
    rfl

theorem attachGiven_fault {post : RawText} {parent : Option RawText} {comments : List Comment}
    {fault : Fault} (h : attachGiven post parent comments = .error fault) :
    ∃ hash, fault = .notFound hash := by
  have hattach {hash : RawText} (h : attach post hash comments = .error fault) :
      ∃ hash, fault = .notFound hash := by
    unfold attach at h
    cases hc : onPost post hash comments with
    | error other =>
      rw [hc] at h
      cases h
      exact ⟨hash, onPost_fault hc⟩
    | ok c =>
      simp only [hc] at h
      split at h
      · cases h
      · cases hroot : onPost post (c.parent.getD "") comments with
        | ok root =>
          rw [hroot] at h
          cases h
        | error other =>
          rw [hroot] at h
          cases h
          exact ⟨_, onPost_fault hroot⟩
  unfold attachGiven at h
  cases hgiven : given parent with
  | none =>
    rw [hgiven] at h
    cases h
  | some hash =>
    simp only [hgiven] at h
    cases hresult : attach post hash comments with
    | ok root =>
      rw [hresult] at h
      cases h
    | error other =>
      rw [hresult] at h
      cases h
      exact hattach hresult

/-- Where no hash is found, comments have all that were drawn. -/
theorem drawHash_fault {comments : List Comment} {attempts : Nat} {supply supply' : Supply}
    {fault : Fault} (h : drawHash comments attempts supply = (.error fault, supply')) :
    fault = .noFreshHash ∧ ∀ k < attempts, ∃ c, withHash? (Text.firstChars Comment.hashLength
      (supply.digits (supply.digitsDrawn + k))) comments = some c := by
  induction attempts generalizing supply with
  | zero =>
    cases h
    exact ⟨rfl, fun k hk => absurd hk (Nat.not_lt_zero k)⟩
  | succ attempts ih =>
    rw [drawHash] at h
    split at h
    next htaken =>
      obtain ⟨hfault, hrest⟩ := ih h
      refine ⟨hfault, fun k hk => ?_⟩
      cases k with
      | zero => exact Option.isSome_iff_exists.mp htaken
      | succ k =>
        have hnext := hrest k (Nat.lt_of_succ_lt_succ hk)
        simp only [Supply.nextDigits] at hnext
        rwa [Nat.add_assoc, Nat.add_comm 1 k] at hnext
    next => cases h

/-- Where comments have all hashes that are drawn, none is found. -/
theorem drawHash_of_taken {comments : List Comment} {attempts : Nat} {supply : Supply}
    (h : ∀ k < attempts, ∃ c, withHash? (Text.firstChars Comment.hashLength
      (supply.digits (supply.digitsDrawn + k))) comments = some c) :
    (drawHash comments attempts supply).1 = .error .noFreshHash := by
  induction attempts generalizing supply with
  | zero => rfl
  | succ attempts ih =>
    have hfirst : (withHash? (Text.firstChars Comment.hashLength supply.nextDigits.1)
        comments).isSome = true := Option.isSome_iff_exists.mpr (h 0 (Nat.succ_pos _))
    rw [drawHash]
    simp only [hfirst, if_true]
    refine ih fun k hk => ?_
    have hlater := h (k + 1) (Nat.succ_lt_succ hk)
    simp only [Supply.nextDigits]
    rwa [Nat.add_assoc, Nat.add_comm 1 k]

/-- A password has no hash because it cannot be encoded, or because the salt is none. -/
theorem lockFor_fault {salt : String} {password : Option RawText} {fault : Fault}
    (h : lockFor salt password = .error fault) :
    (fault = .notEncodable ∧ ∃ text ∈ password, text.isPlain = false) ∨
      (fault = .badSalt ∧ Password.Salt.ofText? salt = none) := by
  unfold lockFor at h
  split at h
  · cases h
  · next text hgiven =>
    split at h
    · cases h
    · next hnone =>
      cases h
      cases text with
      | plain s =>
        rw [Password.hash?_plain, Option.map_eq_none_iff] at hnone
        exact .inr ⟨rfl, hnone⟩
      | torn s half rest => exact .inl ⟨rfl, _, (given_eq_some_iff.mp hgiven).1, rfl⟩

/-- A password that can be encoded has a hash, if the salt is one. -/
theorem lockFor_ne_error {salt : String} (hsalt : (Password.Salt.ofText? salt).isSome = true)
    {password : Option RawText} (hplain : ∀ text ∈ password, text.isPlain = true) (fault : Fault) :
    lockFor salt password ≠ .error fault := by
  intro hlock
  rcases lockFor_fault hlock with ⟨-, text, htext, htorn⟩ | ⟨-, hnone⟩
  · rw [hplain text htext] at htorn
    cases htorn
  · rw [hnone] at hsalt
    cases hsalt

/-- A new comment that is not stored has a parent that is not there, finds no
hash that is free, or comes at a time that the calendar does not have. -/
theorem create_fault_of_unchanged {config : Config} {post message : RawText}
    {author password parent : Option RawText} {t : Site Ledger} {fault : Fault}
    (h : (create config post message author password parent t).1 = .error fault)
    (hstore : (create config post message author password parent t).2.store = t.store) :
    (∃ hash, fault = .notFound hash ∧ attachGiven post parent t.store.comments = .error fault) ∨
      (fault = .noFreshHash ∧ ∀ k < mostAttempts, ∃ c,
        withHash? (Text.firstChars Comment.hashLength
          (t.supply.digits (t.supply.digitsDrawn + k))) t.store.comments = some c) ∨
      (fault = .clockOutOfRange ∧ inRange t.supply.nextTime.1 = false) := by
  rw [create] at h hstore
  cases hparent : attachGiven post parent t.store.comments with
  | error other =>
    rw [hparent] at h
    cases h
    obtain ⟨hash, hfault⟩ := attachGiven_fault hparent
    exact .inl ⟨hash, hfault, rfl⟩
  | ok resolved =>
    have htime := nextTime_drawHash t.store.comments mostAttempts t.supply
    cases hdraw : drawHash t.store.comments mostAttempts t.supply with
    | mk r supply =>
      rw [hdraw] at htime
      simp only [hparent, hdraw] at h hstore
      cases r with
      | error other =>
        cases h
        exact .inr (.inl (drawHash_fault hdraw))
      | ok hash =>
        simp only at h hstore htime
        split at h
        next hrange =>
          rw [if_pos hrange] at hstore
          exact absurd hstore (List.cons_ne_self _ _)
        next hrange =>
          cases h
          rw [htime] at hrange
          exact .inr (.inr ⟨rfl, by simpa using hrange⟩)

/-- A new comment that is attached finds no hash exactly if comments have all that
are drawn for it. -/
theorem create_noFreshHash_iff {config : Config} {post message : RawText}
    {author password parent : Option RawText} {t : Site Ledger} :
    (create config post message author password parent t).1 = .error .noFreshHash ↔
      (∃ resolved, attachGiven post parent t.store.comments = .ok resolved) ∧
        ∀ k < mostAttempts, ∃ c, withHash? (Text.firstChars Comment.hashLength
          (t.supply.digits (t.supply.digitsDrawn + k))) t.store.comments = some c := by
  rw [create]
  cases hparent : attachGiven post parent t.store.comments with
  | error fault =>
    obtain ⟨hash, rfl⟩ := attachGiven_fault hparent
    simp
  | ok resolved =>
    cases hdraw : drawHash t.store.comments mostAttempts t.supply with
    | mk r supply =>
      cases r with
      | error fault =>
        obtain ⟨rfl, htaken⟩ := drawHash_fault hdraw
        exact iff_of_true rfl ⟨⟨resolved, rfl⟩, htaken⟩
      | ok hash =>
        refine iff_of_false (fun h => ?_) ?_
        · simp only at h
          split at h
          · cases hlock : lockFor config.salt password with
            | ok lock =>
              rw [hlock] at h
              cases h
            | error fault =>
              rw [hlock] at h
              cases h
              rcases lockFor_fault hlock with ⟨hfault, -⟩ | ⟨hfault, -⟩ <;> cases hfault
          · cases h
        · rintro ⟨-, htaken⟩
          have hnone := drawHash_of_taken htaken
          rw [hdraw] at hnone
          cases hnone

/-- A new comment fails because it is not stored, or because its password has no
hash. -/
theorem create_fault {config : Config} {post message : RawText}
    {author password parent : Option RawText} {t : Site Ledger} {fault : Fault}
    (h : (create config post message author password parent t).1 = .error fault) :
    (∃ hash, fault = .notFound hash) ∨ fault = .noFreshHash ∨
      (fault = .clockOutOfRange ∧ inRange t.supply.nextTime.1 = false) ∨
      lockFor config.salt password = .error fault := by
  obtain ⟨other, hfault, hstore⟩ | ⟨c, -, houtcome, -⟩ :=
    create_cases config post message author password parent t
  · rcases create_fault_of_unchanged h hstore with ⟨hash, hcase, -⟩ | ⟨hcase, -⟩ | hcase
    · exact .inl ⟨hash, hcase⟩
    · exact .inr (.inl hcase)
    · exact .inr (.inr (.inl hcase))
  · rw [houtcome] at h
    cases hlock : lockFor config.salt password with
    | ok lock =>
      rw [hlock] at h
      cases h
    | error other =>
      rw [hlock] at h
      cases h
      exact .inr (.inr (.inr rfl))

theorem authorize_fault {hash password : RawText} {l : Ledger} {fault : Fault}
    (h : authorize hash password l = .error fault) :
    fault = .notFound hash ∨ fault = .locked hash ∨ fault = refusal hash password := by
  unfold authorize at h
  split at h
  · cases h
    exact .inl rfl
  · cases h
    exact .inr (.inl rfl)
  · split at h
    · cases h
    · cases h
      exact .inr (.inr rfl)

theorem update_fault {hash password message : RawText} {t : Site Ledger} {fault : Fault}
    (h : (update hash password message t).1 = .error fault) :
    fault = .notFound hash ∨ fault = .locked hash ∨ fault = refusal hash password ∨
      (fault = .clockOutOfRange ∧ inRange t.supply.nextTime.1 = false) := by
  rw [update] at h
  cases hc : authorize hash password t.store with
  | error other =>
    rw [hc] at h
    cases h
    rcases authorize_fault hc with hfault | hfault | hfault
    · exact .inl hfault
    · exact .inr (.inl hfault)
    · exact .inr (.inr (.inl hfault))
  | ok c =>
    simp only [hc] at h
    split at h
    · cases h
    · next hrange =>
      cases h
      exact .inr (.inr (.inr ⟨rfl, by simpa using hrange⟩))

theorem delete_fault {hash password : RawText} {t : Site Ledger} {fault : Fault}
    (h : (delete hash password t).1 = .error fault) :
    fault = .notFound hash ∨ fault = .locked hash ∨ fault = refusal hash password := by
  rw [delete] at h
  cases hc : authorize hash password t.store with
  | error other =>
    rw [hc] at h
    cases h
    exact authorize_fault hc
  | ok c =>
    rw [hc] at h
    cases h

end Ledger

end CommentThreads.Store
