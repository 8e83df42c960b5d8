/-
CommentThreads.Proofs.Store.Removal — what was removed stays away, unless its
hash is drawn again.

Hashes are drawn at random, and only those of comments that are there are drawn
again. So nothing but luck keeps the hash of a removed comment from being given
to another one. `NeverRedrawn` says of a log that it had this luck, and
`Gone.step` that then no comment has a removed hash.
-/
import CommentThreads.Proofs.Store.History

namespace CommentThreads.Store

open Ledger

/-! ## Draws -/

/-- No hash that is drawn after a removal is the removed one. -/
def NeverRedrawn (log : List Event) (supply : Supply) : Prop :=
  ∀ e ∈ log, ∀ hash, e.removes hash = true → ∀ k, e.supply.digitsDrawn ≤ k →
    k < supply.digitsDrawn → Text.firstChars Comment.hashLength (supply.digits k) ≠ hash

/-- What is drawn later is drawn from the same numbers. -/
structure Supply.Later (earlier later : Supply) : Prop where
  digits_eq : later.digits = earlier.digits
  drawn_le : earlier.digitsDrawn ≤ later.digitsDrawn

theorem Supply.later_refl (s : Supply) : s.Later s := ⟨rfl, Nat.le_refl _⟩

theorem later_drawHash (comments : List Comment) (attempts : Nat) (supply : Supply) :
    supply.Later (drawHash comments attempts supply).2 := by
  induction attempts generalizing supply with
  | zero => exact supply.later_refl
  | succ attempts ih =>
    have hnext : supply.Later supply.nextDigits.2 := ⟨rfl, Nat.le_succ _⟩
    simp only [drawHash]
    split
    · have hrest := ih supply.nextDigits.2
      exact ⟨hrest.digits_eq.trans hnext.digits_eq, Nat.le_trans hnext.drawn_le hrest.drawn_le⟩
    · exact hnext

/-- A hash that was drawn is one of the numbers that were drawn for it. -/
theorem drawn_of_drawHash {comments : List Comment} {attempts : Nat} {supply supply' : Supply}
    {hash : RawText} (h : drawHash comments attempts supply = (.ok hash, supply')) :
    ∃ k, supply.digitsDrawn ≤ k ∧ k < supply'.digitsDrawn ∧
      hash = Text.firstChars Comment.hashLength (supply.digits k) := by
  induction attempts generalizing supply with
  | zero => cases h
  | succ attempts ih =>
    rw [drawHash] at h
    split at h
    · obtain ⟨k, hle, hlt, hhash⟩ := ih h
      exact ⟨k, Nat.le_of_succ_le hle, hlt, hhash⟩
    · cases h
      exact ⟨supply.digitsDrawn, Nat.le_refl _, Nat.lt_succ_self _, rfl⟩

/-- What a new comment draws is drawn for its hash. -/
theorem supply_create (config : Config) (post message : RawText)
    (author password parent : Option RawText) (t : Site Ledger) :
    t.supply.Later (Ledger.create config post message author password parent t).2.supply := by
  rw [Ledger.create]
  cases attachGiven post parent t.store.comments with
  | error fault => exact t.supply.later_refl
  | ok resolved =>
    have hlater := later_drawHash t.store.comments mostAttempts t.supply
    cases hdraw : drawHash t.store.comments mostAttempts t.supply with
    | mk r supply =>
      rw [hdraw] at hlater
      cases r with
      | error fault => exact hlater
      | ok hash =>
        simp only
        split
        · exact ⟨hlater.digits_eq, hlater.drawn_le⟩
        · exact ⟨hlater.digits_eq, hlater.drawn_le⟩

theorem drawn_of_isNew {config : Config} {post message : RawText} {author parent : Option RawText}
    (password : Option RawText) {t : Site Ledger} {c : Comment}
    (h : IsNew config.defaultAuthor post message author parent t.supply t.store.comments c) :
    ∃ k, t.supply.digitsDrawn ≤ k ∧
      k < (Ledger.create config post message author password parent t).2.supply.digitsDrawn ∧
      c.hash = Text.firstChars Comment.hashLength (t.supply.digits k) := by
  have hhash := h.hash_eq
  rw [Ledger.create, h.parent_eq]
  cases hdraw : drawHash t.store.comments mostAttempts t.supply with
  | mk r supply =>
    rw [hdraw] at hhash
    cases hhash
    obtain ⟨k, hle, hlt, hk⟩ := drawn_of_drawHash hdraw
    refine ⟨k, hle, ?_, hk⟩
    simp only
    split
    · exact hlt
    · exact hlt

theorem later_onLedger (defaultAuthor : String) (op : Operation) (t : Site Ledger) :
    t.supply.Later (op.onLedger defaultAuthor t).2.supply := by
  have hrefl := t.supply.later_refl
  cases op with
  | create salt post message author password parent =>
    exact supply_create ⟨defaultAuthor, salt⟩ post message author password parent t
  | update hash password message =>
    rw [Operation.onLedger, Ledger.update]
    cases Ledger.authorize hash password t.store with
    | error fault => exact hrefl
    | ok c =>
      simp only
      split
      · exact ⟨rfl, Nat.le_refl _⟩
      · exact ⟨rfl, Nat.le_refl _⟩
  | delete hash password =>
    rw [Operation.onLedger, Ledger.delete]
    cases Ledger.authorize hash password t.store with
    | error fault => exact hrefl
    | ok c => exact hrefl
  | find hash => exact hrefl
  | list post => exact hrefl
  | threads post => exact hrefl

/-- What was removed is gone, if its hash was not drawn again. -/
structure Gone (log : List Event) (t : Site Ledger) : Prop where
  drawn_le : ∀ e ∈ log, e.supply.digitsDrawn ≤ t.supply.digitsDrawn
  gone : NeverRedrawn log t.supply → ∀ e ∈ log, ∀ hash, e.removes hash = true →
    withHash? hash t.store.comments = none

theorem gone_nil (supply : Supply) : Gone [] ⟨[], supply⟩ where
  drawn_le e he := by simp at he
  gone _ e he := by simp at he

theorem NeverRedrawn.earlier {log : List Event} {e : Event} {supply supply' : Supply}
    (h : NeverRedrawn (log ++ [e]) supply') (hlater : supply.Later supply') :
    NeverRedrawn log supply := by
  intro e' he' hash hremoves k hle hlt
  rw [← hlater.digits_eq]
  have hlt' := Nat.lt_of_lt_of_le hlt hlater.drawn_le
  exact h e' (List.mem_append_left _ he') hash hremoves k hle hlt'

/-- One more operation keeps what was removed gone if its comments have no
removed hash. -/
theorem Gone.concat {log : List Event} {t t' : Site Ledger} {e : Event} (h : Gone log t)
    (hsupply : e.supply = t.supply) (hlater : t.supply.Later t'.supply)
    (hkept : ∀ hash, withHash? hash t.store.comments = none →
      NeverRedrawn (log ++ [e]) t'.supply → (∃ e' ∈ log, e'.removes hash = true) →
        withHash? hash t'.store.comments = none)
    (hnew : ∀ hash, e.removes hash = true → withHash? hash t'.store.comments = none) :
    Gone (log ++ [e]) t' where
  drawn_le e' he' := by
    rcases List.mem_append.mp he' with he' | he'
    · exact Nat.le_trans (h.drawn_le e' he') hlater.drawn_le
    · cases List.mem_singleton.mp he'
      rw [hsupply]
      exact hlater.drawn_le
  gone hfresh e' he' hash hremoves := by
    rcases List.mem_append.mp he' with he' | he'
    · exact hkept hash (h.gone (hfresh.earlier hlater) e' he' hash hremoves) hfresh
        ⟨e', he', hremoves⟩
    · cases List.mem_singleton.mp he'
      exact hnew hash hremoves

theorem Gone.unchanged {log : List Event} {t t' : Site Ledger} {e : Event} (h : Gone log t)
    (hsupply : e.supply = t.supply) (hlater : t.supply.Later t'.supply)
    (hremoves : ∀ hash, e.removes hash = false)
    (hstore : ∀ hash, withHash? hash t.store.comments = none →
      withHash? hash t'.store.comments = none) :
    Gone (log ++ [e]) t' := by
  refine h.concat hsupply hlater (fun hash hnone _ _ => hstore hash hnone) fun hash hremoved => ?_
  rw [hremoves hash] at hremoved
  cases hremoved

theorem Gone.step {defaultAuthor : String} (op : Operation) {log : List Event} {t : Site Ledger}
    (h : Gone log t) :
    Gone (log ++ [⟨op, t.supply, (op.onLedger defaultAuthor t).1⟩])
      (op.onLedger defaultAuthor t).2 := by
  have hlater := later_onLedger defaultAuthor op t
  cases op with
  | create salt post message author password parent =>
    refine h.concat rfl hlater (fun hash hnone hfresh hremoved => ?_) fun hash hremoves => ?_
    · rw [Operation.onLedger] at hfresh ⊢
      obtain ⟨fault, -, hstore⟩ | ⟨c, hnew, -, hstore⟩ :=
        create_cases ⟨defaultAuthor, salt⟩ post message author password parent t
      · rw [hstore]
        exact hnone
      · obtain ⟨e, he, hremoves⟩ := hremoved
        obtain ⟨k, hle, hlt, hk⟩ := drawn_of_isNew password hnew
        have hne : c.hash ≠ hash := by
          rw [hk]
          have hdrawn := hfresh e (List.mem_append_left _ he) hash hremoves k
            (Nat.le_trans (h.drawn_le e he) hle) hlt
          have hdigits := hlater.digits_eq
          rw [Operation.onLedger] at hdigits
          rw [← hdigits]
          exact hdrawn
        rw [hstore, comments_cons, withHash?_cons, if_neg hne]
        exact hnone
    · cases hremoves
  | update hash password message =>
    refine h.unchanged rfl hlater (fun _ => rfl) fun other hnone => ?_
    rw [Operation.onLedger]
    obtain ⟨fault, -, hstore⟩ | ⟨c, -, -, hstore⟩ := update_cases hash password message t
    · rw [hstore]
      exact hnone
    · rw [hstore, withHash?_edit, hnone]
      split <;> rfl
  | delete hash password =>
    rw [Operation.onLedger] at hlater ⊢
    obtain ⟨fault, houtcome, hstore⟩ | ⟨c, -, houtcome, hstore⟩ := delete_cases hash password t
    · rw [houtcome]
      refine h.unchanged rfl hlater (fun _ => rfl) fun other hnone => ?_
      rw [hstore]
      exact hnone
    · rw [houtcome]
      refine h.concat rfl hlater (fun other hnone _ _ => ?_) fun other hremoves => ?_
      · rw [hstore, withHash?_comments, posting?_remove]
        split
        · rfl
        · rw [← withHash?_comments, hnone]
      · have hother : other = hash := (of_decide_eq_true hremoves).symm
        rw [hstore, withHash?_comments, posting?_remove, if_pos hother]
        rfl
  | find hash => exact h.unchanged rfl hlater (fun _ => rfl) fun _ hnone => hnone
  | list post => exact h.unchanged rfl hlater (fun _ => rfl) fun _ hnone => hnone
  | threads post => exact h.unchanged rfl hlater (fun _ => rfl) fun _ hnone => hnone

/-- An event removes only the hash that its operation names. -/
theorem hash_of_removes {e : Event} {hash : RawText} (h : e.removes hash = true) :
    ∃ password, e.operation = .delete hash password := by
  unfold Event.removes at h
  split at h
  · next other password _ _ =>
    rw [← of_decide_eq_true h]
    exact ⟨password, rfl⟩
  · cases h

/-- A removal draws nothing, so after the first one no removed hash was drawn
again. -/
theorem neverRedrawn_of_first_removal (defaultAuthor : String) (supply : Supply)
    {before ops : List Operation} {hash password : RawText}
    (hops : ops = before ++ [.delete hash password])
    (hkept : ∀ hash password, Operation.delete hash password ∉ before) :
    NeverRedrawn (run defaultAuthor ops ⟨Memory.empty, supply⟩).1
      (run defaultAuthor ops ⟨Memory.empty, supply⟩).2.supply := by
  subst hops
  obtain ⟨t, hat, -⟩ : ∃ t, KeepsAt (run defaultAuthor before ⟨Memory.empty, supply⟩).2 t ∧ True :=
    ledgerAt_of_run (Prod.eta _).symm (fun _ _ => True) (fun _ _ _ _ _ => trivial) trivial
  have hremoval := (operation_refines defaultAuthor (.delete hash password) _ t hat).2.supply
  have hdrawn :
      (Operation.onLedger defaultAuthor (.delete hash password) t).2.supply = t.supply := by
    rw [Operation.onLedger, Ledger.delete]
    split <;> rfl
  rw [hdrawn, ← hat.supply] at hremoval
  rw [run_append]
  intro e he removed hremoves k hle hlt
  have hlt' : k < (run defaultAuthor before ⟨Memory.empty, supply⟩).2.supply.digitsDrawn := by
    rw [← hremoval]
    exact hlt
  rcases List.mem_append.mp he with he | he
  · obtain ⟨password', hop⟩ := hash_of_removes hremoves
    have hmem : e.operation ∈ before := by
      rw [← operations_runWith (fun op => (op.action defaultAuthor).outcome) before
        ⟨Memory.empty, supply⟩]
      exact List.mem_map_of_mem he
    rw [hop] at hmem
    exact absurd hmem (hkept removed password')
  · cases List.mem_singleton.mp he
    exact absurd hlt' (Nat.not_lt_of_le hle)

end CommentThreads.Store
