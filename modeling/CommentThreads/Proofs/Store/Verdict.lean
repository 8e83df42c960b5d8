/-
CommentThreads.Proofs.Store.Verdict — what an operation tells about a password is the
outcome of its check.

* `Matches` — two runs have the same result and end at sites that are related; the
  rules for building actions say how that is carried through one.
* `verdict` — the outcome of the check of a password, where an operation comes to it.
* `update_congr`, `delete_congr` — with two passwords for which the check has the same
  outcome an operation does the same. `result_create` — what is answered for a new
  comment does not depend on its password, if that can be encoded.

The store may be of any kind, and hold anything.
-/
import CommentThreads.Proofs.Password.Salt
import CommentThreads.Proofs.Store.Outcome

namespace CommentThreads.Store

variable {σ α β : Type}

/-! ## Runs that match -/

/-- Two ends that have the same result, at sites that are related. -/
structure Matches (R : Site σ → Site σ → Prop) (run run' : α × Site σ) : Prop where
  result : run.1 = run'.1
  after : R run.2 run'.2

/-- Ends at the same site are the same. -/
theorem eq_of_matches {run run' : α × Site σ} (h : Matches Eq run run') : run = run' :=
  Prod.ext h.result h.after

section Building

variable [KeyValue σ] {R S : Site σ → Site σ → Prop} {site site' : Site σ}

theorem matches_pure (h : R site site') (x : α) :
    Matches R ((pure x : Action α).outcome site) ((pure x : Action α).outcome site') :=
  ⟨rfl, h⟩

theorem matches_throw (h : R site site') (fault : Fault) :
    Matches R ((throw fault : Action α).outcome site) ((throw fault : Action α).outcome site') :=
  ⟨rfl, h⟩

theorem matches_bind {a a' : Action α} {f f' : α → Action β}
    (ha : Matches R (a.outcome site) (a'.outcome site'))
    (hf : ∀ x after after', R after after' →
      Matches R ((f x).outcome after) ((f' x).outcome after')) :
    Matches R ((a >>= f).outcome site) ((a' >>= f').outcome site') := by
  obtain ⟨hresult, hafter⟩ := ha
  cases hr : a.outcome site with
  | mk r after =>
    cases hr' : a'.outcome site' with
    | mk r' after' =>
      rw [hr, hr'] at hresult hafter
      rw [outcome_bind hr, outcome_bind hr']
      cases hresult
      cases r with
      | ok x => exact hf x after after' hafter
      | error fault => exact ⟨rfl, hafter⟩

/-- What is done first in both does not matter. -/
theorem matches_after (hrefl : ∀ site, R site site) (a : Action α) {f f' : α → Action β}
    (hf : ∀ x after, Matches R ((f x).outcome after) ((f' x).outcome after)) (site : Site σ) :
    Matches R ((a >>= f).outcome site) ((a >>= f').outcome site) := by
  cases hr : a.outcome site with
  | mk r after =>
    rw [outcome_bind hr, outcome_bind hr]
    cases r with
    | ok x => exact hf x after
    | error fault => exact ⟨rfl, hrefl after⟩

end Building

/-! ## Checking a password -/

/-- Whether what is held for a password accepts another one. -/
def accepts (password : RawText) (stored : Json) : Bool :=
  match passes password stored with
  | .ok b => b
  | .error _ => false

/-- The outcome of the check of a password for a comment, if it comes to that: there is
the comment, and it has a password. -/
def verdict [KeyValue σ] (hash password : RawText) (site : Site σ) : Option Bool :=
  match (find hash).outcome site with
  | (.ok (some _), after) =>
    (KeyValue.perform (.get (passwordKey hash)) after.store).1.map (accepts password)
  | _ => none

/-- A text that is the hash of some password under some salt. -/
def IsHash (stored : String) : Prop :=
  ∃ (salt : String) (password : RawText), Password.hash? salt password = some stored

/-- A salt is taken or refused whatever the password is, if it can be encoded. -/
theorem hash?_cases (salt : String) {password password' : RawText}
    (hplain : password.isPlain = password'.isPlain) :
    (Password.hash? salt password = none ∧ Password.hash? salt password' = none) ∨
      ∃ stored stored', Password.hash? salt password = some stored ∧
        Password.hash? salt password' = some stored' := by
  cases password with
  | plain s =>
    obtain ⟨s', rfl⟩ := RawText.isPlain_iff.mp hplain.symm
    rw [Password.hash?_plain, Password.hash?_plain]
    cases Password.Salt.ofText? salt with
    | none => exact .inl ⟨rfl, rfl⟩
    | some salt => exact .inr ⟨_, _, rfl, rfl⟩
  | torn s half rest =>
    cases password' with
    | plain s' => cases hplain
    | torn s' half' rest' => exact .inl ⟨rfl, rfl⟩

/-- Whether the check has an outcome is a matter of what is held, unless no password is
given or it cannot be encoded. -/
theorem passes_congr {password password' : RawText} (hne : password ≠ "") (hne' : password' ≠ "")
    (hplain : password.isPlain = password'.isPlain) {stored : Json}
    (h : accepts password stored = accepts password' stored) :
    passes password stored = passes password' stored := by
  cases stored with
  | text stored =>
    unfold accepts passes at h
    unfold passes
    simp only [if_neg hne, if_neg hne', unhashed, hplain] at h ⊢
    cases stored with
    | torn s half rest => rfl
    | plain stored =>
      rw [Password.verify?_plain, Password.verify?_plain] at h ⊢
      rcases hash?_cases stored hplain with ⟨hnone, hnone'⟩ | ⟨kept, kept', hkept, hkept'⟩
      · simp [hnone, hnone']
      · simp only [hkept, hkept', Option.map_some] at h ⊢
        exact congrArg Except.ok h
  | _ =>
    unfold passes
    rw [if_neg hne, if_neg hne']

/-- Only the bytes of a password that are hashed count. -/
theorem accepts_of_bytes {password password' : String} (hne : password ≠ "") (hne' : password' ≠ "")
    (h : Password.passwordBytes password = Password.passwordBytes password') :
    accepts password = accepts password' := by
  funext stored
  have hfault : unhashed password = unhashed password' := rfl
  unfold accepts passes
  simp only [RawText.plain.injEq, hne, hne', if_false, hfault]
  cases stored with
  | text stored =>
    cases stored with
    | torn s half rest => rfl
    | plain stored => simp only [Password.verify?_plain, Password.hash?_plain, h]
  | _ => rfl

theorem verdict_of_accepts [KeyValue σ] {password password' : RawText}
    (h : accepts password = accepts password') (hash : RawText) (site : Site σ) :
    verdict hash password site = verdict hash password' site := by
  rw [verdict, verdict, h]

section Checking

variable [KeyValue σ] {hash password password' : RawText} {site : Site σ}

theorem authorize_congr (hne : password ≠ "") (hne' : password' ≠ "")
    (hplain : password.isPlain = password'.isPlain)
    (h : verdict hash password site = verdict hash password' site) :
    (authorize hash password).outcome site = (authorize hash password').outcome site := by
  unfold verdict at h
  unfold authorize
  cases hf : (find hash).outcome site with
  | mk r after =>
    rw [hf] at h
    rw [outcome_bind hf, outcome_bind hf]
    cases r with
    | error fault => rfl
    | ok found =>
      cases found with
      | none => rfl
      | some c =>
        have hget := outcome_ask_eq (.get (passwordKey hash)) after
        split at hget
        · simp only [outcome_bind_ok hget]
          simp only at h
          have hheld : (after.perform (.get (passwordKey hash))).1 =
              (KeyValue.perform (.get (passwordKey hash)) after.store).1 := rfl
          rw [hheld]
          generalize (KeyValue.perform (.get (passwordKey hash)) after.store).1 = held at h ⊢
          cases held with
          | none => rfl
          | some stored =>
            have hpasses := passes_congr hne hne' hplain (Option.some.inj h)
            simp only [hpasses]
        · simp only [outcome_bind hget]

theorem update_congr (hne : password ≠ "") (hne' : password' ≠ "")
    (hplain : password.isPlain = password'.isPlain)
    (h : verdict hash password site = verdict hash password' site) (message : RawText) :
    (update hash password message).outcome site = (update hash password' message).outcome site := by
  refine eq_of_matches (matches_bind ⟨?_, ?_⟩ ?_)
  · rw [authorize_congr hne hne' hplain h]
  · rw [authorize_congr hne hne' hplain h]
  · rintro c after _ rfl
    exact ⟨rfl, rfl⟩

theorem delete_congr (hne : password ≠ "") (hne' : password' ≠ "")
    (hplain : password.isPlain = password'.isPlain)
    (h : verdict hash password site = verdict hash password' site) :
    (delete hash password).outcome site = (delete hash password').outcome site := by
  refine eq_of_matches (matches_bind ⟨?_, ?_⟩ ?_)
  · rw [authorize_congr hne hne' hplain h]
  · rw [authorize_congr hne hne' hplain h]
  · rintro c after _ rfl
    exact ⟨rfl, rfl⟩

end Checking

/-! ## Creating a comment -/

/-- Two passwords are both given, or both not: an empty one is not. Both can be encoded,
or neither can. -/
def GivenAlike (password password' : Option RawText) : Prop :=
  (given password).map RawText.isPlain = (given password').map RawText.isPlain

/-- What is done to keep a password: nothing, with the same end, or a hash of each is
stored. -/
theorem keepPassword_cases (config : Config) (hash : RawText) {password password' : Option RawText}
    (hgiven : GivenAlike password password') :
    (∃ ended : Except Fault Unit, keepPassword config hash password = ExceptT.mk (pure ended) ∧
      keepPassword config hash password' = ExceptT.mk (pure ended)) ∨
      ∃ stored stored', IsHash stored ∧ IsHash stored' ∧
        keepPassword config hash password = ask (.set (passwordKey hash) (.text stored)) ∧
        keepPassword config hash password' = ask (.set (passwordKey hash) (.text stored')) := by
  unfold GivenAlike at hgiven
  unfold keepPassword
  cases hp : given password with
  | none =>
    rw [hp] at hgiven
    have hp' : given password' = none := by simpa using hgiven.symm
    rw [hp']
    exact .inl ⟨.ok (), rfl, rfl⟩
  | some p =>
    rw [hp] at hgiven
    obtain ⟨p', hp', hplain⟩ := Option.map_eq_some_iff.mp hgiven.symm
    rw [hp']
    rcases hash?_cases config.salt hplain.symm with
      ⟨hnone, hnone'⟩ | ⟨stored, stored', hsome, hsome'⟩
    · simp only [hnone, hnone', unhashed, hplain]
      exact .inl ⟨.error (unhashed p), rfl, rfl⟩
    · refine .inr ⟨stored, stored', ⟨_, _, hsome⟩, ⟨_, _, hsome'⟩, ?_⟩
      simp only [hsome, hsome', and_self]

/-- What is answered for a new comment does not depend on its password. -/
theorem result_create [KeyValue σ] (config : Config) (post message : RawText)
    (author parent : Option RawText) {password password' : Option RawText}
    (hgiven : GivenAlike password password') (site : Site σ) :
    ((create config post message author password parent).outcome site).1 =
      ((create config post message author password' parent).outcome site).1 := by
  have hrefl (site : Site σ) : (fun _ _ : Site σ => True) site site := trivial
  refine Matches.result (R := fun _ _ => True) ?_
  refine matches_after hrefl _ (fun parent after => ?_) site
  refine matches_after hrefl _ (fun hash after => ?_) after
  refine matches_after hrefl _ (fun created after => ?_) after
  refine matches_after hrefl _ (fun _ after => ?_) after
  refine matches_after hrefl _ (fun _ after => ?_) after
  refine matches_bind ?_ fun _ _ _ _ => ⟨rfl, trivial⟩
  rcases keepPassword_cases config hash hgiven with
    ⟨ended, hkeep, hkeep'⟩ | ⟨stored, stored', -, -, hkeep, hkeep'⟩
  · rw [hkeep, hkeep']
    exact ⟨rfl, trivial⟩
  · rw [hkeep, hkeep']
    refine ⟨?_, trivial⟩
    have hset := outcome_ask_eq (.set (passwordKey hash) (.text stored)) after
    have hset' := outcome_ask_eq (.set (passwordKey hash) (.text stored')) after
    split at hset <;> simp_all [Call.key]

end CommentThreads.Store
