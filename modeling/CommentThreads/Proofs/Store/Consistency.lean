/-
CommentThreads.Proofs.Store.Consistency — how the three kinds of keys hang
together.

Indexes, records and passwords are written by separate calls. After any
operations they agree: an index holds a hash once, and exactly if the record
under it names that hash and that post; a password is kept for no hash that has
no record; nothing else is kept. It is kept exactly for the comments that are
there and were created with one, as long as no password has a lone half: then
the comment is stored before its password turns out to have no hash.
-/
import CommentThreads.Proofs.Store.History

namespace CommentThreads.Store

open Ledger

/-- A store whose indexes, records and passwords agree with each other and, if all
passwords of new comments can be encoded, with a log. -/
structure Consistent (m : Memory) (log : List Event) : Prop where
  index_nodup : ∀ post, (m.listAt (indexKey post)).Nodup
  index_iff : ∀ post hash, hash ∈ m.listAt (indexKey post) ↔
    ∃ record, m.valueAt? (recordKey hash) = some record ∧
      record.field? "commit_hash" = some (.text hash) ∧
      record.field? "post_id" = some (.text post)
  one_index : ∀ hash, m.valueAt? (recordKey hash) ≠ none →
    ∃ post, ∀ other, hash ∈ m.listAt (indexKey other) ↔ other = post
  password_record : ∀ hash, m.valueAt? (passwordKey hash) ≠ none →
    m.valueAt? (recordKey hash) ≠ none
  password_iff : (∀ e ∈ log, e.operation.PasswordEncodable) →
    ∀ hash, m.valueAt? (passwordKey hash) ≠ none ↔
      ∃ c ∈ live log, c.comment.hash = hash ∧
        ∃ password, c.password = some password ∧ password ≠ ""
  valueKeys : ∀ key, m.valueAt? key ≠ none →
    ∃ hash, key = recordKey hash ∨ key = passwordKey hash
  listKeys : ∀ key, m.listAt key ≠ [] → ∃ post, key = indexKey post

/-! ## Indexes and records -/

section Kept

variable {σ : Type} [KeyValue σ] [Viewed σ] {s : σ} {l : Ledger} (h : Keeps s l)
include h

theorem Keeps.index_nodup (post : RawText) : (Viewed.listAt s (indexKey post)).Nodup := by
  rw [h.index]
  exact h.distinct.sublist (List.filter_sublist.map Comment.hash)

/-- What is kept under a record's key is the record of the comment found. -/
theorem Keeps.record_eq_some {hash : RawText} {record : Json}
    (hrecord : Viewed.valueAt? s (recordKey hash) = some record) :
    ∃ c, withHash? hash l.comments = some c ∧ record = c.toJson := by
  rw [h.record] at hrecord
  obtain ⟨c, hc, rfl⟩ := Option.map_eq_some_iff.mp hrecord
  exact ⟨c, hc, rfl⟩

theorem Keeps.mem_index_iff (post hash : RawText) :
    hash ∈ Viewed.listAt s (indexKey post) ↔
      ∃ c, withHash? hash l.comments = some c ∧ c.post = post := by
  rw [h.index, List.mem_map]
  constructor
  · rintro ⟨c, hc, rfl⟩
    obtain ⟨hmem, hpost⟩ := List.mem_filter.mp hc
    exact ⟨c, withHash?_of_mem h.distinct hmem, of_decide_eq_true hpost⟩
  · rintro ⟨c, hc, rfl⟩
    exact ⟨c, List.mem_filter.mpr ⟨mem_of_withHash? hc, decide_eq_true rfl⟩, hash_of_withHash? hc⟩

theorem Keeps.index_iff (post hash : RawText) :
    hash ∈ Viewed.listAt s (indexKey post) ↔
      ∃ record, Viewed.valueAt? s (recordKey hash) = some record ∧
        record.field? "commit_hash" = some (.text hash) ∧
        record.field? "post_id" = some (.text post) := by
  rw [h.mem_index_iff]
  constructor
  · rintro ⟨c, hc, rfl⟩
    obtain ⟨hhash, hpost, -⟩ := Comment.fields_toJson c
    rw [hash_of_withHash? hc] at hhash
    exact ⟨c.toJson, by rw [h.record, hc, Option.map_some], hhash, hpost⟩
  · rintro ⟨record, hrecord, -, hpost⟩
    obtain ⟨c, hc, rfl⟩ := h.record_eq_some hrecord
    obtain ⟨-, hpost', -⟩ := Comment.fields_toJson c
    rw [hpost'] at hpost
    cases hpost
    exact ⟨c, hc, rfl⟩

theorem Keeps.one_index {hash : RawText} (hrecord : Viewed.valueAt? s (recordKey hash) ≠ none) :
    ∃ post, ∀ other, hash ∈ Viewed.listAt s (indexKey other) ↔ other = post := by
  obtain ⟨record, hrecord⟩ := Option.ne_none_iff_exists'.mp hrecord
  obtain ⟨c, hc, -⟩ := h.record_eq_some hrecord
  refine ⟨c.post, fun other => ?_⟩
  rw [h.mem_index_iff]
  constructor
  · rintro ⟨d, hd, rfl⟩
    rw [hc] at hd
    cases hd
    rfl
  · rintro rfl
    exact ⟨c, hc, rfl⟩

/-! ## Passwords -/

theorem Keeps.password_iff (hash : RawText) :
    Viewed.valueAt? s (passwordKey hash) ≠ none ↔
      ∃ p ∈ l, p.comment.hash = hash ∧ p.lock ≠ none := by
  rw [h.password, Ne, Option.map_eq_none_iff]
  constructor
  · intro hkept
    obtain ⟨stored, hstored⟩ := Option.ne_none_iff_exists'.mp hkept
    obtain ⟨p, hp, hlock⟩ := Option.bind_eq_some_iff.mp hstored
    obtain ⟨hmem, hhash⟩ := mem_of_posting? hp
    exact ⟨p, hmem, hhash, by simp [hlock]⟩
  · rintro ⟨p, hmem, rfl, hlock⟩
    rw [posting?_of_mem h.distinct hmem]
    exact hlock

theorem Keeps.password_record {hash : RawText}
    (hpassword : Viewed.valueAt? s (passwordKey hash) ≠ none) :
    Viewed.valueAt? s (recordKey hash) ≠ none := by
  obtain ⟨p, hmem, rfl, -⟩ := (h.password_iff hash).mp hpassword
  rw [h.record, withHash?_comments, posting?_of_mem h.distinct hmem]
  simp

end Kept

/-! ## Salts and passwords -/

/-- A comment whose password, if it was created with one, has a hash. -/
structure Creation.Lockable (c : Creation) : Prop where
  salt_isSome : (Password.Salt.ofText? c.salt).isSome = true
  isPlain_password : ∀ password ∈ c.password, password.isPlain = true

/-- A comment that an event created has the salt and the password of its operation. -/
theorem Event.lockable_of_creation? {e : Event} {c : Creation} (hcreation : e.creation? = some c)
    (hsalt : e.operation.SaltAccepted) (hpassword : e.operation.PasswordEncodable) :
    c.Lockable := by
  unfold Event.creation? at hcreation
  split at hcreation
  · cases hcreation
    exact ⟨hsalt, hpassword⟩
  · cases hcreation

theorem lockable_of_live {log : List Event} (hsalts : ∀ e ∈ log, e.operation.SaltAccepted)
    (hpasswords : ∀ e ∈ log, e.operation.PasswordEncodable) : ∀ c ∈ live log, c.Lockable := by
  induction log with
  | nil => simp [live]
  | cons e later ih =>
    have hlater := ih (fun e' he' => hsalts e' (List.mem_cons_of_mem _ he'))
      fun e' he' => hpasswords e' (List.mem_cons_of_mem _ he')
    rw [live]
    cases hcreation : e.creation? with
    | none => exact hlater
    | some k =>
      have hk := e.lockable_of_creation? hcreation (hsalts e List.mem_cons_self)
        (hpasswords e List.mem_cons_self)
      simp only
      split
      · exact hlater
      · intro c hc
        rcases List.mem_cons.mp hc with rfl | hc
        · exact ⟨by rw [salt_after]; exact hk.salt_isSome,
            by rw [password_after]; exact hk.isPlain_password⟩
        · exact hlater c hc

/-- Something is kept of every password that is not empty. -/
theorem Creation.lock_ne_none_iff {c : Creation} (h : c.Lockable) :
    c.posting.lock ≠ none ↔ ∃ password, c.password = some password ∧ password ≠ "" := by
  obtain ⟨salt, hsalt⟩ := Option.isSome_iff_exists.mp h.salt_isSome
  have hplain := h.isPlain_password
  rw [Creation.posting]
  cases hpassword : c.password with
  | none => simp [given]
  | some password =>
    obtain ⟨s, rfl⟩ := RawText.isPlain_iff.mp (hplain password hpassword)
    by_cases hempty : s = ""
    · simp [given, RawText.nonEmpty?, hempty]
    · simp [given, RawText.nonEmpty?, hempty, Password.hash?_plain, hsalt]

/-! ## After any operations -/

/-- Whatever operations a store has seen since it was empty, its keys agree. -/
theorem consistent_of_run (defaultAuthor : String) (supply : Supply) (ops : List Operation)
    (hsalts : ∀ op ∈ ops, op.SaltAccepted) :
    Consistent (run defaultAuthor ops ⟨Memory.empty, supply⟩).2.store
      (run defaultAuthor ops ⟨Memory.empty, supply⟩).1 := by
  have hops := operations_runWith (fun op => (op.action defaultAuthor).outcome) ops
    ⟨Memory.empty, supply⟩
  have hmem (op : Operation) : op ∈ ops ↔
      ∃ e ∈ (run defaultAuthor ops ⟨Memory.empty, supply⟩).1, e.operation = op := by
    rw [← List.mem_map]
    exact iff_of_eq (congrArg (op ∈ ·) hops.symm)
  obtain ⟨l, hkeeps, -⟩ := ledger_of_run (Prod.eta (run defaultAuthor ops ⟨Memory.empty, supply⟩))
    (fun _ _ => True) (fun _ _ _ _ _ => trivial) trivial
  exact {
    index_nodup := hkeeps.index_nodup
    index_iff := hkeeps.index_iff
    one_index := fun hash => hkeeps.one_index
    password_record := fun hash => hkeeps.password_record
    password_iff := by
      intro hpasswords hash
      have hpasswords' : ∀ op ∈ ops, op.PasswordEncodable := by
        intro op hop
        obtain ⟨e, he, rfl⟩ := (hmem op).mp hop
        exact hpasswords e he
      have hlockable := lockable_of_live
        (fun e he => hsalts e.operation ((hmem _).mpr ⟨e, he, rfl⟩)) hpasswords
      obtain ⟨l, hkeeps, htold⟩ :=
        told_of_run defaultAuthor supply hsalts hpasswords' (Prod.eta _).symm
      refine (hkeeps.password_iff hash).trans ⟨?_, ?_⟩
      · rintro ⟨p, hp, hhash, hlock⟩
        rw [htold.ledger, List.mem_reverse] at hp
        obtain ⟨c, hc, rfl⟩ := List.mem_map.mp hp
        exact ⟨c, hc, hhash, (Creation.lock_ne_none_iff (hlockable c hc)).mp hlock⟩
      · rintro ⟨c, hc, hhash, hpassword⟩
        refine ⟨c.posting, ?_, hhash, (Creation.lock_ne_none_iff (hlockable c hc)).mpr hpassword⟩
        rw [htold.ledger, List.mem_reverse]
        exact List.mem_map_of_mem hc
    valueKeys := hkeeps.valueKeys
    listKeys := hkeeps.listKeys }

/-- An answer and a failed removal leave both comments in the index. -/
theorem consistent_of_run_answered :
    let ops : List Operation :=
      [.create "$2b$04$abcdefghijklmnopqrstuu" "intro" "Hello" none none none,
        .create "$2b$04$abcdefghijklmnopqrstuu" "intro" "Hi" none none (some "0a1b2c3d"),
        .delete "0a1b2c3d" "guess"]
    let supply : Supply := ⟨fun n => if n = 0 then "0a1b2c3d" else "4e5f6071", fun _ => 0, 0, 0⟩
    (∀ op ∈ ops, op.SaltAccepted) ∧
      Consistent (run "Anonymous" ops ⟨Memory.empty, supply⟩).2.store
        (run "Anonymous" ops ⟨Memory.empty, supply⟩).1 ∧
      (run "Anonymous" ops ⟨Memory.empty, supply⟩).2.store.listAt (indexKey "intro") =
        (["4e5f6071", "0a1b2c3d"] : List RawText) := by
  intro ops supply
  have hsalts : ∀ op ∈ ops, op.SaltAccepted := by decide +kernel
  have hindex : (run "Anonymous" ops ⟨Memory.empty, supply⟩).2.store.listAt (indexKey "intro") =
      (["4e5f6071", "0a1b2c3d"] : List RawText) := by decide +kernel
  exact ⟨hsalts, consistent_of_run "Anonymous" supply ops hsalts, hindex⟩

end CommentThreads.Store
