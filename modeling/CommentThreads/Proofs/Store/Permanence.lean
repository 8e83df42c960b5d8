/-
CommentThreads.Proofs.Store.Permanence — a comment without a password is
there to stay.

`Sealed` says that a hash has a record, no password, and so many entries in
each index. Every operation preserves it, from any store whatever, and an
edit or a removal of that hash is refused. The other records of the store
may be broken, and the record of the hash may name another hash.
-/
import CommentThreads.Proofs.Record.Stored
import CommentThreads.Proofs.Store.Frame
import CommentThreads.Proofs.Store.Run

namespace CommentThreads.Store

open Ledger Time

variable {σ : Type} [KeyValue σ] [Viewed σ]

/-- A hash with its record, without a password, and with its entries in the
indexes. -/
structure Sealed (hash : RawText) (record : Json) (entries : RawText → Nat) (s : σ) : Prop where
  record_eq : Viewed.valueAt? s (recordKey hash) = some record
  password_eq : Viewed.valueAt? s (passwordKey hash) = none
  entries_eq : ∀ post, (Viewed.listAt s (indexKey post)).count hash = entries post

variable {hash : RawText} {record : Json} {entries : RawText → Nat}

/-! ## Calls for another hash -/

/-- A call that writes for a hash: its record, its password or its entries. -/
inductive WritesFor (hash : RawText) : Call → Prop
  | setRecord (value : Json) : WritesFor hash (.set (recordKey hash) value)
  | setPassword (value : Json) : WritesFor hash (.set (passwordKey hash) value)
  | prepend (post : RawText) : WritesFor hash (.prepend (indexKey post) hash)
  | remove (post : RawText) : WritesFor hash (.remove (indexKey post) hash)
  | deleteRecord : WritesFor hash (.delete (recordKey hash))
  | deletePassword : WritesFor hash (.delete (passwordKey hash))

/-- What is written for one hash leaves another one sealed: no two of their
keys are the same, and an index loses and gains only the entries written. -/
theorem Sealed.perform {other : RawText} {c : Call} (hc : WritesFor other c) (hne : other ≠ hash)
    {s : σ} (htakes : KeyValue.takes c.key s = true) (h : Sealed hash record entries s) :
    Sealed hash record entries (KeyValue.perform c s).2 := by
  obtain ⟨hrecord, hpassword, hentries⟩ := h
  have hne' := Ne.symm hne
  cases hc with
  | setRecord value =>
    simp only [Call.key] at htakes
    exact ⟨by simpa [htakes, hne'] using hrecord, by simpa [htakes] using hpassword,
      by simpa using hentries⟩
  | setPassword value =>
    simp only [Call.key] at htakes
    exact ⟨by simpa [htakes] using hrecord, by simpa [htakes, hne'] using hpassword,
      by simpa using hentries⟩
  | prepend post =>
    refine ⟨by simpa using hrecord, by simpa using hpassword, fun post' => ?_⟩
    rw [Viewed.listAt_prepend (indexKey post) _ _ _ htakes]
    by_cases hpost : indexKey post' = indexKey post
    · rw [if_pos hpost, List.count_cons_of_ne hne, ← hpost]
      exact hentries post'
    · rw [if_neg hpost]
      exact hentries post'
  | remove post =>
    refine ⟨by simpa using hrecord, by simpa using hpassword, fun post' => ?_⟩
    rw [Viewed.listAt_remove]
    by_cases hpost : indexKey post' = indexKey post
    · have hkept : decide (hash ≠ other) = true := decide_eq_true hne'
      rw [if_pos hpost, List.count_filter (p := fun item => decide (item ≠ other)) hkept, ← hpost]
      exact hentries post'
    · rw [if_neg hpost]
      exact hentries post'
  | deleteRecord =>
    exact ⟨by simpa [hne'] using hrecord, by simpa using hpassword, by simpa using hentries⟩
  | deletePassword =>
    exact ⟨by simpa using hrecord, by simpa [hne'] using hpassword, by simpa using hentries⟩

theorem preserves_write {other : RawText} {c : Call} (hc : WritesFor other c) (hne : other ≠ hash) :
    Preserves (σ := σ) (Sealed hash record entries) (ask c) :=
  preserves_ask fun _ htakes h => h.perform hc hne htakes

/-! ## Operations on another hash -/

theorem preserves_keepPassword {other : RawText} (hne : other ≠ hash) (config : Config)
    (password : Option RawText) :
    Preserves (σ := σ) (Sealed hash record entries) (keepPassword config other password) := by
  unfold keepPassword
  split
  · exact preserves_pure _
  · split
    · exact preserves_throw _
    · exact preserves_write (.setPassword _) hne

theorem preserves_update {other : RawText} (hne : other ≠ hash) (password message : RawText) :
    Preserves (σ := σ) (Sealed hash record entries) (update other password message) := by
  unfold update
  refine preserves_bind (preserves_authorize other password) fun c => ?_
  refine preserves_bind preserves_currentTime fun time => ?_
  exact preserves_bind (preserves_write (.setRecord _) hne) fun _ => preserves_pure _

theorem preserves_delete {other : RawText} (hne : other ≠ hash) (password : RawText) :
    Preserves (σ := σ) (Sealed hash record entries) (delete other password) := by
  unfold delete
  refine preserves_bind (preserves_authorize other password) fun c => ?_
  refine preserves_bind (preserves_write (.remove _) hne) fun _ => ?_
  refine preserves_bind (preserves_write .deleteRecord hne) fun _ => ?_
  exact preserves_bind (preserves_write .deletePassword hne) fun _ => preserves_pure _

theorem preserves_writeNew {c : Comment} (hne : c.hash ≠ hash) (config : Config)
    (password : Option RawText) :
    Preserves (σ := σ) (Sealed hash record entries) (writeNew config password c) := by
  unfold writeNew
  refine preserves_bind (preserves_write (.setRecord _) hne) fun _ => ?_
  refine preserves_bind (preserves_write (.prepend _) hne) fun _ => ?_
  exact preserves_bind (preserves_keepPassword hne config password) fun _ => preserves_pure _

/-- A new comment never gets a hash that has a record. -/
theorem preserves_create (config : Config) (post message : RawText)
    (author password parent : Option RawText) :
    Preserves (σ := σ) (Sealed hash record entries)
      (create config post message author password parent) := by
  rw [create_eq]
  refine preserves_bind (preserves_resolveGiven post parent) fun resolved => ?_
  intro s hs
  have hsealed := preserves_newHash mostAttempts s hs
  cases hr : (newHash mostAttempts).outcome s with
  | mk r s' =>
    rw [hr] at hsealed
    rw [outcome_bind hr]
    cases r with
    | error fault => exact hsealed
    | ok fresh =>
      have hne : fresh ≠ hash := by
        rintro rfl
        have hnone := newHash_fresh hr
        rw [hsealed.record_eq] at hnone
        cases hnone
      exact preserves_bind preserves_currentTime (fun _ => preserves_writeNew hne config password)
        s' hsealed

/-! ## Operations on the hash itself -/

/-- A value that is made only if needed can be had if making it goes well. -/
theorem outcome_unlessPresent {τ α : Type} [KeyValue τ] (key : String) (unused : α)
    {make : Action α} {s : Site τ}
    (hmake : record.field? key = none → ∃ x s', make.outcome s = (.ok x, s')) :
    ∃ x s', (unlessPresent key record unused make).outcome s = (.ok x, s') := by
  unfold unlessPresent
  cases hfield : record.field? key with
  | some value => exact ⟨unused, s, rfl⟩
  | none => exact hmake hfield

/-- A record that can be read is loaded, if the calendar has the times of the
clock wherever the record lacks a time of its own. -/
theorem loadRecord_ok {τ : Type} [KeyValue τ] {s : Site τ} (hrecord : Comment.IsRecord record)
    (hclock : record.field? "created_at" = none → ∀ n, inRange (s.supply.clock n) = true) :
    ∃ c s', (loadRecord record).outcome s = (.ok c, s') := by
  have hdraw : record.field? "commit_hash" = none →
      ∃ drawn s', freshHash.outcome s = (.ok drawn, s') :=
    fun _ => ⟨_, _, outcome_freshHash s⟩
  obtain ⟨fresh, s₁, hfresh⟩ := outcome_unlessPresent "commit_hash" (.plain "") hdraw
  have hnow : record.field? "created_at" = none →
      ∃ time s', currentTime.outcome s₁ = (.ok time, s') := by
    intro hnone
    have hrange := hclock hnone s₁.supply.clockRead
    rw [← clock_outcome hfresh] at hrange
    have htime := outcome_currentTime s₁
    rw [Supply.nextTime, if_pos hrange] at htime
    exact ⟨_, _, htime⟩
  obtain ⟨created, s₂, hcreated⟩ := outcome_unlessPresent "created_at" (.utc 0) hnow
  obtain ⟨c, hc⟩ := hrecord.reads fresh created
  obtain ⟨⟨fields, rfl⟩, -⟩ := hrecord
  exact ⟨c, s₂, outcome_loadRecord_object hfresh hcreated hc⟩

section Refused

variable [TakesAll σ] {s : Site σ} (h : Sealed hash record entries s.store)
  (hrecord : Comment.IsRecord record)
  (hclock : record.field? "created_at" = none → ∀ n, inRange (s.supply.clock n) = true)
include h hrecord hclock

/-- Whatever password is tried, there is none to compare it with. -/
theorem Sealed.outcome_authorize (password : RawText) :
    ∃ s', (authorize hash password).outcome s = (.error (.locked hash), s') ∧
      Sealed hash record entries s'.store := by
  obtain ⟨c, s', hload⟩ := loadRecord_ok hrecord hclock
  have hget : (ask (.get (recordKey hash))).outcome s = (.ok (some record), s) := by
    rw [outcome_ask, perform_get, h.record_eq]
  have hfind : (find hash).outcome s = (.ok (some c), s') := by
    rw [find, outcome_bind_ok hget, outcome_bind_ok hload]
    rfl
  have hsealed := preserves_find hash s h
  rw [hfind] at hsealed
  have hpassword : (ask (.get (passwordKey hash))).outcome s' = (.ok none, s') := by
    rw [outcome_ask, perform_get, hsealed.password_eq]
  refine ⟨s', ?_, hsealed⟩
  rw [authorize, outcome_bind_ok hfind, outcome_bind_ok hpassword]
  rfl

theorem Sealed.outcome_update (password message : RawText) :
    ∃ s', (update hash password message).outcome s = (.error (.locked hash), s') ∧
      Sealed hash record entries s'.store := by
  obtain ⟨s', hauthorize, hsealed⟩ := h.outcome_authorize hrecord hclock password
  exact ⟨s', by rw [update, outcome_bind hauthorize], hsealed⟩

theorem Sealed.outcome_delete (password : RawText) :
    ∃ s', (delete hash password).outcome s = (.error (.locked hash), s') ∧
      Sealed hash record entries s'.store := by
  obtain ⟨s', hauthorize, hsealed⟩ := h.outcome_authorize hrecord hclock password
  exact ⟨s', by rw [delete, outcome_bind hauthorize], hsealed⟩

end Refused

/-! ## After any operations -/

/-- An event that was refused, if it was an edit or a removal of a hash. -/
def Event.Refused (hash : RawText) : Event → Prop
  | ⟨.update other _ _, _, outcome⟩ => other = hash → outcome = .error (.locked hash)
  | ⟨.delete other _, _, outcome⟩ => other = hash → outcome = .error (.locked hash)
  | _ => True

variable [TakesAll σ]

theorem Sealed.step (defaultAuthor : String) (op : Operation) {s : Site σ}
    (h : Sealed hash record entries s.store) (hrecord : Comment.IsRecord record)
    (hclock : record.field? "created_at" = none → ∀ n, inRange (s.supply.clock n) = true) :
    Sealed hash record entries ((op.action defaultAuthor).outcome s).2.store ∧
      Event.Refused hash ⟨op, s.supply, ((op.action defaultAuthor).outcome s).1⟩ := by
  cases op with
  | create salt post message author password parent =>
    exact ⟨preserves_create _ post message author password parent s h, trivial⟩
  | update other password message =>
    by_cases hne : other = hash
    · subst hne
      obtain ⟨s', houtcome, hsealed⟩ := h.outcome_update hrecord hclock password message
      rw [Operation.action, houtcome]
      exact ⟨hsealed, fun _ => rfl⟩
    · exact ⟨preserves_update hne password message s h, fun heq => absurd heq hne⟩
  | delete other password =>
    by_cases hne : other = hash
    · subst hne
      obtain ⟨s', houtcome, hsealed⟩ := h.outcome_delete hrecord hclock password
      rw [Operation.action, houtcome]
      exact ⟨hsealed, fun _ => rfl⟩
    · exact ⟨preserves_delete hne password s h, fun heq => absurd heq hne⟩
  | find other => exact ⟨preserves_find other s h, trivial⟩
  | list post => exact ⟨preserves_list post s h, trivial⟩
  | threads post => exact ⟨preserves_threads post s h, trivial⟩

/-- A hash is sealed after a log, and was through all of it. -/
structure SealedThrough (hash : RawText) (record : Json) (entries : RawText → Nat)
    (clock : Nat → Int) (log : List Event) (s : Site σ) : Prop where
  still : Sealed hash record entries s.store
  clock_eq : s.supply.clock = clock
  refused : ∀ e ∈ log, e.Refused hash

theorem SealedThrough.step {clock : Nat → Int} {log : List Event} {s : Site σ}
    (h : SealedThrough hash record entries clock log s) (hrecord : Comment.IsRecord record)
    (hclock : record.field? "created_at" = none → ∀ n, inRange (clock n) = true)
    (defaultAuthor : String) (op : Operation) :
    SealedThrough hash record entries clock
      (log ++ [⟨op, s.supply, ((op.action defaultAuthor).outcome s).1⟩])
      ((op.action defaultAuthor).outcome s).2 := by
  have hclock' : record.field? "created_at" = none → ∀ n, inRange (s.supply.clock n) = true := by
    rw [h.clock_eq]
    exact hclock
  obtain ⟨hsealed, hrefused⟩ := h.still.step defaultAuthor op hrecord hclock'
  refine ⟨hsealed, (clock_outcome rfl).trans h.clock_eq, fun e he => ?_⟩
  rcases List.mem_append.mp he with he | he
  · exact h.refused e he
  · cases List.mem_singleton.mp he
    exact hrefused

/-- A comment without a password stays as it is, whatever is done to it and to
others: its record and its entries in the indexes are kept, it gets no
password, and every edit and removal of it is refused. The calendar has to
have the times of the clock only if the record lacks a time of its own. -/
theorem sealed_of_run (defaultAuthor : String) (m : Memory) (supply : Supply) (hash : RawText)
    (record : Json) (hkept : m.valueAt? (recordKey hash) = some record)
    (hrecord : Comment.IsRecord record) (hopen : m.valueAt? (passwordKey hash) = none)
    (hclock : record.field? "created_at" = none → ∀ n, inRange (supply.clock n) = true) :
    ∀ ops log site, run defaultAuthor ops ⟨m, supply⟩ = (log, site) →
      site.store.valueAt? (recordKey hash) = some record ∧
      site.store.valueAt? (passwordKey hash) = none ∧
      (∀ post, (site.store.listAt (indexKey post)).count hash =
        (m.listAt (indexKey post)).count hash) ∧
      ∀ e ∈ log, e.Refused hash := by
  intro ops log site hrun
  have hstart : SealedThrough hash record (fun post => (m.listAt (indexKey post)).count hash)
      supply.clock [] (⟨m, supply⟩ : Site Memory) :=
    ⟨⟨hkept, hopen, fun _ => rfl⟩, rfl, fun e he => nomatch he⟩
  have hend := run_induction (SealedThrough hash record _ supply.clock) ops
    (fun op _ log s h => h.step hrecord hclock defaultAuthor op) hstart
  rw [List.nil_append, ← run, hrun] at hend
  exact ⟨hend.still.record_eq, hend.still.password_eq, hend.still.entries_eq, hend.refused⟩

/-- A record that lacks all it may lack outlives an attempt to remove it and
the drawing of its hash for a new comment. -/
theorem sealed_of_run_bare :
    let hash : RawText := "0a1b2c3d"
    let record : Json := .object [("post_id", .text "intro"), ("message", .text "Hello")]
    let m : Memory := ⟨[(recordKey hash, record)], [(indexKey "intro", [hash])]⟩
    let supply : Supply := ⟨fun _ => "0a1b2c3d", fun _ => 0, 0, 0⟩
    let ops : List Operation := [.delete hash "guess", .create "" "intro" "Hi" none none none]
    let site := (run "Anonymous" ops ⟨m, supply⟩).2
    Comment.IsRecord record ∧
      site.store.valueAt? (recordKey hash) = some record ∧
      site.store.valueAt? (passwordKey hash) = none ∧
      (∀ post, (site.store.listAt (indexKey post)).count hash =
        (m.listAt (indexKey post)).count hash) ∧
      ∀ e ∈ (run "Anonymous" ops ⟨m, supply⟩).1, e.Refused hash := by
  intro hash record m supply ops site
  have hrecord : Comment.IsRecord record := ⟨⟨_, rfl⟩, "", .utc 0, _, rfl⟩
  have hkept : m.valueAt? (recordKey hash) = some record := rfl
  have hopen : m.valueAt? (passwordKey hash) = none := by decide +kernel
  have hzero : inRange 0 = true := by decide +kernel
  have hclock : record.field? "created_at" = none → ∀ n, inRange (supply.clock n) = true :=
    fun _ _ => hzero
  exact ⟨hrecord, sealed_of_run "Anonymous" m supply hash record hkept hrecord hopen hclock
    ops _ _ (Prod.eta _).symm⟩

end CommentThreads.Store
