/-
CommentThreads.Proofs.Store.Rereading — a record is read as what was written, so edits
leave the rest of a comment as it is.

An edit reads the whole record, changes two fields of it and writes it all again. The
other fields stay because nothing is lost on the way: the times are written to the
microsecond, and no field is missing that would be made up (`outcome_loadRecord`).

* `SameOrigin` — what edits leave alone: the hash, the post, the author, the parent and
  the time of creation.
* `Descended` — under a hash there is what edits have made of a comment. Every operation
  preserves it, but for a removal of that hash that goes well (`Descended.step`).

`reread_of_dated` is the result. The other records of the store may be broken, and the
record under the hash may name another one.
-/
import CommentThreads.Proofs.Store.Crash

namespace CommentThreads.Store

open Ledger Time

variable {σ : Type} [KeyValue σ] [Viewed σ]

/-- The second of two comments has all of the first that edits leave alone. -/
structure SameOrigin (c d : Comment) : Prop where
  hash_eq : d.hash = c.hash
  post_eq : d.post = c.post
  author_eq : d.author = c.author
  parent_eq : d.parent = c.parent
  created_eq : d.created = c.created

theorem SameOrigin.refl (c : Comment) : SameOrigin c c := ⟨rfl, rfl, rfl, rfl, rfl⟩

theorem SameOrigin.edited {c d : Comment} (h : SameOrigin c d) (message : RawText)
    (time : DateTime) : SameOrigin c (edited message time d) :=
  ⟨h.hash_eq, h.post_eq, h.author_eq, h.parent_eq, h.created_eq⟩

/-- Under a hash there is what edits have made of a comment. -/
def Descended (hash : RawText) (c : Comment) (s : σ) : Prop :=
  ∃ d : Comment, d.Dated ∧ SameOrigin c d ∧
    Viewed.valueAt? s (recordKey hash) = some d.toJson

/-- A removal of a hash that went well. -/
def Event.Removes (hash : RawText) : Event → Prop
  | ⟨.delete other _, _, .ok _⟩ => other = hash
  | _ => False

/-- What an edit of a hash answers, and what is found there, has all that edits leave
alone of a comment. It is always found. -/
def Event.ShowsOrigin (hash : RawText) (c : Comment) : Event → Prop
  | ⟨.update other _ _, _, .ok d⟩ => other = hash → SameOrigin c d
  | ⟨.find other, _, outcome⟩ => other = hash → ∃ d, outcome = .ok (some d) ∧ SameOrigin c d
  | _ => True

/-! ## One operation -/

variable {hash : RawText} {c : Comment} {s : Site σ}

/-- Who is authorized gets what is stored. -/
theorem authorized_of_record {d e : Comment} {password : RawText} {s' : Site σ} (hdated : d.Dated)
    (hrecord : Viewed.valueAt? s.store (recordKey hash) = some d.toJson)
    (h : (authorize hash password).outcome s = (.ok e, s')) : e = d := by
  have hget : (ask (.get (passwordKey hash))).outcome s =
      (.ok (Viewed.valueAt? s.store (passwordKey hash)), s) := by
    rw [outcome_ask_taken (taken_of_authorized h).2, perform_get]
  rw [authorize, outcome_bind_ok (find_of_record hdated hrecord)] at h
  simp only at h
  rw [outcome_bind_ok hget] at h
  split at h
  · cases h
  · next stored _ =>
    split at h
    · cases h
    · have hcheck : Action.outcome (ExceptT.mk (pure (passes password stored))) s =
          (passes password stored, s) := rfl
      rw [outcome_bind hcheck] at h
      cases hpasses : passes password stored with
      | error fault =>
        rw [hpasses] at h
        cases h
      | ok passed =>
        rw [hpasses] at h
        cases passed with
        | true =>
          cases h
          rfl
        | false => cases h

/-- What is neither edited nor removed by an operation keeps its record. -/
theorem record_of_other (defaultAuthor : String) {op : Operation} {record : Json}
    (htarget : op.target? ≠ some hash)
    (hrecord : Viewed.valueAt? s.store (recordKey hash) = some record) :
    Viewed.valueAt? ((op.action defaultAuthor).outcome s).2.store (recordKey hash) =
      some record := by
  have hother : op.others s.store hash = true := by
    rw [Operation.others, hrecord, Option.isSome_some, Bool.true_and]
    exact decide_eq_true htarget
  have hsame := sameFor_storeAfter (operation_spares defaultAuthor op s) s.store
  rw [store_outcome, hsame.record hash hother, hrecord]

theorem Descended.step_update (h : Descended hash c s.store) (password message : RawText) :
    Descended hash c ((update hash password message).outcome s).2.store ∧
      Event.ShowsOrigin hash c ⟨.update hash password message, s.supply,
        ((update hash password message).outcome s).1⟩ := by
  have hreads := reads_authorize (σ := σ) hash password s
  rw [store_outcome]
  obtain ⟨fault, hfault, hcalls⟩ | ⟨e, s', time, hauthorize, htime, hok, hcalls⟩ :=
    update_calls hash password message s
  · rw [hcalls, storeAfter_reads hreads, hfault]
    exact ⟨h, trivial⟩
  · obtain ⟨d, hdated, hsame, hrecord⟩ := h
    cases authorized_of_record hdated hrecord hauthorize
    have hdated' : (Ledger.edited message time e).Dated := by
      refine ⟨hdated.created, ?_⟩
      rintro _ ⟨⟩
      exact htime
    have htaken := (taken_of_authorized hauthorize).1
    rw [hcalls, storeAfter_append, storeAfter_reads hreads, hok]
    exact ⟨⟨_, hdated', hsame.edited message time, by simp [htaken]⟩,
      fun _ => hsame.edited message time⟩

theorem Descended.step (h : Descended hash c s.store) (defaultAuthor : String) (op : Operation)
    (hnot : ¬Event.Removes hash ⟨op, s.supply, ((op.action defaultAuthor).outcome s).1⟩) :
    Descended hash c ((op.action defaultAuthor).outcome s).2.store ∧
      Event.ShowsOrigin hash c ⟨op, s.supply, ((op.action defaultAuthor).outcome s).1⟩ := by
  by_cases htarget : op.target? = some hash
  · cases op with
    | update other password message =>
      cases htarget
      exact h.step_update password message
    | delete other password =>
      cases htarget
      refine ⟨?_, trivial⟩
      rw [Operation.action, store_outcome]
      obtain ⟨fault, -, hcalls⟩ | ⟨e, s', -, hok, -⟩ := delete_calls hash password s
      · rw [hcalls, storeAfter_reads (reads_authorize hash password s)]
        exact h
      · rw [Operation.action, hok] at hnot
        exact absurd rfl hnot
    | create | find | list | threads => cases htarget
  · obtain ⟨d, hdated, hsame, hrecord⟩ := h
    refine ⟨⟨d, hdated, hsame, record_of_other defaultAuthor htarget hrecord⟩, ?_⟩
    cases op with
    | update other password message =>
      cases hr : ((update other password message).outcome s).1 with
      | error fault =>
        rw [Operation.action, hr]
        trivial
      | ok e =>
        rw [Operation.action, hr]
        exact fun heq => absurd (congrArg some heq) htarget
    | find other =>
      rintro rfl
      rw [Operation.action, find_of_record hdated hrecord]
      exact ⟨d, rfl, hsame⟩
    | create | delete | list | threads => trivial

/-! ## Any operations -/

/-- Unless a log has a removal of a hash, there is at its end what edits have made of a
comment, and nothing else was shown. -/
def DescendedThrough (hash : RawText) (c : Comment) (log : List Event) (s : Site σ) : Prop :=
  (∀ e ∈ log, ¬e.Removes hash) →
    Descended hash c s.store ∧ ∀ e ∈ log, e.ShowsOrigin hash c

theorem DescendedThrough.step {log : List Event} (h : DescendedThrough hash c log s)
    (defaultAuthor : String) (op : Operation) :
    DescendedThrough hash c (log ++ [⟨op, s.supply, ((op.action defaultAuthor).outcome s).1⟩])
      ((op.action defaultAuthor).outcome s).2 := by
  intro hnot
  obtain ⟨hkept, hshown⟩ := h fun e he => hnot e (List.mem_append_left _ he)
  obtain ⟨hkept', hshown'⟩ := hkept.step defaultAuthor op
    (hnot _ (List.mem_append_right _ (List.mem_singleton_self _)))
  refine ⟨hkept', fun e he => ?_⟩
  rcases List.mem_append.mp he with he | he
  · exact hshown e he
  · cases List.mem_singleton.mp he
    exact hshown'

/-- What is so of a comment that is written to a store of some kind. Its record is read as
the comment itself; nothing is drawn for it, and the clock is not read. As long as it is
not removed, operations on the store leave all of it alone but the message and the time of
the last edit. -/
structure Reread (σ : Type) [KeyValue σ] [Viewed σ] (c : Comment) : Prop where
  read : ∀ s : Site σ, (loadRecord c.toJson).outcome s = (.ok c, s)
  kept : ∀ (defaultAuthor : String) (hash : RawText) (ops : List Operation) (s : Site σ),
    Viewed.valueAt? s.store (recordKey hash) = some c.toJson →
    (∀ e ∈ (run defaultAuthor ops s).1, ¬e.Removes hash) →
      Descended hash c (run defaultAuthor ops s).2.store ∧
        ∀ e ∈ (run defaultAuthor ops s).1, e.ShowsOrigin hash c

theorem reread_of_dated (c : Comment) (h : c.Dated) : Reread σ c where
  read := outcome_loadRecord h
  kept := by
    intro defaultAuthor hash ops s hrecord hnot
    have hstart : DescendedThrough hash c [] s :=
      fun _ => ⟨⟨c, h, .refl c, hrecord⟩, fun e he => nomatch he⟩
    have hend := run_induction (DescendedThrough hash c) ops
      (fun op _ log s h => h.step defaultAuthor op) hstart
    rw [List.nil_append, ← run] at hend
    exact hend hnot

/-- The first moment of the calendar has no fraction, and the last one has six digits. -/
theorem reread_of_dated_limits :
    let c : Comment := ⟨"0a1b2c3d", "intro", "Ann", "Hello", some "4e5f6071", .utc firstMicro,
      some (.utc lastMicro)⟩
    c.Dated ∧ c.created.stamp = "0001-01-01T00:00:00Z" ∧
      c.updated.map DateTime.stamp = some "9999-12-31T23:59:59.999999Z" ∧ Reread Memory c := by
  intro c
  have hdated : c.Dated := by
    refine ⟨⟨firstMicro, by decide, rfl⟩, ?_⟩
    rintro _ ⟨⟩
    exact ⟨lastMicro, by decide, rfl⟩
  exact ⟨hdated, by decide +kernel, by decide +kernel, reread_of_dated c hdated⟩

end CommentThreads.Store
