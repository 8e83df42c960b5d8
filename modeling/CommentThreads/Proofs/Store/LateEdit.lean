/-
CommentThreads.Proofs.Store.LateEdit — an edit and a removal of one comment at the
same time.

Both check the password first, and both may find it right. A removal then takes the
comment away in three calls, and an edit writes the record anew in one. There is no
transaction that would hold these together, so the edit's call may come last.

* `Contested` — what both rely on: what is under the hash is a comment of its post,
  and no other index names it. Each call of either keeps it so.
* `removed_or_rewritten` — a removal that succeeds takes the comment out of every
  index, and its password with it. The record is gone too, unless the edit wrote it
  after the removal had taken it away.
* `exists_late_edit` — and then it is there again. This can come about for every
  comment with a password, and both report success.
-/
import CommentThreads.Proofs.Store.Reliance
import CommentThreads.Proofs.Store.Serializability

namespace CommentThreads.Store

open Ledger Time Shared

/-! ## The two -/

/-- Who is at work on a comment. -/
inductive Party
  | editor
  | remover
deriving DecidableEq

/-- An edit and a removal of one comment, with one password. -/
def Party.change (hash password message : RawText) : Party → Change
  | .editor => .update hash password message
  | .remover => .delete hash password

/-- How the two end: they read, and then one writes the record and the other takes the
comment of a post away, unless they fail. A removal may also fail half-way. -/
def Party.Ends (post hash message : RawText) :
    Party → List Call → Except Fault Comment → Prop
  | .editor, made, r => ∃ reads, (∀ c ∈ reads, Call.IsRead c) ∧
    ((∃ fault, r = .error fault) ∧ made = reads ∨
      ∃ d, r = .ok d ∧ d.Dated ∧ d.hash = hash ∧ d.message = message ∧
        made = reads ++ [.set (recordKey hash) d.toJson])
  | .remover, made, r => (∃ fault, r = .error fault) ∨
    (∃ c, r = .ok c) ∧ ∃ reads, (∀ c ∈ reads, Call.IsRead c) ∧
      made = reads ++ removalCalls post hash

section Contested

variable {σ : Type} [KeyValue σ] [Viewed σ]

/-- A store in which only the index of one post may name a hash, and what may be
under it is a comment of this post. -/
structure Contested (post hash : RawText) (s : σ) : Prop where
  record : May (fun c => c.hash = hash ∧ c.post = post) hash s
  listed : ∀ other, hash ∈ Viewed.listAt s (indexKey other) → other = post

theorem Coherent.contested {s : σ} (h : Coherent s) (hash : RawText) :
    ∃ post, Contested post hash s := by
  by_cases hrecord : Viewed.valueAt? s (recordKey hash) = none
  · exact ⟨"", .inl hrecord, fun other hmem => absurd hmem (h.not_listed hrecord other)⟩
  · obtain ⟨c, hc, rfl⟩ := h.record hash hrecord
    exact ⟨c.post, .inr ⟨c, hc, rfl, rfl, rfl⟩, fun other hmem => (h.post_of_listed hc hmem).symm⟩

section Calls

variable {post hash : RawText} {s : σ} (h : Contested post hash s)
include h

theorem Contested.setRecord {d : Comment} (hdated : d.Dated) (hhash : d.hash = hash)
    (hpost : d.post = post) :
    Contested post hash (KeyValue.perform (.set (recordKey hash) d.toJson) s).2 := by
  subst hhash
  obtain htaken | hsame := taken_or_same (.set (recordKey d.hash) d.toJson) s
  · rw [Call.key] at htaken
    exact ⟨.inr ⟨d, ⟨by simp [htaken], hdated⟩, rfl, rfl, hpost⟩, by simpa using h.listed⟩
  · rw [hsame]
    exact h

theorem Contested.unlist :
    Contested post hash (KeyValue.perform (.remove (indexKey post) hash) s).2 := by
  refine ⟨?_, fun other hmem => h.listed other ?_⟩
  · obtain hnone | ⟨c, hc, hhash, hkind⟩ := h.record
    · exact .inl (by simpa using hnone)
    · exact .inr ⟨c, ⟨by simpa using hc.record, hc.dated⟩, hhash, hkind⟩
  · rw [Viewed.listAt_remove] at hmem
    split at hmem
    · next hkey => exact hkey ▸ (List.mem_filter.mp hmem).1
    · exact hmem

theorem Contested.deleteRecord :
    Contested post hash (KeyValue.perform (.delete (recordKey hash)) s).2 := by
  refine ⟨.inl (by simp), fun other hmem => h.listed other ?_⟩
  simpa using hmem

theorem Contested.deletePassword :
    Contested post hash (KeyValue.perform (.delete (passwordKey hash)) s).2 := by
  refine ⟨?_, fun other hmem => h.listed other (by simpa using hmem)⟩
  obtain hnone | ⟨c, hc, hhash, hkind⟩ := h.record
  · exact .inl (by simpa using hnone)
  · exact .inr ⟨c, ⟨by simpa using hc.record, hc.dated⟩, hhash, hkind⟩

end Calls

theorem relies_update (post hash password message : RawText) :
    (update hash password message).Relies (Contested (σ := σ) post hash)
      (Party.editor.Ends post hash message) [] := by
  rw [update_eq]
  refine relies_bind (relies_authorize (fun s hs => hs.record) password ?_ ?_)
  · exact fun reads fault hreads => ⟨reads, hreads, .inl ⟨⟨fault, rfl⟩, rfl⟩⟩
  · rintro reads c hreads hdated ⟨hhash, hpost⟩
    refine relies_bind
      (relies_currentTime ⟨reads, hreads, .inl ⟨⟨_, rfl⟩, rfl⟩⟩ fun time htime => ?_)
    have hedited : (edited message time c).Dated := ⟨hdated.created, by rintro _ ⟨⟩; exact htime⟩
    refine relies_bind (relies_ask
      (fun s hs _ => ⟨hs.setRecord hedited hhash hpost, relies_pure ?_⟩) ?_)
    · exact ⟨reads, hreads, .inr ⟨_, rfl, hedited, hhash, rfl, rfl⟩⟩
    · exact ⟨reads, hreads, .inl ⟨⟨_, rfl⟩, rfl⟩⟩

theorem relies_delete (post hash password message : RawText) :
    (delete hash password).Relies (Contested (σ := σ) post hash)
      (Party.remover.Ends post hash message) [] := by
  rw [delete]
  refine relies_bind (relies_authorize (fun s hs => hs.record) password ?_ ?_)
  · exact fun reads fault hreads => .inl ⟨fault, rfl⟩
  · rintro reads c hreads - ⟨-, rfl⟩
    refine relies_bind (relies_ask (fun s hs _ => ⟨hs.unlist, ?_⟩) (.inl ⟨_, rfl⟩))
    refine relies_bind (relies_ask (fun s hs _ => ⟨hs.deleteRecord, ?_⟩) (.inl ⟨_, rfl⟩))
    refine relies_bind (relies_ask (fun s hs _ => ⟨hs.deletePassword, relies_pure ?_⟩)
      (.inl ⟨_, rfl⟩))
    exact .inr ⟨⟨c, rfl⟩, reads, hreads, by simp [removalCalls]⟩

/-- Whatever the schedule, both end as they do alone. -/
theorem ends_after (defaultAuthor : String) (hash password message : RawText)
    (supply : Party → Supply) {s : σ} (hs : Coherent s) (schedule : List Party) :
    let sh := (begun defaultAuthor (Party.change hash password message) supply s).after schedule
    ∃ post, Contested post hash sh.store ∧
      ∀ i r, (sh.job i).program = .done r → i.Ends post hash message (sh.madeBy i) r := by
  obtain ⟨post, hcontested⟩ := hs.contested hash
  refine ⟨post, relies_after hcontested rfl (fun i => ?_) schedule⟩
  cases i with
  | editor => exact relies_update post hash password message
  | remover => exact relies_delete post hash password message

end Contested

/-! ## The order of what both wrote -/

/-- The edit wrote the record after the removal had taken it away. -/
def WrittenLate (hash : RawText) (made : List (Party × Call)) : Prop :=
  ∃ value, [(Party.remover, Call.delete (recordKey hash)),
    (Party.editor, .set (recordKey hash) value)].Sublist made

theorem writtenLate_of_append {hash : RawText} {value : Json} {made later : List (Party × Call)}
    (hremoved : (.remover, .delete (recordKey hash)) ∈ made)
    (hwritten : (.editor, .set (recordKey hash) value) ∈ later) :
    WrittenLate hash (made ++ later) :=
  ⟨value, (List.singleton_sublist.mpr hremoved).append (List.singleton_sublist.mpr hwritten)⟩

theorem writtenLate_iff {hash : RawText} {made : List (Party × Call)} :
    WrittenLate hash made ↔ WrittenLate hash (made.filter (·.2.writesAt (recordKey hash))) := by
  constructor
  · rintro ⟨value, hsub⟩
    refine ⟨value, ?_⟩
    have hfiltered := hsub.filter (·.2.writesAt (recordKey hash))
    simpa [Call.writesAt] using hfiltered
  · rintro ⟨value, hsub⟩
    exact ⟨value, hsub.trans List.filter_sublist⟩

/-- One call of the remover and at most one of the editor come in one of two orders. -/
theorem two_orders {made : List (Party × Call)} {call : Call} {writes : List Call}
    (hremover : (made.filter (·.1 = Party.remover)).map Prod.snd = [call])
    (heditor : (made.filter (·.1 = Party.editor)).map Prod.snd = writes)
    (hwrites : writes.length ≤ 1) :
    made = writes.map (Party.editor, ·) ++ [(.remover, call)] ∨
      made = (.remover, call) :: writes.map (Party.editor, ·) := by
  subst heditor
  -- of three calls two would be of one party
  rcases made with _ | ⟨⟨p, c⟩, _ | ⟨⟨q, d⟩, _ | ⟨⟨r, e⟩, rest⟩⟩⟩
  · cases hremover
  · cases p <;> simp at hremover ⊢
    exact hremover
  · cases p <;> cases q <;> simp at hremover hwrites ⊢
    · exact hremover
    · exact hremover
  · cases p <;> cases q <;> cases r <;> simp at hremover hwrites

theorem filter_writesAt_append {reads : List Call} (h : ∀ c ∈ reads, c.IsRead)
    (writes : List Call) (key : RawText) :
    (reads ++ writes).filter (·.writesAt key) = writes.filter (·.writesAt key) := by
  rw [List.filter_append, List.filter_eq_nil_iff.mpr fun c hc hwrites =>
    Call.not_isRead_of_writesAt hwrites (h c hc), List.nil_append]

section Removed

variable {σ α : Type} [KeyValue σ] {post hash : RawText} {rewritten : Option Comment}
  {sh : Shared σ Party α}

/-- What an edit writes, if it does. -/
def editCalls (hash : RawText) (rewritten : Option Comment) : List Call :=
  rewritten.toList.map fun d => .set (recordKey hash) d.toJson

/-- A removal was made, and the edit has written a comment, or nothing. -/
structure Removed (post hash : RawText) (rewritten : Option Comment) (sh : Shared σ Party α) :
    Prop where
  remover : ∃ reads, (∀ c ∈ reads, Call.IsRead c) ∧
    sh.madeBy .remover = reads ++ removalCalls post hash
  editor : ∃ reads, (∀ c ∈ reads, Call.IsRead c) ∧
    sh.madeBy .editor = reads ++ editCalls hash rewritten

section Calls

variable (h : Removed post hash rewritten sh)
include h

omit [KeyValue σ] in
theorem Removed.proper : ∀ c ∈ sh.made.map Prod.snd, c.Proper := by
  obtain ⟨⟨reads, hreads, hremover⟩, ⟨reads', hreads', heditor⟩⟩ := h
  intro c hc
  obtain ⟨⟨i, c⟩, hmade, rfl⟩ := List.mem_map.mp hc
  have hmem := mem_madeBy.mpr hmade
  cases i with
  | editor =>
    rw [heditor] at hmem
    rcases List.mem_append.mp hmem with hmem | hmem
    · exact .inl (hreads' _ hmem)
    · obtain ⟨d, -, rfl⟩ := List.mem_map.mp hmem
      exact .inr ⟨hash, .setRecord d.toJson⟩
  | remover =>
    rw [hremover] at hmem
    rcases List.mem_append.mp hmem with hmem | hmem
    · exact .inl (hreads _ hmem)
    · exact .inr ⟨hash, writesFor_of_removed hmem⟩

omit [KeyValue σ] in
/-- But for the record, all is written by the remover. -/
theorem Removed.writes_eq {key : RawText} (hkey : key ≠ recordKey hash) :
    (sh.made.map Prod.snd).filter (·.writesAt key) =
      (removalCalls post hash).filter (·.writesAt key) := by
  obtain ⟨⟨reads, hreads, hremover⟩, ⟨reads', hreads', heditor⟩⟩ := h
  rw [← filter_writesAt_append hreads (removalCalls post hash), ← hremover]
  refine writes_eq_madeBy fun i c hc hwrites => ?_
  cases i with
  | remover => rfl
  | editor =>
    rw [heditor] at hc
    rcases List.mem_append.mp hc with hc | hc
    · exact absurd (hreads' c hc) (Call.not_isRead_of_writesAt hwrites)
    · obtain ⟨d, -, rfl⟩ := List.mem_map.mp hc
      exact absurd (Call.key_of_writesAt hwrites).symm hkey

omit [KeyValue σ] in
/-- The record is taken away by the one and written by the other, in some order. -/
theorem Removed.record_writes :
    sh.made.filter (·.2.writesAt (recordKey hash)) =
        (editCalls hash rewritten).map (Party.editor, ·) ++ [(.remover, .delete (recordKey hash))] ∨
      sh.made.filter (·.2.writesAt (recordKey hash)) =
        (.remover, .delete (recordKey hash)) :: (editCalls hash rewritten).map
          (Party.editor, ·) := by
  obtain ⟨⟨reads, hreads, hremover⟩, ⟨reads', hreads', heditor⟩⟩ := h
  apply two_orders
  · rw [filter_madeBy, hremover, filter_writesAt_append hreads]
    simp [removalCalls, Call.writesAt]
  · rw [filter_madeBy, heditor, filter_writesAt_append hreads']
    cases rewritten <;> simp [editCalls, Call.writesAt]
  · cases rewritten <;> simp [editCalls]

variable [Viewed σ] {s : σ} (hs : Coherent s)
  (hstore : sh.store = storeAfter (sh.made.map Prod.snd) s)
include hs hstore

theorem Removed.agree (key : RawText) : AgreeAt key sh.store
    (storeAfter ((sh.made.map Prod.snd).filter (·.writesAt key)) s) := by
  have htidy : Tidy s := ⟨hs.valueAt?_indexKey, hs.listKeys⟩
  have hagree := agreeAt_filter h.proper key htidy (AgreeAt.refl key s)
  rwa [← hstore] at hagree

/-- The record is gone, or it was written late and is there again. -/
theorem Removed.record (htaken : ∀ t : σ, KeyValue.takes (recordKey hash) t = true) :
    ¬WrittenLate hash sh.made ∧ Viewed.valueAt? sh.store (recordKey hash) = none ∨
      WrittenLate hash sh.made ∧ ∃ d, rewritten = some d ∧
        Viewed.valueAt? sh.store (recordKey hash) = some d.toJson := by
  have hvalue : Viewed.valueAt? sh.store (recordKey hash) = Viewed.valueAt? (storeAfter
      ((sh.made.filter (·.2.writesAt (recordKey hash))).map Prod.snd) s) (recordKey hash) := by
    rw [(h.agree hs hstore _).value, List.filter_map]
    rfl
  rw [writtenLate_iff, hvalue]
  cases rewritten with
  | none =>
    have honly : sh.made.filter (·.2.writesAt (recordKey hash)) =
        [(.remover, .delete (recordKey hash))] := h.record_writes.elim id id
    rw [honly]
    refine .inl ⟨?_, by simp⟩
    rintro ⟨json, hsub⟩
    exact absurd hsub.length_le (by simp)
  | some d =>
    rcases h.record_writes with horder | horder
    · rw [horder]
      refine .inl ⟨?_, by simp [editCalls]⟩
      rintro ⟨json, hsub⟩
      cases hsub.eq_of_length rfl
    · rw [horder]
      exact .inr ⟨⟨d.toJson, List.Sublist.refl _⟩, d, rfl, by simp [editCalls, htaken]⟩

/-- A removal takes the comment out of every index, and its password. -/
theorem Removed.unlisted (hcontested : Contested post hash sh.store) :
    (∀ other, hash ∉ Viewed.listAt sh.store (indexKey other)) ∧
      Viewed.valueAt? sh.store (passwordKey hash) = none := by
  refine ⟨fun other hmem => ?_, ?_⟩
  · obtain rfl := hcontested.listed other hmem
    rw [(h.agree hs hstore _).list, h.writes_eq (by simp)] at hmem
    simp [removalCalls, Call.writesAt] at hmem
  · rw [(h.agree hs hstore _).value, h.writes_eq (by simp)]
    simp [removalCalls, Call.writesAt]

end Calls

end Removed

/-! ## What is left of the comment -/

section Left

variable {σ : Type} [KeyValue σ] [Viewed σ]

/-- A removal that succeeds takes the comment out of every index, and its password, so
the store takes its key. The record is gone, or the edit has succeeded too and its
record is there again. -/
theorem removed_or_rewritten {defaultAuthor : String} {hash password message : RawText}
    {supply : Party → Supply} {s : σ} (hs : Coherent s) (schedule : List Party) :
    let sh := (begun defaultAuthor (Party.change hash password message) supply s).after schedule
    sh.Finished → ∀ c, (sh.job .remover).program = .done (.ok c) →
      (∀ post, hash ∉ Viewed.listAt sh.store (indexKey post)) ∧
      Viewed.valueAt? sh.store (passwordKey hash) = none ∧
      KeyValue.takes (recordKey hash) sh.store = true ∧
      (¬WrittenLate hash sh.made ∧ Viewed.valueAt? sh.store (recordKey hash) = none ∨
        WrittenLate hash sh.made ∧ ∃ d, (sh.job .editor).program = .done (.ok d) ∧
          d.hash = hash ∧ d.message = message ∧ Holds sh.store d) := by
  intro sh hdone c hok
  obtain ⟨post, hcontested, hends⟩ :=
    ends_after defaultAuthor hash password message supply hs schedule
  have hstore : sh.store = storeAfter (sh.made.map Prod.snd) s := store_after rfl schedule
  obtain ⟨r, heditor⟩ := hdone .editor
  obtain ⟨fault, hfault⟩ | ⟨-, reads, hreads, hremover⟩ := hends .remover _ hok
  · cases hfault
  have htaken : ∀ t : σ, KeyValue.takes (recordKey hash) t = true := by
    have hnone :
        (begun defaultAuthor (Party.change hash password message) supply s).made = [] := rfl
    refine taken_of_made hnone schedule (.remover, .delete (recordKey hash)) (mem_madeBy.mp ?_)
    rw [hremover]
    exact List.mem_append_right _ (by simp [removalCalls])
  obtain ⟨reads', hreads', ⟨-, hediting⟩ | ⟨d, rfl, hdated, hhash, hmessage, hediting⟩⟩ :=
    hends .editor r heditor
  · have hediting : sh.madeBy .editor = reads' ++ editCalls hash none :=
      hediting.trans (List.append_nil _).symm
    have hremoved : Removed post hash none sh :=
      ⟨⟨reads, hreads, hremover⟩, ⟨reads', hreads', hediting⟩⟩
    obtain ⟨hlisted, hpassword⟩ := hremoved.unlisted hs hstore hcontested
    refine ⟨hlisted, hpassword, htaken _, ?_⟩
    obtain hgone | ⟨-, d, hnone, -⟩ := hremoved.record hs hstore htaken
    · exact .inl hgone
    · cases hnone
  · have hremoved : Removed post hash (some d) sh :=
      ⟨⟨reads, hreads, hremover⟩, ⟨reads', hreads', hediting⟩⟩
    obtain ⟨hlisted, hpassword⟩ := hremoved.unlisted hs hstore hcontested
    refine ⟨hlisted, hpassword, htaken _, ?_⟩
    obtain hgone | ⟨hlate, e, heq, hrecord⟩ := hremoved.record hs hstore htaken
    · exact .inl hgone
    · cases heq
      subst hhash
      exact .inr ⟨hlate, d, heditor, rfl, hmessage, ⟨hrecord, hdated⟩⟩

omit [Viewed σ] in
/-- A job that begins with an action that succeeds may go on from there before any other
job takes a step. -/
theorem exists_past {ι α β : Type} [DecidableEq ι] {i : ι} {a : Action β} {f : β → Action α}
    {sh : Shared σ ι (Except Fault α)} {supply : Supply} {x : β} {s' : Site σ}
    (hjob : sh.job i = ⟨ExceptT.run (a >>= f), supply⟩)
    (h : a.outcome ⟨sh.store, supply⟩ = (.ok x, s')) :
    ∃ n sh', sh.after (List.replicate n i) = sh' ∧ sh'.store = s'.store ∧
      sh'.job i = ⟨ExceptT.run (f x), s'.supply⟩ ∧ ∀ k, k ≠ i → sh'.job k = sh.job k := by
  have hrun : Program.run (ExceptT.run a) ⟨sh.store, supply⟩ = (.ok x, s') := h
  obtain ⟨n, sh', hn, hstore, hrest, hothers, -⟩ :=
    exists_through (hjob.trans (congrArg (Job.mk · supply) (ExceptT.run_bind a f)))
  rw [hrun] at hstore hrest
  exact ⟨n, sh', hn, hstore, hrest, hothers⟩

omit [Viewed σ] in
/-- A job may come to its end before any other one takes a step. -/
theorem exists_to_end {ι α : Type} [DecidableEq ι] {i : ι} {a : Action α}
    {sh : Shared σ ι (Except Fault α)} {supply : Supply}
    (hjob : sh.job i = ⟨ExceptT.run a, supply⟩) :
    ∃ n sh', sh.after (List.replicate n i) = sh' ∧
      (sh'.job i).program = .done (a.outcome ⟨sh.store, supply⟩).1 ∧
      (∀ k, k ≠ i → sh'.job k = sh.job k) ∧
      sh'.made = sh.made ++ (a.calls ⟨sh.store, supply⟩).map (i, ·) := by
  obtain ⟨n, sh', hn, -, hend, hothers, hmade⟩ :=
    exists_through (hjob.trans (congrArg (Job.mk · supply) (Program.bind_done_right _).symm))
  exact ⟨n, sh', hn, congrArg Job.program hend, hothers, hmade⟩

/-- For every comment with a password, on a post whose index is not refused, there is a
schedule in which the edit is late. -/
theorem exists_late_edit (defaultAuthor : String) (message : RawText) {s : σ} (hs : Coherent s)
    {hash password : RawText} {c : Comment} {t : Supply}
    (hauthorized : ((authorize hash password).outcome ⟨s, t⟩).1 = .ok c)
    (htaken : KeyValue.takes (indexKey c.post) s = true) (supply : Party → Supply)
    (hclock : inRange (supply .editor).nextTime.1 = true) :
    ∃ schedule,
      let sh := (begun defaultAuthor (Party.change hash password message) supply s).after schedule
      sh.Finished ∧ (sh.job .remover).program = .done (.ok c) ∧
        (sh.job .editor).program =
          .done (.ok (edited message (.utc (supply .editor).nextTime.1) c)) ∧
        WrittenLate hash sh.made := by
  have hauthorize (supply : Supply) := hs.authorized_again hauthorized supply
  have heditor₀ : (begun defaultAuthor (Party.change hash password message) supply s).job .editor =
      ⟨ExceptT.run (authorize hash password >>= writeEdit hash message), supply .editor⟩ := rfl
  -- the editor is authorized, then the removal is made, then the editor writes
  obtain ⟨n, sh₁, hn, hstore₁, heditor₁, hothers₁⟩ :=
    exists_past heditor₀ (hauthorize (supply .editor))
  obtain ⟨m, sh₂, hm, hremover₂, hothers₂, hmade₂⟩ :=
    exists_to_end (a := delete hash password) (hothers₁ .remover (by decide))
  obtain ⟨k, sh₃, hk, heditor₃, hothers₃, hmade₃⟩ :=
    exists_to_end ((hothers₂ .editor (by decide)).trans heditor₁)
  obtain ⟨hremoved, hremoval⟩ :=
    delete_of_authorized (hauthorize (supply .remover)) htaken
  rw [hstore₁] at hremover₂ hmade₂
  obtain ⟨hout, -⟩ | ⟨-, hwrote⟩ :=
    writeEdit_calls hash message c (⟨sh₂.store, supply .editor⟩ : Site σ)
  · rw [hclock] at hout
    cases hout
  have hrecord : KeyValue.takes (recordKey hash) s = true :=
    (taken_of_authorized (hauthorize t)).1
  obtain ⟨hwritten, hwrite⟩ := hwrote.of_taken (s := s) (by simpa [Call.key] using hrecord)
  have hremover : (sh₃.job .remover).program = .done (.ok c) := by
    rw [hothers₃ .remover (by decide), hremover₂, hremoved]
  have heditor : (sh₃.job .editor).program =
      .done (.ok (edited message (.utc (supply .editor).nextTime.1) c)) := by
    rw [heditor₃, hwritten]
  have hlate : WrittenLate hash sh₃.made := by
    rw [hmade₃, hmade₂, hremoval, hwrite]
    apply writtenLate_of_append
    · exact List.mem_append_right _ (List.mem_map_of_mem (List.mem_append_right _
        (by simp [removalCalls])))
    · exact List.mem_map_of_mem List.mem_cons_self
  refine ⟨List.replicate n .editor ++ List.replicate m .remover ++ List.replicate k .editor, ?_⟩
  rw [after_append, after_append, hn, hm, hk]
  refine ⟨fun i => ?_, hremover, heditor, hlate⟩
  cases i with
  | editor => exact ⟨_, heditor⟩
  | remover => exact ⟨_, hremover⟩

/-- A removal that succeeds, while the same comment is edited, takes it out of every
index, and its password with it. Once both are done there is nothing left of the
comment, unless the edit wrote its record after the removal had taken it away. Then
the comment is found with its new message, and the edit has succeeded too. -/
theorem removed_unless_written_late (defaultAuthor : String) {s : σ} (hs : Reachable s)
    (hash password message : RawText) (supply : Party → Supply) (schedule : List Party) :
    let sh := (begun defaultAuthor (Party.change hash password message) supply s).after schedule
    sh.Finished → ∀ c, (sh.job .remover).program = .done (.ok c) →
      (∀ post, hash ∉ Viewed.listAt sh.store (indexKey post)) ∧
      Viewed.valueAt? sh.store (passwordKey hash) = none ∧
      ∀ t : Supply,
        (¬WrittenLate hash sh.made →
          (find hash).outcome ⟨sh.store, t⟩ = (.ok none, ⟨sh.store, t⟩)) ∧
        (WrittenLate hash sh.made → ∃ d, (sh.job .editor).program = .done (.ok d) ∧
          d.hash = hash ∧ d.message = message ∧
          (find hash).outcome ⟨sh.store, t⟩ = (.ok (some d), ⟨sh.store, t⟩)) := by
  intro sh hdone c hok
  obtain ⟨hlisted, hpassword, htaken, hrecord⟩ :=
    removed_or_rewritten hs.coherent schedule hdone c hok
  refine ⟨hlisted, hpassword, fun t => ?_⟩
  rcases hrecord with ⟨hnot, hnone⟩ | ⟨hlate, d, heditor, rfl, hmessage, hd⟩
  · exact ⟨fun _ => find_none (s := ⟨sh.store, t⟩) hnone htaken, fun hlate => absurd hlate hnot⟩
  · exact ⟨fun hnot => absurd hlate hnot,
      fun _ => ⟨d, heditor, rfl, hmessage, hd.find_eq (s := ⟨sh.store, t⟩)⟩⟩

end Left

/-! ## A comment that is there again -/

def guardedSupply : Supply := stillSupply "0a1b2c3d"

/-- A comment with a password. -/
def guardedComment : Comment :=
  ⟨"0a1b2c3d", "intro", "Anonymous", "Hello", none, .utc 0, none⟩

def guardedCreation : Operation :=
  .create "$2b$04$abcdefghijklmnopqrstuu" "intro" "Hello" none (some "pässword") none

/-- A store that holds it, and nothing else. -/
def guardedStore : Memory :=
  (attempted "Anonymous" [⟨guardedCreation, none⟩] ⟨Memory.empty, guardedSupply⟩).store

theorem reachable_guardedStore : Reachable guardedStore :=
  ⟨"Anonymous", ⟨Memory.empty, guardedSupply⟩, [⟨guardedCreation, none⟩],
    ⟨fun _ => rfl, fun _ => rfl⟩, rfl⟩

theorem authorized_guarded (t : Supply) :
    (authorize guardedComment.hash "pässword").outcome ⟨guardedStore, t⟩ =
      (.ok guardedComment, ⟨guardedStore, t⟩) := by
  let site : Site Memory := ⟨Memory.empty, guardedSupply⟩
  have hrun := attempted_run "Anonymous" [guardedCreation] site
  have hlive : (⟨guardedComment, "$2b$04$abcdefghijklmnopqrstuu", some "pässword"⟩ : Creation) ∈
      live (run "Anonymous" [guardedCreation] site).1 := by
    decide +kernel
  have hauthorized := authorized_of_live (Prod.eta _).symm hlive rfl (by decide)
  rw [← hrun] at hauthorized
  exact reachable_guardedStore.coherent.authorized_again hauthorized t

/-- Both succeed, and the comment is found again. -/
theorem late_edit_restores :
    Reachable guardedStore ∧
    ((authorize guardedComment.hash "pässword").outcome ⟨guardedStore, guardedSupply⟩).1 =
      .ok guardedComment ∧
    ∃ schedule,
      let sh := (begun "Anonymous" (Party.change guardedComment.hash "pässword" "Again")
        (fun _ => guardedSupply) guardedStore).after schedule
      sh.Finished ∧ (sh.job .remover).program = .done (.ok guardedComment) ∧
        ((find guardedComment.hash).outcome ⟨sh.store, guardedSupply⟩).1 =
          .ok (some { guardedComment with message := "Again", updated := some (.utc 0) }) := by
  have hs := reachable_guardedStore.coherent
  have hauthorized := congrArg Prod.fst (authorized_guarded guardedSupply)
  obtain ⟨schedule, hdone, hremoved, hedited, hlate⟩ := exists_late_edit "Anonymous" "Again" hs
    hauthorized rfl (fun _ => guardedSupply) (by decide)
  refine ⟨reachable_guardedStore, hauthorized, schedule, hdone, hremoved, ?_⟩
  obtain ⟨-, -, -, ⟨hnot, -⟩ | ⟨-, d, heditor, hhash, -, hd⟩⟩ :=
    removed_or_rewritten hs schedule hdone guardedComment hremoved
  · exact absurd hlate hnot
  · rw [hedited] at heditor
    cases heditor
    exact congrArg Prod.fst (hd.find_eq (s := ⟨_, guardedSupply⟩))

/-- A schedule in which the edit is late. -/
theorem removed_unless_written_late_guarded :
    ∃ schedule,
      let sh := (begun "Anonymous" (Party.change guardedComment.hash "pässword" "Again")
        (fun _ => guardedSupply) guardedStore).after schedule
      sh.Finished ∧ (sh.job .remover).program = .done (.ok guardedComment) ∧
        WrittenLate guardedComment.hash sh.made ∧
        (∀ post, guardedComment.hash ∉ Viewed.listAt sh.store (indexKey post)) ∧
        Viewed.valueAt? sh.store (passwordKey guardedComment.hash) = none ∧
        ∃ d : Comment, d.message = "Again" ∧
          (find guardedComment.hash).outcome ⟨sh.store, guardedSupply⟩ =
          (.ok (some d), ⟨sh.store, guardedSupply⟩) := by
  obtain ⟨schedule, hdone, hremoved, -, hlate⟩ := exists_late_edit "Anonymous" "Again"
    reachable_guardedStore.coherent (congrArg Prod.fst (authorized_guarded guardedSupply)) rfl
    (fun _ => guardedSupply) (by decide)
  obtain ⟨hlisted, hpassword, hfind⟩ := removed_unless_written_late "Anonymous"
    reachable_guardedStore guardedComment.hash "pässword" "Again" (fun _ => guardedSupply) schedule
    hdone guardedComment hremoved
  obtain ⟨d, -, -, hmessage, hfound⟩ := (hfind guardedSupply).2 hlate
  exact ⟨schedule, hdone, hremoved, hlate, hlisted, hpassword, d, hmessage, hfound⟩

end CommentThreads.Store
