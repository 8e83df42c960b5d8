/-
CommentThreads.Proofs.Store.Crash — operations that are cut short.

There is no transaction over the keys of a comment. When a call on the store
fails, the operation that made it ends there, and what it had written stays. The
next operations find it so.

* `Program.runFor` — a program of which one call fails. What it leaves is what its
  calls up to there leave (`store_runFor`), so the order of the writes is all that
  counts.
* `Attempt`, `attempted` — operations one after the other, each of which may be cut
  short anywhere.
* `writes_of_operation` — every operation reads first, and what it writes comes last.
* `SameFor` — what is stored for some hashes is not touched. No operation touches
  the comments that it is not about, however far it gets.
* `crash_safe` — the result: indexes name only what is there, others are left
  alone, and a removal that was cut short can be made again.
-/
import CommentThreads.Proofs.Store.Access
import CommentThreads.Proofs.Store.Coherence

namespace CommentThreads.Store

open Ledger Time

/-! ## Programs that are cut short -/

section Cut

variable {σ : Type} [KeyValue σ]

/-- Run a program of which so many calls are answered. The one after them fails,
without any effect of its own, and there the program ends. -/
def Program.runFor {α : Type} : Program α → Nat → Site σ → Option α × Site σ
  | .done a, _, s => (some a, s)
  | .call c next, n, s =>
    if KeyValue.takes c.key s.store then
      match n with
      | 0 => (none, s)
      | n + 1 => (next (some (s.perform c).1)).runFor n (s.perform c).2
    else (next none).runFor n s
  | .draw next, n, s =>
    (next s.supply.nextDigits.1).runFor n { s with supply := s.supply.nextDigits.2 }
  | .readClock next, n, s =>
    (next s.supply.nextTime.1).runFor n { s with supply := s.supply.nextTime.2 }

theorem store_runFor {α : Type} (p : Program α) (n : Nat) (s : Site σ) :
    (p.runFor n s).2.store = storeAfter ((p.calls s).take n) s.store := by
  induction p generalizing n s with
  | done a => rw [Program.calls, List.take_nil]; rfl
  | call c next ih =>
    simp only [Program.runFor, Program.calls]
    split
    · cases n with
      | zero => rfl
      | succ n => exact ih _ n _
    · exact ih _ n _
  | draw next ih => exact ih _ n _
  | readClock next ih => exact ih _ n _

/-- An action of which the call after so many fails. -/
def Action.cut {α : Type} (a : Action α) (n : Nat) (s : Site σ) :
    Option (Except Fault α) × Site σ :=
  Program.runFor (ExceptT.run a) n s

theorem store_cut {α : Type} (a : Action α) (n : Nat) (s : Site σ) :
    (a.cut n s).2.store = storeAfter ((a.calls s).take n) s.store :=
  store_runFor (ExceptT.run a) n s

/-- The site after an action was begun several times, and cut short each time. -/
def Action.cuts {α : Type} (a : Action α) (cuts : List Nat) (s : Site σ) : Site σ :=
  cuts.foldl (fun s n => (a.cut n s).2) s

/-- The site after it was begun once more, and not cut short. -/
def Action.retried {α : Type} (a : Action α) (cuts : List Nat) (s : Site σ) : Site σ :=
  (a.outcome (a.cuts cuts s)).2

/-- An operation, with the number of calls after which it is cut short, if it is. -/
structure Attempt where
  operation : Operation
  calls : Option Nat

/-- The site after an attempt. -/
def Attempt.site (defaultAuthor : String) (a : Attempt) (s : Site σ) : Site σ :=
  match a.calls with
  | none => ((a.operation.action defaultAuthor).outcome s).2
  | some n => ((a.operation.action defaultAuthor).cut n s).2

/-- The site after some attempts, one after the other. -/
def attempted (defaultAuthor : String) (attempts : List Attempt) (s : Site σ) : Site σ :=
  attempts.foldl (fun s a => a.site defaultAuthor s) s

theorem store_attempt (defaultAuthor : String) (a : Attempt) (s : Site σ) :
    ∃ n, (a.site defaultAuthor s).store =
      storeAfter (((a.operation.action defaultAuthor).calls s).take n) s.store := by
  obtain ⟨op, calls⟩ := a
  cases calls with
  | none =>
    refine ⟨((op.action defaultAuthor).calls s).length, ?_⟩
    rw [List.take_length]
    exact store_outcome _ s
  | some n => exact ⟨n, store_cut _ n s⟩

/-- Operations that are not cut short are a run. -/
theorem attempted_run (defaultAuthor : String) (ops : List Operation) (s : Site σ) :
    attempted defaultAuthor (ops.map fun op => ⟨op, none⟩) s = (run defaultAuthor ops s).2 := by
  induction ops generalizing s with
  | nil => rfl
  | cons op ops ih => exact ih _

end Cut

variable {σ : Type} [KeyValue σ] [Viewed σ]

/-! ## What is left alone -/

/-- What is stored for some hashes is the same: their records, their passwords and
the order of their entries in every index. -/
structure SameFor (which : RawText → Bool) (s t : σ) : Prop where
  record : ∀ hash, which hash = true →
    Viewed.valueAt? t (recordKey hash) = Viewed.valueAt? s (recordKey hash)
  password : ∀ hash, which hash = true →
    Viewed.valueAt? t (passwordKey hash) = Viewed.valueAt? s (passwordKey hash)
  order : ∀ post, (Viewed.listAt t (indexKey post)).filter which =
    (Viewed.listAt s (indexKey post)).filter which

theorem SameFor.refl (which : RawText → Bool) (s : σ) : SameFor which s s :=
  ⟨fun _ _ => rfl, fun _ _ => rfl, fun _ => rfl⟩

theorem SameFor.trans {which : RawText → Bool} {s t u : σ} (hst : SameFor which s t)
    (htu : SameFor which t u) : SameFor which s u where
  record hash h := (htu.record hash h).trans (hst.record hash h)
  password hash h := (htu.password hash h).trans (hst.password hash h)
  order post := (htu.order post).trans (hst.order post)

/-- What is written for another hash. -/
theorem sameFor_write {which : RawText → Bool} {hash : RawText} (hhash : which hash = false)
    {c : Call} (hc : WritesFor hash c) (s : σ) : SameFor which s (KeyValue.perform c s).2 := by
  obtain htaken | hsame := taken_or_same c s
  case inr =>
    rw [hsame]
    exact SameFor.refl which s
  have hne {other : RawText} (hother : which other = true) : other ≠ hash := by
    rintro rfl
    rw [hhash] at hother
    cases hother
  cases hc with
  | setRecord value =>
    rw [Call.key] at htaken
    exact ⟨fun other h => by simp [htaken, hne h], fun other h => by simp [htaken],
      fun post => by simp⟩
  | setPassword value =>
    rw [Call.key] at htaken
    exact ⟨fun other h => by simp [htaken], fun other h => by simp [htaken, hne h],
      fun post => by simp⟩
  | prepend post =>
    refine ⟨fun other h => by simp, fun other h => by simp, fun post' => ?_⟩
    rw [Viewed.listAt_prepend (indexKey post) _ _ _ htaken]
    split
    · next hkey => rw [hkey, List.filter_cons_of_neg (by simp [hhash])]
    · rfl
  | remove post =>
    refine ⟨fun other h => by simp, fun other h => by simp, fun post' => ?_⟩
    rw [Viewed.listAt_remove]
    split
    · next hkey =>
      rw [hkey, List.filter_filter]
      refine List.filter_congr fun other _ => ?_
      cases hother : which other with
      | false => rfl
      | true => simp [hne hother]
    · rfl
  | deleteRecord =>
    exact ⟨fun other h => by simp [hne h], fun other h => by simp, fun post => by simp⟩
  | deletePassword =>
    exact ⟨fun other h => by simp, fun other h => by simp [hne h], fun post => by simp⟩

/-- A call that reads, or writes for none of some hashes. -/
def Call.Spares (which : RawText → Bool) (c : Call) : Prop :=
  c.IsRead ∨ ∃ hash, WritesFor hash c ∧ which hash = false

theorem sameFor_storeAfter {which : RawText → Bool} {calls : List Call}
    (h : ∀ c ∈ calls, c.Spares which) (s : σ) : SameFor which s (storeAfter calls s) := by
  refine storeAfter_induction (SameFor which s) (fun c hc t hst => hst.trans ?_)
    (SameFor.refl which s)
  rcases h c hc with hread | ⟨hash, hwrite, hhash⟩
  · rw [perform_read hread]
    exact SameFor.refl which t
  · exact sameFor_write hhash hwrite t

/-- The comment that an operation edits or removes. -/
def Operation.target? : Operation → Option RawText
  | .update hash _ _ | .delete hash _ => some hash
  | _ => none

/-- The comments that an operation is not about: all that are there, but the one
that it edits or removes. -/
def Operation.others (op : Operation) (s : σ) (hash : RawText) : Bool :=
  (Viewed.valueAt? s (recordKey hash)).isSome && op.target? ≠ some hash

/-- What an operation writes, after it has read. A new comment has a hash that no record
is under. -/
inductive Operation.Writes (s : σ) : Operation → List Call → Prop
  | nothing (op : Operation) : Writes s op []
  | new {salt : String} {post message : RawText} {author password parent : Option RawText}
      {c : Comment} {lock : Option String} {writes : List Call}
      (hfresh : Viewed.valueAt? s (recordKey c.hash) = none) 
      (hwrites : writes <+: newCalls c lock) :
      Writes s (.create salt post message author password parent) writes
  | edit {hash password message : RawText} (value : Json) :
      Writes s (.update hash password message) [.set (recordKey hash) value]
  | removal {hash password : RawText} (post : RawText) :
      Writes s (.delete hash password) (removalCalls post hash)

/-- Every operation reads first, and what it writes comes last. -/
theorem writes_of_operation (defaultAuthor : String) (op : Operation) (s : Site σ) :
    ∃ reads writes, (∀ c ∈ reads, Call.IsRead c) ∧
      (op.action defaultAuthor).calls s = reads ++ writes ∧ op.Writes s.store writes := by
  have honly {op : Operation} {calls : List Call} (h : ∀ c ∈ calls, Call.IsRead c) :
      ∃ reads writes, (∀ c ∈ reads, Call.IsRead c) ∧ calls = reads ++ writes ∧
        op.Writes s.store writes := ⟨calls, [], h, (List.append_nil calls).symm, .nothing op⟩
  cases op with
  | create salt post message author password parent =>
    have hreads := reads_chooseHash (σ := σ) post parent s
    rw [Operation.action]
    obtain ⟨fault, -, hcalls⟩ | ⟨c, s', writes, hchoose, -, -, hwrote, hcalls⟩ :=
      create_calls ⟨defaultAuthor, salt⟩ post message author password parent s
    · exact honly (hcalls ▸ hreads)
    · exact ⟨_, _, hreads, hcalls, .new (chooseHash_fresh hchoose) hwrote.isPrefix⟩
  | update hash password message =>
    have hreads := reads_authorize (σ := σ) hash password s
    rw [Operation.action]
    obtain ⟨fault, -, hcalls⟩ | ⟨c, s', time, -, -, -, hcalls⟩ :=
      update_calls hash password message s
    · exact honly (hcalls ▸ hreads)
    · exact ⟨_, _, hreads, hcalls, .edit _⟩
  | delete hash password =>
    have hreads := reads_authorize (σ := σ) hash password s
    rw [Operation.action]
    obtain ⟨fault, -, hcalls⟩ | ⟨c, s', -, -, hcalls⟩ := delete_calls hash password s
    · exact honly (hcalls ▸ hreads)
    · exact ⟨_, _, hreads, hcalls, .removal c.post⟩
  | find hash => exact honly (reads_find hash s)
  | list post => exact honly (reads_list post s)
  | threads post => exact honly (reads_threads post s)

/-- A new comment gets a hash that no record has, so it is no other either. -/
theorem operation_spares (defaultAuthor : String) (op : Operation) (s : Site σ) :
    ∀ c ∈ (op.action defaultAuthor).calls s, c.Spares (op.others s.store) := by
  intro call hcall
  obtain ⟨reads, writes, hreads, hcalls, hwrites⟩ := writes_of_operation defaultAuthor op s
  rw [hcalls] at hcall
  rcases List.mem_append.mp hcall with hcall | hcall
  · exact .inl (hreads call hcall)
  · cases hwrites with
    | nothing => cases hcall
    | new hfresh hwrites =>
      refine .inr ⟨_, writesFor_of_created (hwrites.subset hcall), ?_⟩
      rw [Operation.others, hfresh]
      rfl
    | edit value =>
      cases List.mem_singleton.mp hcall
      exact .inr ⟨_, .setRecord _, by simp [Operation.others, Operation.target?]⟩
    | removal post =>
      exact .inr ⟨_, writesFor_of_removed hcall, by simp [Operation.others, Operation.target?]⟩

/-! ## Attempts from an empty store -/

theorem coherent_operation (defaultAuthor : String) (op : Operation) {s : Site σ}
    (h : Coherent s.store) :
    Throughout Coherent ((op.action defaultAuthor).calls s) s.store := by
  cases op with
  | create salt post message author password parent =>
    exact coherent_create h ⟨defaultAuthor, salt⟩ post message author password parent
  | update hash password message => exact coherent_update h hash password message
  | delete hash password => exact coherent_delete h hash password
  | find hash => exact throughout_reads (reads_find hash s) h
  | list post => exact throughout_reads (reads_list post s) h
  | threads post => exact throughout_reads (reads_threads post s) h

theorem coherent_attempted (defaultAuthor : String) (attempts : List Attempt) {s : Site σ}
    (h : Coherent s.store) : Coherent (attempted defaultAuthor attempts s).store := by
  induction attempts generalizing s with
  | nil => exact h
  | cons a rest ih =>
    obtain ⟨n, hstore⟩ := store_attempt defaultAuthor a s
    refine ih (s := a.site defaultAuthor s) ?_
    rw [hstore]
    exact coherent_operation defaultAuthor a.operation h n

/-- A store that attempts lead to from one that held nothing. -/
def Reachable (s : σ) : Prop :=
  ∃ (defaultAuthor : String) (start : Site σ) (attempts : List Attempt),
    Blank start.store ∧ (attempted defaultAuthor attempts start).store = s

theorem Reachable.coherent {s : σ} (h : Reachable s) : Coherent s := by
  obtain ⟨defaultAuthor, start, attempts, hblank, rfl⟩ := h
  exact coherent_attempted defaultAuthor attempts hblank.coherent

/-! ## A removal that is made again -/

/-- Nothing of a comment is stored that could be read or listed. -/
structure Absent (hash : RawText) (s : σ) : Prop where
  record : Viewed.valueAt? s (recordKey hash) = none
  listed : ∀ post, hash ∉ Viewed.listAt s (indexKey post)

/-- A removal that has been authorized once: the comment is still there, and its
password is one that opens it, or its record is gone. -/
structure Removing (c : Comment) (password : RawText) (s : σ) : Prop where
  coherent : Coherent s
  state : Viewed.valueAt? s (recordKey c.hash) = none ∨
    Holds s c ∧ ∃ stored : String,
      Viewed.valueAt? s (passwordKey c.hash) = some (.text stored) ∧ opens password stored = true

theorem removing_of_authorized {hash password : RawText} {s : Site σ} (h : Coherent s.store)
    {c : Comment} (hauthorized : ((authorize hash password).outcome s).1 = .ok c) :
    c.hash = hash ∧ Removing c password s.store := by
  obtain ⟨fault, hfault⟩ | ⟨d, stored, hd, rfl, hstored, hopens, hok⟩ :=
    h.authorize_eq hash password
  · rw [hfault] at hauthorized
    cases hauthorized
  · rw [hok] at hauthorized
    cases hauthorized
    exact ⟨rfl, h, .inr ⟨hd, stored, hstored, hopens⟩⟩

section Removing

variable {c : Comment} {password : RawText} {s : Site σ} (h : Removing c password s.store)
include h

/-- A removal that is made again finds the record gone and only reads, or finds
the comment and takes it away, unless the index of its post is refused. -/
theorem Removing.calls :
    (∀ call ∈ (delete c.hash password).calls s, call.IsRead) ∧
      (KeyValue.takes (indexKey c.post) s.store = true →
        Viewed.valueAt? s.store (recordKey c.hash) = none) ∨
    Holds s.store c ∧ ∃ reads, (∀ call ∈ reads, Call.IsRead call) ∧
      (delete c.hash password).calls s = reads ++ removalCalls c.post c.hash := by
  obtain ⟨hcoherent, hstate⟩ := h
  have hreads := reads_authorize (σ := σ) c.hash password s
  obtain ⟨fault, hfault, hcalls⟩ | ⟨d, s', hauthorize, -, hcalls⟩ := delete_calls c.hash password s
  · refine .inl ⟨by rw [hcalls]; exact hreads, fun hindex => hstate.resolve_right ?_⟩
    -- the password still opens a comment that is there, so its removal is authorized
    rintro ⟨hc, stored, hstored, hopens⟩
    rw [(delete_of_authorized (hcoherent.authorize_of_opens hc hstored hopens) hindex).1] at hfault
    cases hfault
  · obtain ⟨fault, hfault⟩ | ⟨e, -, he, hhash, -, -, hok⟩ :=
      hcoherent.authorize_eq c.hash password
    · rw [hfault] at hauthorize
      cases hauthorize
    · rw [hok] at hauthorize
      cases hauthorize
      have hc : d = c := by
        obtain hnone | ⟨hc, -⟩ := hstate
        · rw [← hhash, he.record] at hnone
          cases hnone
        · exact he.unique hc hhash
      subst hc
      exact .inr ⟨he, _, hreads, hcalls⟩

theorem Removing.throughout :
    Throughout (Removing c password) ((delete c.hash password).calls s) s.store := by
  obtain ⟨hreads, -⟩ | ⟨hc, reads, hreads, hcalls⟩ := h.calls
  · exact throughout_reads hreads h
  · rw [hcalls]
    refine throughout_reads_append hreads ?_
    have hcoherent := h.coherent.throughout_removal hc
    obtain ⟨-, hnone | ⟨-, stored, hstored, hopens⟩⟩ := h
    · rw [hc.record] at hnone
      cases hnone
    · have hlisted : Removing c password s.store :=
        ⟨hcoherent 0, .inr ⟨hc, stored, hstored, hopens⟩⟩
      have hunlisted : Removing c password
          (KeyValue.perform (.remove (indexKey c.post) c.hash) s.store).2 :=
        ⟨hcoherent 1, .inr ⟨⟨by simp [hc.record], hc.dated⟩, stored, by simpa using hstored,
          hopens⟩⟩
      refine throughout_cons hlisted (throughout_cons hunlisted (throughout_cons
        ⟨hcoherent 2, .inl ?_⟩ (throughout_nil ⟨hcoherent 3, .inl ?_⟩)))
      · simp
      · simp

/-- A removal that is made again, and not cut short, leaves nothing behind. -/
theorem Removing.absent (htaken : KeyValue.takes (indexKey c.post) s.store = true) :
    Absent c.hash ((delete c.hash password).outcome s).2.store := by
  rw [store_outcome]
  obtain ⟨hreads, hnone⟩ | ⟨hc, reads, hreads, hcalls⟩ := h.calls
  · rw [storeAfter_reads hreads]
    exact ⟨hnone htaken, h.coherent.not_listed (hnone htaken)⟩
  · rw [hcalls, storeAfter_append, storeAfter_reads hreads]
    obtain ⟨hrecord, -, hlisted⟩ := h.coherent.gone_of_removal hc
    exact ⟨hrecord, hlisted⟩

end Removing

/-- Removals that are cut short, one after the other. -/
theorem removing_cuts {c : Comment} {password : RawText} (cuts : List Nat) {s : Site σ}
    (h : Removing c password s.store) :
    Removing c password ((delete c.hash password).cuts cuts s).store := by
  induction cuts generalizing s with
  | nil => exact h
  | cons n rest ih =>
    refine ih (s := ((delete c.hash password).cut n s).2) ?_
    rw [store_cut]
    exact h.throughout n

/-! ## The order of the writes -/

/-- A store whose indexes name each comment once, and only what is there on that
post, so that a list shows all that its index names. A post whose index is refused
has no list. -/
structure Intact (site : Site σ) : Prop where
  index_nodup : ∀ post, (Viewed.listAt site.store (indexKey post)).Nodup
  indexed : ∀ post, ∀ hash ∈ Viewed.listAt site.store (indexKey post),
    ∃ record, Viewed.valueAt? site.store (recordKey hash) = some record ∧
      record.field? "commit_hash" = some (.text hash) ∧
      record.field? "post_id" = some (.text post)
  listed : ∀ post, KeyValue.takes (indexKey post) site.store = true →
    ∃ cs, (list post).outcome site = (.ok cs, site) ∧
      cs.map Comment.hash = Viewed.listAt site.store (indexKey post)

theorem Coherent.intact {site : Site σ} (h : Coherent site.store) : Intact site where
  index_nodup := h.index_nodup
  indexed post hash hmem := by
    obtain ⟨c, hc, rfl, rfl⟩ := h.indexed post hash hmem
    obtain ⟨hhash, hpost, -⟩ := Comment.fields_toJson c
    exact ⟨c.toJson, hc.record, hhash, hpost⟩
  listed post htaken := by
    obtain ⟨cs, hlist, hhashes, -⟩ := h.list_eq htaken
    exact ⟨cs, hlist, hhashes⟩

/-- Whatever operations are cut short, and wherever, what the indexes name is
there. An operation, cut short or not, leaves the comments alone that it is not
about. And after a removal that was authorized has been cut short, once or several
times, one that is not cut short takes away what is left, where the index of the post
is not refused. -/
theorem crash_safe (defaultAuthor : String) {start : Site σ} (hblank : Blank start.store)
    (attempts : List Attempt) :
    let site := attempted defaultAuthor attempts start
    Intact site ∧
    (∀ a : Attempt,
      SameFor (a.operation.others site.store) site.store (a.site defaultAuthor site).store) ∧
    ∀ hash password c, ((authorize hash password).outcome site).1 = .ok c →
      KeyValue.takes (indexKey c.post) site.store = true →
      ∀ cuts, Absent hash ((delete hash password).retried cuts site).store := by
  intro site
  have hcoherent := coherent_attempted defaultAuthor attempts hblank.coherent
  refine ⟨hcoherent.intact, fun a => ?_, fun hash password c hauthorized htaken cuts => ?_⟩
  · obtain ⟨n, hstore⟩ := store_attempt defaultAuthor a site
    rw [hstore]
    refine sameFor_storeAfter (fun call hcall => ?_) site.store
    exact operation_spares defaultAuthor a.operation site call (List.mem_of_mem_take hcall)
  · obtain ⟨rfl, hremoving⟩ := removing_of_authorized hcoherent hauthorized
    refine (removing_cuts cuts hremoving).absent ?_
    rw [Viewed.takes_same _ _ site.store, htaken]

/-- Whoever knows the password that a comment was created with is authorized as
long as it is there. -/
theorem authorized_of_live {defaultAuthor : String} {supply : Supply} {ops : List Operation}
    {log : List Event} {site : Site Memory}
    (hrun : run defaultAuthor ops ⟨Memory.empty, supply⟩ = (log, site)) {c : Creation}
    (hc : c ∈ live log) {password : String} (hgiven : given c.password = some ↑password)
    (hne : password ≠ "") :
    ((authorize c.comment.hash password).outcome site).1 = .ok c.comment := by
  obtain ⟨stored, hstored, hdecides⟩ := decides_of_live hrun hc hgiven
  have hdelete := hdecides.delete_ok password (accepts_of_take_eq hstored hne rfl)
  obtain ⟨fault, hfault, -⟩ | ⟨d, s', hauthorize, hok, -⟩ :=
    delete_calls c.comment.hash password site
  · rw [hfault] at hdelete
    cases hdelete
  · rw [hok] at hdelete
    cases hdelete
    rw [hauthorize]

/-- A supply that draws one hash over and over, while no time goes by. -/
def stillSupply (digits : String) : Supply := ⟨fun _ => digits, fun _ => 0, 0, 0⟩

/-- A removal that takes the entry from the index and no more, then one that also
takes the record, and then one that is not cut short. -/
theorem crash_safe_twice_cut :
    let salt := "$2b$04$abcdefghijklmnopqrstuu"
    let start : Site Memory := ⟨Memory.empty, stillSupply "0a1b2c3d"⟩
    let creation : Operation := .create salt "intro" "Hello" none (some "pässword") none
    let site := attempted "Anonymous" [⟨creation, none⟩] start
    let c : Comment := ⟨"0a1b2c3d", "intro", "Anonymous", "Hello", none, .utc 0, none⟩
    Blank start.store ∧ ((authorize c.hash "pässword").outcome site).1 = .ok c ∧ Intact site ∧
      Absent c.hash ((delete c.hash "pässword").retried [3, 4] site).store := by
  intro salt start creation site c
  have hblank : Blank start.store := ⟨fun _ => rfl, fun _ => rfl⟩
  have hlive : (⟨c, salt, some "pässword"⟩ : Creation) ∈
      live (run "Anonymous" [creation] start).1 := by
    decide +kernel
  have hauthorized : ((authorize c.hash "pässword").outcome site).1 = .ok c :=
    authorized_of_live (Prod.eta (run "Anonymous" [creation] start)).symm hlive rfl (by decide)
  obtain ⟨hintact, -, hretry⟩ := crash_safe "Anonymous" hblank [⟨creation, none⟩]
  exact ⟨hblank, hauthorized, hintact, hretry c.hash "pässword" c hauthorized rfl [3, 4]⟩

end CommentThreads.Store
