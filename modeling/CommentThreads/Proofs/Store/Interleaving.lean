/-
CommentThreads.Proofs.Store.Interleaving — programs that take turns on one store.

Each call on a store is one step, and between two calls of one program others may
make theirs. What a program draws and reads of the clock is its own.

* `Shared`, `Shared.step`, `Shared.after` — jobs that share a store, and a schedule
  that says whose step is next.
* `Follows` — every job makes the calls that it would make if it were alone. What
  keeps it so is that a job reads only where no other one writes (`Independent`); two
  jobs may write at one key if both change the index there.
* `serializable` — then nothing but the order in which the indexes are changed makes
  a difference, and the jobs might as well run one after the other in that order.
-/
import CommentThreads.Proofs.Store.Tidy

namespace CommentThreads.Store

/-! ## Jobs -/

section Jobs

variable {σ ι α β : Type} [DecidableEq ι]

/-- A program under way, with what is still to be drawn for it. -/
structure Job (α : Type) where
  program : Program α
  supply : Supply

/-- Jobs that share a store, and the calls that they have made. -/
structure Shared (σ ι α : Type) where
  store : σ
  job : ι → Job α
  made : List (ι × Call)

/-- The value of a program that is done. -/
def Program.value? : Program α → Option α
  | .done a => some a
  | _ => none

theorem Program.eq_done_of_value? {p : Program α} {a : α} (h : p.value? = some a) :
    p = .done a := by
  cases p with
  | done b => exact congrArg Program.done (Option.some.inj h)
  | call | draw | readClock => cases h

namespace Shared

/-- Every job is done. -/
def Finished (sh : Shared σ ι α) : Prop := ∀ i, ∃ a, (sh.job i).program = .done a

/-- The calls that a job has made. -/
def madeBy (sh : Shared σ ι α) (i : ι) : List Call :=
  (sh.made.filter (·.1 = i)).map Prod.snd

/-- The changes of indexes, with the jobs that made them. -/
def indexChanges (sh : Shared σ ι α) : List (ι × Call) := sh.made.filter (·.2.changesIndex)

/-- An order of all jobs, in which those that change an index come as their changes
came. -/
structure InOrder (sh : Shared σ ι α) (order : List ι) : Prop where
  nodup : order.Nodup
  all : ∀ i, i ∈ order
  changes : (sh.indexChanges.map Prod.fst).Sublist order

omit [DecidableEq ι] in
theorem exists_inOrder {sh : Shared σ ι α} (hchanges : (sh.indexChanges.map Prod.fst).Nodup)
    {jobs : List ι} (hjobs : jobs.Nodup) (hall : ∀ i, i ∈ jobs) : ∃ order, sh.InOrder order := by
  classical
  let rest := jobs.filter (· ∉ sh.indexChanges.map Prod.fst)
  refine ⟨sh.indexChanges.map Prod.fst ++ rest, List.nodup_append.mpr ⟨hchanges,
    hjobs.sublist List.filter_sublist, ?_⟩, fun i => ?_, List.sublist_append_left _ _⟩
  · rintro i hi k hk rfl
    exact of_decide_eq_true (List.mem_filter.mp hk).2 hi
  · rw [List.mem_append]
    by_cases hi : i ∈ sh.indexChanges.map Prod.fst
    · exact .inl hi
    · exact .inr (List.mem_filter.mpr ⟨hall i, decide_eq_true hi⟩)

theorem mem_madeBy {sh : Shared σ ι α} {i : ι} {c : Call} :
    c ∈ sh.madeBy i ↔ (i, c) ∈ sh.made := by
  simp [madeBy]

theorem madeBy_of_append {sh sh' : Shared σ ι α} {i : ι} {calls : List Call}
    (h : sh'.made = sh.made ++ calls.map (i, ·)) (k : ι) :
    sh'.madeBy k = sh.madeBy k ++ if k = i then calls else [] := by
  rw [madeBy, h, List.filter_append, List.map_append, ← madeBy, List.filter_map, List.map_map]
  by_cases hk : k = i
  · subst hk
    simp [Function.comp_def]
  · simp [Function.comp_def, hk, Ne.symm hk]

/-- Calls of some kind that a job has made. -/
theorem filter_madeBy (kind : Call → Bool) (sh : Shared σ ι α) (i : ι) :
    ((sh.made.filter (kind ·.2)).filter (·.1 = i)).map Prod.snd = (sh.madeBy i).filter kind := by
  rw [madeBy, List.filter_filter, List.filter_map, List.filter_filter]
  congr 2
  funext p
  exact Bool.and_comm _ _

/-- The calls that write at a key are one job's, if it makes all of them. -/
theorem writes_eq_madeBy {sh : Shared σ ι α} {i : ι} {key : RawText}
    (h : ∀ k, ∀ d ∈ sh.madeBy k, d.writesAt key = true → k = i) :
    (sh.made.map Prod.snd).filter (·.writesAt key) = (sh.madeBy i).filter (·.writesAt key) := by
  rw [madeBy, List.filter_map, List.filter_map, List.filter_filter]
  congr 1
  refine List.filter_congr fun p hp => ?_
  cases hwrites : p.2.writesAt key with
  | false => simp [hwrites]
  | true =>
    have hi : p.1 = i := h p.1 p.2 (mem_madeBy.mpr hp) hwrites
    simp [hwrites, hi]

omit [DecidableEq ι] in
/-- The calls that write at a key are changes of an index, if there are no others. -/
theorem writes_eq_indexChanges {sh : Shared σ ι α} {key : RawText}
    (h : ∀ p ∈ sh.made, p.2.writesAt key = true → p.2.changesIndex = true) :
    (sh.made.map Prod.snd).filter (·.writesAt key) =
      (sh.indexChanges.map Prod.snd).filter (·.writesAt key) := by
  rw [indexChanges, List.filter_map, List.filter_map, List.filter_filter]
  congr 1
  refine List.filter_congr fun p hp => ?_
  cases hwrites : p.2.writesAt key with
  | false => simp [hwrites]
  | true => simp [hwrites, h p hp hwrites]

/-- The jobs with another state of one of them. -/
def put (i : ι) (j : Job α) (jobs : ι → Job α) : ι → Job α := fun k => if k = i then j else jobs k

theorem put_self (i : ι) (j : Job α) (jobs : ι → Job α) : put i j jobs i = j := if_pos rfl

theorem put_of_ne {i k : ι} (h : k ≠ i) (j : Job α) (jobs : ι → Job α) : put i j jobs k = jobs k :=
  if_neg h

theorem put_put (i : ι) (j j' : Job α) (jobs : ι → Job α) :
    put i j (put i j' jobs) = put i j jobs := by
  funext k
  unfold put
  split <;> rfl

theorem put_eq_self (i : ι) (jobs : ι → Job α) : put i (jobs i) jobs = jobs := by
  funext k
  unfold put
  split
  · next h => rw [h]
  · rfl

variable [KeyValue σ]

/-- One step of a job: a call, which may be refused, or a draw of its own. -/
def step (i : ι) (sh : Shared σ ι α) : Shared σ ι α :=
  match (sh.job i).program with
  | .done _ => sh
  | .call c next =>
    if KeyValue.takes c.key sh.store then
      ⟨(KeyValue.perform c sh.store).2,
        put i ⟨next (some (KeyValue.perform c sh.store).1), (sh.job i).supply⟩ sh.job,
        sh.made ++ [(i, c)]⟩
    else ⟨sh.store, put i ⟨next none, (sh.job i).supply⟩ sh.job, sh.made⟩
  | .draw next =>
    let drawn := (sh.job i).supply.nextDigits
    ⟨sh.store, put i ⟨next drawn.1, drawn.2⟩ sh.job, sh.made⟩
  | .readClock next =>
    let read := (sh.job i).supply.nextTime
    ⟨sh.store, put i ⟨next read.1, read.2⟩ sh.job, sh.made⟩

/-- The jobs after the steps of a schedule. -/
def after (schedule : List ι) (sh : Shared σ ι α) : Shared σ ι α :=
  schedule.foldl (fun sh i => sh.step i) sh

/-- Run what is left of a job, while all others wait. -/
def finish (i : ι) (sh : Shared σ ι α) : Shared σ ι α :=
  let site : Site σ := ⟨sh.store, (sh.job i).supply⟩
  ⟨((sh.job i).program.run site).2.store,
    put i ⟨.done ((sh.job i).program.run site).1, ((sh.job i).program.run site).2.supply⟩ sh.job,
    sh.made ++ ((sh.job i).program.calls site).map (i, ·)⟩

/-- Run the first part of what is left of a job, while all others wait. -/
def through (i : ι) (p : Program β) (rest : β → Program α) (sh : Shared σ ι α) : Shared σ ι α :=
  let site : Site σ := ⟨sh.store, (sh.job i).supply⟩
  ⟨(p.run site).2.store, put i ⟨rest (p.run site).1, (p.run site).2.supply⟩ sh.job,
    sh.made ++ (p.calls site).map (i, ·)⟩

/-- The jobs one after the other, in some order. -/
def inTurn (order : List ι) (sh : Shared σ ι α) : Shared σ ι α :=
  order.foldl (fun sh i => sh.finish i) sh

/-- The calls that a job would make if it were alone. -/
def alone (sh : Shared σ ι α) (i : ι) : List Call :=
  (sh.job i).program.calls ⟨sh.store, (sh.job i).supply⟩

/-- The site of a job that has made its calls alone. -/
def ownSite (start sh : Shared σ ι α) (i : ι) : Site σ :=
  ⟨storeAfter (sh.madeBy i) start.store, (sh.job i).supply⟩

theorem after_append (schedule later : List ι) (sh : Shared σ ι α) :
    sh.after (schedule ++ later) = (sh.after schedule).after later :=
  List.foldl_append

/-- What every step preserves holds after every schedule. -/
theorem after_induction (Inv : Shared σ ι α → Prop) (hstep : ∀ sh i, Inv sh → Inv (sh.step i))
    (schedule : List ι) {sh : Shared σ ι α} (h : Inv sh) : Inv (sh.after schedule) := by
  induction schedule generalizing sh with
  | nil => exact h
  | cons i rest ih => exact ih (hstep sh i h)

/-- A store is told by the calls that were made. -/
theorem store_step {s : σ} {sh : Shared σ ι α} (h : sh.store = storeAfter (sh.made.map Prod.snd) s)
    (i : ι) : (sh.step i).store = storeAfter ((sh.step i).made.map Prod.snd) s := by
  unfold step
  split
  next => exact h
  next c next _ =>
    split
    · simp [storeAfter_append, ← h]
    · exact h
  next next _ => exact h
  next next _ => exact h

theorem store_after {sh : Shared σ ι α} (h : sh.made = []) (schedule : List ι) :
    (sh.after schedule).store = storeAfter ((sh.after schedule).made.map Prod.snd) sh.store :=
  after_induction (fun sh' => sh'.store = storeAfter (sh'.made.map Prod.snd) sh.store)
    (fun _ i hsh' => store_step hsh' i) schedule (by rw [h]; rfl)

/-- The calls that were made are those that the store takes. -/
theorem taken_of_made [Viewed σ] {sh : Shared σ ι α} (h : sh.made = []) (schedule : List ι) :
    ∀ p ∈ (sh.after schedule).made, ∀ s : σ, KeyValue.takes p.2.key s = true := by
  refine after_induction (fun sh => ∀ p ∈ sh.made, ∀ s : σ, KeyValue.takes p.2.key s = true)
    (fun sh i hsh => ?_) schedule (by simp [h])
  unfold step
  split
  next => exact hsh
  next c next _ =>
    split
    next htaken =>
      intro p hp s
      rcases List.mem_append.mp hp with hp | hp
      · exact hsh p hp s
      · cases List.mem_singleton.mp hp
        rw [Viewed.takes_same c.key s sh.store, htaken]
    next => exact hsh
  next => exact hsh
  next => exact hsh

theorem finish_of_done {i : ι} {sh : Shared σ ι α} {a : α}
    (h : (sh.job i).program = .done a) : sh.finish i = sh := by
  have hjob : (⟨.done a, (sh.job i).supply⟩ : Job α) = sh.job i := by rw [← h]
  simp [finish, h, Program.run, Program.calls, hjob, put_eq_self]

/-- The first part of a job takes its steps one after the other. -/
theorem through_eq_after {i : ι} (p : Program β) (rest : β → Program α) {sh : Shared σ ι α}
    (h : (sh.job i).program = p.bind rest) :
    ∃ n, sh.after (List.replicate n i) = sh.through i p rest := by
  induction p generalizing sh with
  | done b =>
    have hjob : (⟨rest b, (sh.job i).supply⟩ : Job α) = sh.job i := by
      rw [← Program.bind_done b rest, ← h]
    exact ⟨0, by simp [after, through, Program.run, Program.calls, hjob, put_eq_self]⟩
  | call c next ih =>
    cases htaken : KeyValue.takes c.key sh.store with
    | true =>
      have hnext : ((sh.step i).job i).program =
          (next (some (KeyValue.perform c sh.store).1)).bind rest := by
        simp [step, h, Program.bind, put_self, htaken]
      obtain ⟨n, hn⟩ := ih _ hnext
      refine ⟨n + 1, hn.trans ?_⟩
      simp [through, step, h, Program.bind, put_self, put_put, Program.run, Program.calls,
        Site.request, Site.perform, htaken]
    | false =>
      have hnext : ((sh.step i).job i).program = (next none).bind rest := by
        simp [step, h, Program.bind, put_self, htaken]
      obtain ⟨n, hn⟩ := ih _ hnext
      refine ⟨n + 1, hn.trans ?_⟩
      simp [through, step, h, Program.bind, put_self, put_put, Program.run, Program.calls,
        Site.request, htaken]
  | draw next ih =>
    have hnext : ((sh.step i).job i).program = (next (sh.job i).supply.nextDigits.1).bind rest := by
      simp [step, h, Program.bind, put_self]
    obtain ⟨n, hn⟩ := ih _ hnext
    refine ⟨n + 1, hn.trans ?_⟩
    simp [through, step, h, Program.bind, put_self, put_put, Program.run, Program.calls]
  | readClock next ih =>
    have hnext : ((sh.step i).job i).program = (next (sh.job i).supply.nextTime.1).bind rest := by
      simp [step, h, Program.bind, put_self]
    obtain ⟨n, hn⟩ := ih _ hnext
    refine ⟨n + 1, hn.trans ?_⟩
    simp [through, step, h, Program.bind, put_self, put_put, Program.run, Program.calls]

/-- A job may go through its first part before any other one takes a step. -/
theorem exists_through {i : ι} {p : Program β} {rest : β → Program α} {supply : Supply}
    {sh : Shared σ ι α} (hjob : sh.job i = ⟨p.bind rest, supply⟩) :
    ∃ n sh', sh.after (List.replicate n i) = sh' ∧
      sh'.store = (p.run ⟨sh.store, supply⟩).2.store ∧
      sh'.job i = ⟨rest (p.run ⟨sh.store, supply⟩).1, (p.run ⟨sh.store, supply⟩).2.supply⟩ ∧
      (∀ k, k ≠ i → sh'.job k = sh.job k) ∧
      sh'.made = sh.made ++ (p.calls ⟨sh.store, supply⟩).map (i, ·) := by
  obtain ⟨n, hn⟩ := through_eq_after p rest (congrArg Job.program hjob)
  rw [through, hjob] at hn
  exact ⟨n, _, hn, rfl, put_self _ _ _, fun k hk => put_of_ne hk _ _, rfl⟩

/-- A job that is run to its end takes its steps one after the other. -/
theorem finish_eq_after (i : ι) (sh : Shared σ ι α) :
    ∃ n, sh.after (List.replicate n i) = sh.finish i :=
  through_eq_after (sh.job i).program .done (Program.bind_done_right _).symm

/-- Jobs that are run in turn follow a schedule. -/
theorem inTurn_eq_after (order : List ι) (sh : Shared σ ι α) :
    ∃ schedule, sh.after schedule = sh.inTurn order := by
  induction order generalizing sh with
  | nil => exact ⟨[], rfl⟩
  | cons i rest ih =>
    obtain ⟨n, hn⟩ := finish_eq_after i sh
    obtain ⟨schedule, hrest⟩ := ih (sh.finish i)
    exact ⟨List.replicate n i ++ schedule, by rw [after_append, hn, hrest]; rfl⟩

/-- A job that has had its turn is done, and stays so. -/
theorem finished_inTurn {order : List ι} {sh : Shared σ ι α}
    (h : ∀ i, i ∈ order ∨ ∃ a, (sh.job i).program = .done a) : (sh.inTurn order).Finished := by
  induction order generalizing sh with
  | nil => exact fun i => (h i).resolve_left List.not_mem_nil
  | cons i rest ih =>
    have hrest (k : ι) : k ∈ rest ∨ ∃ a, ((sh.finish i).job k).program = .done a := by
      by_cases hk : k = i
      · subst hk
        exact .inr ⟨_, congrArg Job.program (put_self k _ sh.job)⟩
      · have hjob : (sh.finish i).job k = sh.job k := put_of_ne hk _ _
        rw [hjob]
        rcases h k with hmem | hdone
        · exact .inl ((List.mem_cons.mp hmem).resolve_left hk)
        · exact .inr hdone
    exact ih hrest

/-- However far the jobs have got, they can all be done in the end. -/
theorem exists_finished {jobs : List ι} (hall : ∀ i, i ∈ jobs) (sh : Shared σ ι α) :
    ∃ schedule, (sh.after schedule).Finished := by
  obtain ⟨schedule, hschedule⟩ := inTurn_eq_after jobs sh
  exact ⟨schedule, hschedule ▸ finished_inTurn fun i => .inl (hall i)⟩

/-- Jobs that are run in turn make their calls in blocks. -/
theorem made_inTurn {order : List ι} (horder : order.Nodup) (sh : Shared σ ι α) :
    ∃ block : ι → List Call,
      (sh.inTurn order).made = sh.made ++ order.flatMap fun i => (block i).map (i, ·) := by
  induction order generalizing sh with
  | nil => exact ⟨fun _ => [], (List.append_nil _).symm⟩
  | cons i rest ih =>
    obtain ⟨hnot, hrest⟩ := List.nodup_cons.mp horder
    obtain ⟨block, hblock⟩ := ih hrest (sh.finish i)
    refine ⟨fun k => if k = i then sh.alone i else block k, ?_⟩
    have hsame : (rest.map fun k => (if k = i then sh.alone i else block k).map (k, ·)) =
        rest.map fun k => (block k).map (k, ·) := by
      refine List.map_congr_left fun k hk => ?_
      have hne : k ≠ i := fun heq => hnot (heq ▸ hk)
      rw [if_neg hne]
    simp only [List.flatMap_def, List.map_cons, List.flatten_cons, if_true] at hblock ⊢
    rw [hsame, ← List.append_assoc]
    exact hblock

end Shared

end Jobs

/-! ## Jobs that do not disturb each other -/

/-- Calls of several jobs, of which two share a key only if both read there, or both
change the index there. -/
structure Independent {ι : Type} (calls : ι → List Call) : Prop where
  proper : ∀ i, ∀ c ∈ calls i, c.Proper
  apart : ∀ i k, i ≠ k → ∀ c ∈ calls i, ∀ d ∈ calls k, c.key = d.key →
    c.IsRead ∧ d.IsRead ∨ c.changesIndex = true ∧ d.changesIndex = true

/-- Only changes of an index may meet with what another job writes. -/
theorem Independent.same_job {ι : Type} {calls : ι → List Call} (h : Independent calls) {i k : ι}
    {c d : Call} (hc : c ∈ calls i) (hindex : c.changesIndex = false) (hd : d ∈ calls k)
    (hwrites : d.writesAt c.key = true) : k = i := by
  refine Classical.byContradiction fun hne => ?_
  rcases h.apart i k (Ne.symm hne) c hc d hd (Call.key_of_writesAt hwrites).symm with
    ⟨-, hread⟩ | ⟨hchange, -⟩
  · exact Call.not_isRead_of_writesAt hwrites hread
  · rw [hindex] at hchange
    cases hchange

section Independent

variable {σ ι α : Type} [KeyValue σ] [DecidableEq ι]

open Shared

/-- Each job has made the first of the calls that it would make alone, and the rest
of them, and its end, are still before it. -/
structure Follows (start sh : Shared σ ι α) : Prop where
  store : sh.store = storeAfter (sh.made.map Prod.snd) start.store
  calls : ∀ i, sh.madeBy i ++ (sh.job i).program.calls (start.ownSite sh i) = start.alone i
  run : ∀ i, (sh.job i).program.run (start.ownSite sh i) =
    (start.job i).program.run ⟨start.store, (start.job i).supply⟩

section Follows

variable {start sh : Shared σ ι α}

theorem follows_start (h : start.made = []) : Follows start start where
  store := by rw [h]; rfl
  calls i := by
    have hnone : start.madeBy i = [] := by rw [madeBy, h]; rfl
    rw [hnone, List.nil_append, ownSite, hnone]
    rfl
  run i := by
    have hnone : start.madeBy i = [] := by rw [madeBy, h]; rfl
    rw [ownSite, hnone]
    rfl

theorem Follows.mem_alone (h : Follows start sh) {i : ι} {c : Call} (hc : c ∈ sh.madeBy i) :
    c ∈ start.alone i := by
  rw [← h.calls i]
  exact List.mem_append_left _ hc

/-- A job that has got on by some calls still follows, and so do all others. -/
theorem Follows.advance {sh' : Shared σ ι α} (h : Follows start sh) {i : ι} {j : Job α}
    (calls : List Call) (hjob : sh'.job = put i j sh.job)
    (hmade : sh'.made = sh.made ++ calls.map (i, ·))
    (hstore : sh'.store = storeAfter (sh'.made.map Prod.snd) start.store)
    (hcalls : (sh.job i).program.calls (start.ownSite sh i) =
      calls ++ j.program.calls ⟨storeAfter calls (start.ownSite sh i).store, j.supply⟩)
    (hrun : (sh.job i).program.run (start.ownSite sh i) =
      j.program.run ⟨storeAfter calls (start.ownSite sh i).store, j.supply⟩) :
    Follows start sh' := by
  have hown : start.ownSite sh' i = ⟨storeAfter calls (start.ownSite sh i).store, j.supply⟩ := by
    rw [ownSite, madeBy_of_append hmade, if_pos rfl, storeAfter_append, hjob, put_self]
    rfl
  have hother {k : ι} (hk : k ≠ i) : start.ownSite sh' k = start.ownSite sh k := by
    rw [ownSite, madeBy_of_append hmade, if_neg hk, List.append_nil, hjob, put_of_ne hk]
    rfl
  refine ⟨hstore, fun k => ?_, fun k => ?_⟩
  · by_cases hk : k = i
    · subst hk
      rw [hown, madeBy_of_append hmade, if_pos rfl, hjob, put_self, List.append_assoc, ← hcalls]
      exact h.calls k
    · rw [hother hk, madeBy_of_append hmade, if_neg hk, List.append_nil, hjob, put_of_ne hk]
      exact h.calls k
  · by_cases hk : k = i
    · subst hk
      rw [hown, hjob, put_self, ← hrun]
      exact h.run k
    · rw [hother hk, hjob, put_of_ne hk]
      exact h.run k

theorem Follows.proper (h : Follows start sh) (hind : Independent start.alone) :
    ∀ c ∈ sh.made.map Prod.snd, c.Proper := by
  intro c hc
  obtain ⟨p, hp, rfl⟩ := List.mem_map.mp hc
  exact hind.proper p.1 p.2 (h.mem_alone (mem_madeBy.mpr hp))

/-- What a job reads is what it would read if it were alone: no other one writes
there. -/
theorem Follows.agree [Viewed σ] (h : Follows start sh) (hind : Independent start.alone)
    (htidy : Tidy start.store) {i : ι} {c : Call} (hc : c ∈ start.alone i) (hread : c.IsRead) :
    AgreeAt c.key sh.store (start.ownSite sh i).store := by
  have hwrites : (sh.made.map Prod.snd).filter (·.writesAt c.key) =
      (sh.madeBy i).filter (·.writesAt c.key) := writes_eq_madeBy fun k d hd hwrites =>
    hind.same_job hc (Call.changesIndex_of_isRead hread) (h.mem_alone hd) hwrites
  have hall := agreeAt_filter (h.proper hind) c.key htidy (AgreeAt.refl c.key start.store)
  have hown := agreeAt_filter (fun d hd => hind.proper i d (h.mem_alone hd)) c.key htidy
    (AgreeAt.refl c.key start.store)
  rw [hwrites, ← h.store] at hall
  exact hall.trans hown.symm

theorem Follows.step [Viewed σ] (h : Follows start sh) (hind : Independent start.alone)
    (htidy : Tidy start.store) (i : ι) : Follows start (sh.step i) := by
  have hcalls := h.calls i
  have hstore := store_step h.store i
  unfold Shared.step at hstore ⊢
  split at hstore
  next => exact h
  next c next hprogram =>
    rw [hprogram, Program.calls] at hcalls
    have hsame := Viewed.takes_same c.key (start.ownSite sh i).store sh.store
    split at hstore
    next htaken =>
      rw [hsame, if_pos htaken] at hcalls
      have hmem : c ∈ start.alone i := by
        rw [← hcalls]
        exact List.mem_append_right _ List.mem_cons_self
      have hanswer : (KeyValue.perform c sh.store).1 =
          (KeyValue.perform c (start.ownSite sh i).store).1 :=
        answer_eq fun hread => h.agree hind htidy hmem hread
      rw [if_pos htaken]
      refine h.advance [c] rfl rfl hstore ?_ ?_
      · rw [hprogram, hanswer, Program.calls, hsame, if_pos htaken]
        rfl
      · rw [hprogram, hanswer, Program.run, Site.request, hsame, if_pos htaken]
        rfl
    next hrefused =>
      rw [if_neg hrefused]
      refine h.advance [] rfl (List.append_nil _).symm hstore ?_ ?_
      · rw [hprogram, Program.calls, hsame, if_neg hrefused]
        rfl
      · rw [hprogram, Program.run, Site.request, hsame, if_neg hrefused]
        rfl
  next next hprogram =>
    refine h.advance [] rfl (List.append_nil _).symm hstore ?_ ?_
    · rw [hprogram]
      rfl
    · rw [hprogram]
      rfl
  next next hprogram =>
    refine h.advance [] rfl (List.append_nil _).symm hstore ?_ ?_
    · rw [hprogram]
      rfl
    · rw [hprogram]
      rfl

theorem follows_after [Viewed σ] (hind : Independent start.alone) (htidy : Tidy start.store)
    (hmade : start.made = []) (schedule : List ι) : Follows start (start.after schedule) :=
  after_induction (Follows start) (fun _ i h => h.step hind htidy i) schedule (follows_start hmade)

/-- A job that is done has made all its calls and ends as it would alone. -/
theorem Follows.done (h : Follows start sh) {i : ι} {a : α}
    (hdone : (sh.job i).program = .done a) :
    sh.madeBy i = start.alone i ∧
      sh.job i = ⟨.done ((start.job i).program.run ⟨start.store, (start.job i).supply⟩).1,
        ((start.job i).program.run ⟨start.store, (start.job i).supply⟩).2.supply⟩ := by
  have hcalls := h.calls i
  have hrun := h.run i
  rw [hdone] at hcalls hrun
  refine ⟨by rw [← hcalls]; exact (List.append_nil _).symm, ?_⟩
  rw [← hrun]
  cases hjob : sh.job i with
  | mk program supply =>
    rw [hjob] at hdone
    cases hdone
    simp [Program.run, ownSite, hjob]

/-! ## The order of the changes of indexes -/

omit [KeyValue σ] in
theorem nodup_of_filter_le {made : List (ι × Call)}
    (h : ∀ i, (made.filter (·.1 = i)).length ≤ 1) : (made.map Prod.fst).Nodup := by
  induction made with
  | nil => exact List.nodup_nil
  | cons p rest ih =>
    refine List.nodup_cons.mpr ⟨fun hmem => ?_, ih fun i => ?_⟩
    · obtain ⟨q, hq, heq⟩ := List.mem_map.mp hmem
      have hpos : 0 < (rest.filter (·.1 = p.1)).length :=
        List.length_pos_of_mem (List.mem_filter.mpr ⟨hq, decide_eq_true heq⟩)
      have hle := h p.1
      rw [List.filter_cons_of_pos (by simp), List.length_cons] at hle
      omega
    · have hle := h i
      rw [List.filter_cons] at hle
      split at hle
      · exact Nat.le_of_succ_le hle
      · exact hle

/-- The changes of indexes that a job makes are those that it would make alone. -/
theorem Follows.indexChanges_eq (h : Follows start sh) (hdone : sh.Finished) (i : ι) :
    (sh.indexChanges.filter (·.1 = i)).map Prod.snd = (start.alone i).filter Call.changesIndex := by
  obtain ⟨a, ha⟩ := hdone i
  rw [← (h.done ha).1]
  exact filter_madeBy Call.changesIndex sh i

/-- Jobs that change an index at most once do so in some order. -/
theorem Follows.nodup_indexChanges (h : Follows start sh) (hdone : sh.Finished)
    (hle : ∀ i, ((start.alone i).filter Call.changesIndex).length ≤ 1) :
    (sh.indexChanges.map Prod.fst).Nodup := by
  refine nodup_of_filter_le fun i => ?_
  rw [← List.length_map Prod.snd, h.indexChanges_eq hdone i]
  exact hle i

/-- Calls of jobs that come in some order, each job's together, are told by what each
job has. -/
theorem eq_flatMap_of_sublist {f : ι → List Call} {order : List ι} (horder : order.Nodup)
    {made : List (ι × Call)} (hsub : (made.map Prod.fst).Sublist order)
    (hf : ∀ i ∈ order, (made.filter (·.1 = i)).map Prod.snd = f i) :
    made = order.flatMap fun i => (f i).map (i, ·) := by
  induction order generalizing made with
  | nil => exact List.map_eq_nil_iff.mp (List.sublist_nil.mp hsub)
  | cons i rest ih =>
    obtain ⟨hnot, hrest⟩ := List.nodup_cons.mp horder
    -- the calls of the first job are those before the calls of the rest
    have hnone {later : List (ι × Call)} (hlater : (later.map Prod.fst).Sublist rest) :
        later.filter (·.1 = i) = [] := by
      refine List.filter_eq_nil_iff.mpr fun p hp heq => hnot ?_
      rw [← of_decide_eq_true heq]
      exact hlater.subset (List.mem_map_of_mem hp)
    rcases List.sublist_cons_iff.mp hsub with hlater | ⟨ids, hids, hlater⟩
    · have hempty : f i = [] := by rw [← hf i List.mem_cons_self, hnone hlater]; rfl
      rw [List.flatMap_cons, hempty]
      exact ih hrest hlater fun k hk => hf k (List.mem_cons_of_mem _ hk)
    · obtain ⟨p, later, rfl, rfl, rfl⟩ := List.map_eq_cons_iff.mp hids
      have hone : f p.1 = [p.2] := by
        rw [← hf p.1 List.mem_cons_self, List.filter_cons_of_pos (by simp), hnone hlater]
        rfl
      rw [List.flatMap_cons, hone]
      refine congrArg (p :: ·) (ih hrest hlater fun k hk => ?_)
      have hne : p.1 ≠ k := fun heq => hnot (heq ▸ hk)
      rw [← hf k (List.mem_cons_of_mem _ hk), List.filter_cons_of_neg (by simpa using hne)]

/-- Of the calls of jobs in blocks, one job has its block. -/
theorem filter_flatMap_map {f : ι → List Call} {order : List ι} (horder : order.Nodup) {i : ι}
    (hi : i ∈ order) :
    ((order.flatMap fun k => (f k).map (k, ·)).filter (·.1 = i)).map Prod.snd = f i := by
  have hblock (k : ι) :
      (((f k).map (k, ·)).filter (·.1 = i)).map Prod.snd = if k = i then f i else [] := by
    rw [List.filter_map, List.map_map]
    by_cases hk : k = i
    · subst hk
      simp [Function.comp_def]
    · simp [Function.comp_def, hk]
  induction order with
  | nil => cases hi
  | cons k rest ih =>
    obtain ⟨hnot, hrest⟩ := List.nodup_cons.mp horder
    rw [List.flatMap_cons, List.filter_append, List.map_append, hblock]
    by_cases hk : k = i
    · subst hk
      have hlater : (rest.flatMap fun j => (f j).map (j, ·)).filter (·.1 = k) = [] := by
        refine List.filter_eq_nil_iff.mpr fun p hp heq => hnot ?_
        obtain ⟨j, hj, hmem⟩ := List.mem_flatMap.mp hp
        obtain ⟨c, -, rfl⟩ := List.mem_map.mp hmem
        exact of_decide_eq_true heq ▸ hj
      rw [if_pos rfl, hlater]
      exact List.append_nil _
    · rw [if_neg hk, List.nil_append]
      exact ih hrest ((List.mem_cons.mp hi).resolve_left (Ne.symm hk))

/-- Jobs that change indexes in the order of their turns change them as they do in
turn. -/
theorem indexChanges_inTurn [Viewed σ] {start sh : Shared σ ι α} (hind : Independent start.alone)
    (htidy : Tidy start.store) (hstart : start.made = []) (h : Follows start sh)
    (hdone : sh.Finished) {order : List ι} (horder : sh.InOrder order) :
    sh.indexChanges = (start.inTurn order).indexChanges := by
  obtain ⟨schedule, hschedule⟩ := inTurn_eq_after order start
  have hturn : Follows start (start.inTurn order) :=
    hschedule ▸ follows_after hind htidy hstart schedule
  obtain ⟨block, hblock⟩ := made_inTurn horder.nodup start
  rw [hstart, List.nil_append] at hblock
  have hblocks (i : ι) : block i = start.alone i := by
    have hend : (start.inTurn order).Finished := finished_inTurn fun i => .inl (horder.all i)
    obtain ⟨a, ha⟩ := hend i
    rw [← (hturn.done ha).1, madeBy, hblock, filter_flatMap_map horder.nodup (horder.all i)]
  have hchanges : (start.inTurn order).indexChanges =
      order.flatMap fun i => ((start.alone i).filter Call.changesIndex).map (i, ·) := by
    rw [indexChanges, hblock, List.filter_flatMap]
    simp only [List.filter_map, hblocks]
    rfl
  rw [hchanges]
  exact eq_flatMap_of_sublist horder.nodup horder.changes fun i _ => h.indexChanges_eq hdone i

/-- Two ways of taking turns, in which all jobs are done and the indexes were changed
in the same order, end alike. -/
theorem Follows.same [Viewed σ] {start sh sh' : Shared σ ι α} (hind : Independent start.alone)
    (htidy : Tidy start.store) (h : Follows start sh) (h' : Follows start sh')
    (hdone : sh.Finished) (hdone' : sh'.Finished) (horder : sh.indexChanges = sh'.indexChanges) :
    sh.job = sh'.job ∧ SameView sh.store sh'.store := by
  have hmade (i : ι) : sh.madeBy i = sh'.madeBy i ∧ sh.job i = sh'.job i := by
    obtain ⟨a, ha⟩ := hdone i
    obtain ⟨a', ha'⟩ := hdone' i
    obtain ⟨hcalls, hjob⟩ := h.done ha
    obtain ⟨hcalls', hjob'⟩ := h'.done ha'
    exact ⟨hcalls.trans hcalls'.symm, hjob.trans hjob'.symm⟩
  have hwrites (key : RawText) : (sh.made.map Prod.snd).filter (·.writesAt key) =
      (sh'.made.map Prod.snd).filter (·.writesAt key) := by
    by_cases hother : ∃ i, ∃ c ∈ start.alone i, c.writesAt key = true ∧ c.changesIndex = false
    · obtain ⟨i, c, hc, hkey, hindex⟩ := hother
      obtain rfl := Call.key_of_writesAt hkey
      rw [writes_eq_madeBy fun k d hd => hind.same_job hc hindex (h.mem_alone hd),
        writes_eq_madeBy fun k d hd => hind.same_job hc hindex (h'.mem_alone hd), (hmade i).1]
    · have honly {sh : Shared σ ι α} (h : Follows start sh) : ∀ p ∈ sh.made,
          p.2.writesAt key = true → p.2.changesIndex = true := by
        intro p hp hkey
        refine (Bool.not_eq_false _).mp fun hindex => hother ?_
        exact ⟨p.1, p.2, h.mem_alone (mem_madeBy.mpr hp), hkey, hindex⟩
      rw [writes_eq_indexChanges (honly h), writes_eq_indexChanges (honly h'), horder]
  have hagree (key : RawText) : AgreeAt key sh.store sh'.store := by
    have hleft := agreeAt_filter (h.proper hind) key htidy (AgreeAt.refl key start.store)
    have hright := agreeAt_filter (h'.proper hind) key htidy (AgreeAt.refl key start.store)
    rw [hwrites, ← h.store] at hleft
    rw [← h'.store] at hright
    exact hleft.trans hright.symm
  exact ⟨funext fun i => (hmade i).2, fun key => (hagree key).value, fun key => (hagree key).list⟩

/-- Jobs that do not disturb each other end, whatever the schedule, as if they had run
one after the other, in the order in which they changed the indexes. -/
theorem serializable [Viewed σ] {start : Shared σ ι α} (hind : Independent start.alone)
    (htidy : Tidy start.store) (hstart : start.made = []) (schedule : List ι)
    (hdone : (start.after schedule).Finished) {order : List ι}
    (horder : (start.after schedule).InOrder order) :
    (start.after schedule).job = (start.inTurn order).job ∧
      SameView (start.after schedule).store (start.inTurn order).store := by
  have hfollows := follows_after hind htidy hstart schedule
  obtain ⟨serial, hserial⟩ := inTurn_eq_after order start
  have hturn : Follows start (start.inTurn order) :=
    hserial ▸ follows_after hind htidy hstart serial
  have hturns := indexChanges_inTurn hind htidy hstart hfollows hdone horder
  exact hfollows.same hind htidy hturn hdone (finished_inTurn fun i => .inl (horder.all i)) hturns

end Follows

end Independent

end CommentThreads.Store
