/-
CommentThreads.Proofs.Store.Reissue — hashes that are given again.

A new comment gets the first hash that is drawn for it and that no record is under.
Nothing more is asked: not whether a comment had the hash before, nor whether an
answer still names it as that of its root.

* `InUse` — a hash that a comment was given, or that an answer names, and that was not
  removed since.
* `Issued` — the invariant of a run: what is in use is there, and no hash was in use
  when it was given.
* `reissued_after_removal` — so a hash is given again only after its comment was
  removed, and if it is drawn again. `reissued_hash` is a run in which that happens, and
  the answer that was left behind is attached to the new comment.
-/
import CommentThreads.Proofs.Store.Access
import CommentThreads.Proofs.Store.Removal
import CommentThreads.Proofs.Store.Threads

namespace CommentThreads.Store

open Ledger

/-! ## Hashes in use -/

/-- An event made use of a hash: it created the comment that has it, or an answer to
that comment. -/
def Event.Uses (e : Event) (hash : RawText) : Prop :=
  ∃ c, e.creation? = some c ∧ (c.comment.hash = hash ∨ c.comment.parent = some hash)

/-- A hash that was made use of and not removed since. -/
def InUse (log : List Event) (hash : RawText) : Prop :=
  ∃ before e later, log = before ++ e :: later ∧ e.Uses hash ∧
    ∀ d ∈ later, d.removes hash = false

/-- What precedes an event of a log with one more event, and what follows it. -/
theorem concat_eq_append_cons {log before later : List Event} {e d : Event}
    (h : log ++ [e] = before ++ d :: later) :
    (later = [] ∧ log = before ∧ e = d) ∨
      ∃ later', later = later' ++ [e] ∧ log = before ++ d :: later' := by
  rcases List.eq_nil_or_concat later with rfl | ⟨later', x, rfl⟩
  · obtain ⟨hlog, hlast⟩ := List.append_inj' h rfl
    exact .inl ⟨rfl, hlog, List.singleton_inj.mp hlast⟩
  · have hassoc : log ++ [e] = (before ++ d :: later') ++ [x] := by rw [h]; simp
    obtain ⟨hlog, hlast⟩ := List.append_inj' hassoc rfl
    rw [List.singleton_inj.mp hlast]
    exact .inr ⟨later', List.concat_eq_append, hlog⟩

theorem InUse.concat {log : List Event} {e : Event} {hash : RawText} (h : InUse (log ++ [e]) hash) :
    InUse log hash ∧ e.removes hash = false ∨ e.Uses hash := by
  obtain ⟨before, d, later, hlog, huses, hkept⟩ := h
  rcases concat_eq_append_cons hlog with ⟨-, -, rfl⟩ | ⟨later', rfl, hlog'⟩
  · exact .inr huses
  · refine .inl ⟨⟨before, d, later', hlog', huses, fun d' hd' => ?_⟩, ?_⟩
    · exact hkept d' (List.mem_append_left _ hd')
    · exact hkept e (List.mem_append_right _ List.mem_cons_self)

/-! ## Giving hashes -/

/-- A hash was not in use when an event gave it to a comment, and it was drawn then. -/
structure Event.Gives (e : Event) (hash : RawText) (before : List Event) (supply : Supply) :
    Prop where
  unused : ¬InUse before hash
  earlier : ∀ d ∈ before, d.supply.digitsDrawn ≤ e.supply.digitsDrawn
  drawn : ∃ k, e.supply.digitsDrawn ≤ k ∧ k < supply.digitsDrawn ∧
    Text.firstChars Comment.hashLength (supply.digits k) = hash

theorem Event.Gives.later {e : Event} {hash : RawText} {before : List Event}
    {supply supply' : Supply} (h : e.Gives hash before supply) (hlater : supply.Later supply') :
    e.Gives hash before supply' := by
  obtain ⟨k, hle, hlt, hk⟩ := h.drawn
  refine ⟨h.unused, h.earlier, k, hle, Nat.lt_of_lt_of_le hlt hlater.drawn_le, ?_⟩
  rw [hlater.digits_eq, hk]

/-- Every hash that is in use is that of a comment that is there, and none was in use
when it was given. -/
structure Issued (log : List Event) (t : Site Ledger) : Prop where
  known : ∀ hash, InUse log hash → withHash? hash t.store.comments ≠ none
  drawn_le : ∀ e ∈ log, e.supply.digitsDrawn ≤ t.supply.digitsDrawn
  gives : ∀ before e later c, log = before ++ e :: later → e.creation? = some c →
    e.Gives c.comment.hash before t.supply

theorem issued_nil (supply : Supply) : Issued [] ⟨[], supply⟩ where
  known hash h := by
    obtain ⟨before, e, later, hlog, -⟩ := h
    simp at hlog
  drawn_le e he := by simp at he
  gives before e later c hlog := by simp at hlog

theorem Issued.concat {log : List Event} {t t' : Site Ledger} {e : Event} (h : Issued log t)
    (hsupply : e.supply = t.supply) (hlater : t.supply.Later t'.supply)
    (hkept : ∀ hash, withHash? hash t.store.comments ≠ none → e.removes hash = false →
      withHash? hash t'.store.comments ≠ none)
    (huses : ∀ hash, e.Uses hash → withHash? hash t'.store.comments ≠ none)
    (hnew : ∀ c, e.creation? = some c → withHash? c.comment.hash t.store.comments = none ∧
      ∃ k, t.supply.digitsDrawn ≤ k ∧ k < t'.supply.digitsDrawn ∧
        Text.firstChars Comment.hashLength (t'.supply.digits k) = c.comment.hash) :
    Issued (log ++ [e]) t' where
  known hash hinUse := by
    rcases hinUse.concat with ⟨hinUse, hremoves⟩ | hevent
    · exact hkept hash (h.known hash hinUse) hremoves
    · exact huses hash hevent
  drawn_le d hd := by
    rcases List.mem_append.mp hd with hd | hd
    · exact Nat.le_trans (h.drawn_le d hd) hlater.drawn_le
    · cases List.mem_singleton.mp hd
      rw [hsupply]
      exact hlater.drawn_le
  gives before d later c hlog hcreation := by
    rcases concat_eq_append_cons hlog with ⟨-, rfl, rfl⟩ | ⟨later', -, hlog'⟩
    · obtain ⟨hnone, hdrawn⟩ := hnew c hcreation
      refine ⟨fun hinUse => h.known _ hinUse hnone, ?_, ?_⟩
      · rw [hsupply]
        exact h.drawn_le
      · rw [hsupply]
        exact hdrawn
    · exact (h.gives before d later' c hlog' hcreation).later hlater

/-- An operation that gives no hash away, and takes no comment but the one that it
removes. -/
theorem Issued.unchanged {log : List Event} {t t' : Site Ledger} {e : Event} (h : Issued log t)
    (hsupply : e.supply = t.supply) (hlater : t.supply.Later t'.supply)
    (hcreation : e.creation? = none)
    (hkept : ∀ hash, withHash? hash t.store.comments ≠ none → e.removes hash = false →
      withHash? hash t'.store.comments ≠ none) : Issued (log ++ [e]) t' := by
  refine h.concat hsupply hlater hkept (fun hash ⟨c, hc, _⟩ => ?_) fun c hc => ?_
  · rw [hcreation] at hc
    cases hc
  · rw [hcreation] at hc
    cases hc

theorem withHash?_cons_ne_none {hash : RawText} {comments : List Comment}
    (h : withHash? hash comments ≠ none) (c : Comment) : withHash? hash (c :: comments) ≠ none := by
  rw [withHash?_cons]
  split
  · exact Option.some_ne_none c
  · exact h

/-- A new comment is there, and so is the one that it answers. -/
theorem Issued.created {log : List Event} {t t' : Site Ledger} {e : Event} {d : Creation}
    {lock : Option String} {defaultAuthor : String} {post message : RawText}
    {author parent : Option RawText}
    (h : Issued log t)
    (hnew : IsNew defaultAuthor post message author parent t.supply t.store.comments d.comment)
    (hstore : t'.store = ⟨d.comment, lock⟩ :: t.store) (hsupply : e.supply = t.supply)
    (hlater : t.supply.Later t'.supply) (hcreation : e.creation? = some d)
    (hdrawn : ∃ k, t.supply.digitsDrawn ≤ k ∧ k < t'.supply.digitsDrawn ∧
      d.comment.hash = Text.firstChars Comment.hashLength (t.supply.digits k)) :
    Issued (log ++ [e]) t' := by
  have hcomments : t'.store.comments = d.comment :: t.store.comments := by
    rw [hstore, comments_cons]
  refine h.concat hsupply hlater (fun hash hsome _ => ?_) (fun hash huses => ?_) fun d' hd' => ?_
  · rw [hcomments]
    exact withHash?_cons_ne_none hsome d.comment
  · obtain ⟨d', hd', huses⟩ := huses
    obtain rfl : d = d' := Option.some.inj (hcreation.symm.trans hd')
    rw [hcomments]
    obtain hhash | hparent := huses
    · rw [withHash?_cons, if_pos hhash]
      exact Option.some_ne_none _
    · have hattach := hnew.parent_eq
      rw [hparent] at hattach
      exact withHash?_cons_ne_none (withHash?_of_attachGiven hattach) d.comment
  · obtain rfl : d = d' := Option.some.inj (hcreation.symm.trans hd')
    obtain ⟨k, hle, hlt, hk⟩ := hdrawn
    refine ⟨withHash?_of_drawHash (Prod.ext hnew.hash_eq rfl), k, hle, hlt, ?_⟩
    rw [hlater.digits_eq, hk]

theorem Issued.step {defaultAuthor : String} (op : Operation) {log : List Event} {t : Site Ledger}
    (h : Issued log t) :
    Issued (log ++ [⟨op, t.supply, (op.onLedger defaultAuthor t).1⟩])
      (op.onLedger defaultAuthor t).2 := by
  have hlater := later_onLedger defaultAuthor op t
  cases op with
  | create salt post message author password parent =>
    rw [Operation.onLedger] at hlater ⊢
    obtain ⟨fault, houtcome, hstore⟩ | ⟨c, hnew, houtcome, hstore⟩ :=
      create_cases ⟨defaultAuthor, salt⟩ post message author password parent t
    · rw [houtcome]
      refine h.unchanged rfl hlater rfl fun other hsome _ => ?_
      rw [hstore]
      exact hsome
    · rw [houtcome]
      cases lockFor salt password with
      | error fault =>
        refine h.unchanged rfl hlater rfl fun other hsome _ => ?_
        rw [hstore]
        exact withHash?_cons_ne_none hsome c
      | ok lock =>
        exact h.created (d := ⟨c, salt, password⟩) hnew hstore rfl hlater rfl
          (drawn_of_isNew password hnew)
  | update hash password message =>
    refine h.unchanged rfl hlater rfl fun other hsome _ => ?_
    rw [Operation.onLedger]
    obtain ⟨fault, -, hstore⟩ | ⟨c, -, -, hstore⟩ := update_cases hash password message t
    · rw [hstore]
      exact hsome
    · rw [hstore, withHash?_edit]
      split
      · exact fun hnone => hsome (Option.map_eq_none_iff.mp hnone)
      · exact hsome
  | delete hash password =>
    refine h.unchanged rfl hlater rfl fun other hsome hremoves => ?_
    rw [Operation.onLedger] at hremoves ⊢
    obtain ⟨fault, -, hstore⟩ | ⟨c, -, houtcome, hstore⟩ := delete_cases hash password t
    · rw [hstore]
      exact hsome
    · rw [houtcome] at hremoves
      have hne : other ≠ hash := fun heq => of_decide_eq_false hremoves heq.symm
      rw [hstore, withHash?_comments, posting?_remove, if_neg hne, ← withHash?_comments]
      exact hsome
  | find hash => exact h.unchanged rfl hlater rfl fun _ hsome _ => hsome
  | list post => exact h.unchanged rfl hlater rfl fun _ hsome _ => hsome
  | threads post => exact h.unchanged rfl hlater rfl fun _ hsome _ => hsome

/-! ## Hashes that are given again -/

theorem exists_between {log : List Event} {e e' : Event} (h : [e, e'].Sublist log) :
    ∃ before between after, log = before ++ e :: (between ++ e' :: after) := by
  obtain ⟨first, rest, rfl, hfirst, hrest⟩ := List.cons_sublist_iff.mp h
  obtain ⟨before, between, rfl⟩ := List.append_of_mem hfirst
  obtain ⟨between', after, rfl⟩ := List.append_of_mem (List.singleton_sublist.mp hrest)
  exact ⟨before, between ++ between', after, by simp⟩

/-- In any run from an empty store, a hash that a comment was given, or that an answer
names, is given to a later comment only after a removal of that hash, and if it was
drawn again after it. So where no removed hash was drawn again, no two comments were
given one hash, and no comment was given one that an earlier answer names. -/
theorem reissued_after_removal {defaultAuthor : String} {supply : Supply} {ops : List Operation}
    {log : List Event} {site : Site Memory}
    (hrun : run defaultAuthor ops ⟨Memory.empty, supply⟩ = (log, site)) :
    (∀ before e between e' after (c : Creation), log = before ++ e :: (between ++ e' :: after) →
      e'.creation? = some c → e.Uses c.comment.hash →
        ∃ d ∈ between, d.removes c.comment.hash = true ∧
          ∃ k, d.supply.digitsDrawn ≤ k ∧ k < site.supply.digitsDrawn ∧
            Text.firstChars Comment.hashLength (site.supply.digits k) = c.comment.hash) ∧
    (NeverRedrawn log site.supply → (log.filterMap Event.creation?).Pairwise fun c c' =>
      c'.comment.hash ≠ c.comment.hash ∧ c.comment.parent ≠ some c'.comment.hash) := by
  obtain ⟨t, hat, hissued⟩ := ledgerAt_of_run hrun Issued (fun op _ log t h => h.step op)
    (issued_nil supply)
  have hagain : ∀ before e between e' after (c : Creation),
      log = before ++ e :: (between ++ e' :: after) →
      e'.creation? = some c → e.Uses c.comment.hash →
        ∃ d ∈ between, d.removes c.comment.hash = true ∧
          ∃ k, d.supply.digitsDrawn ≤ k ∧ k < site.supply.digitsDrawn ∧
            Text.firstChars Comment.hashLength (site.supply.digits k) = c.comment.hash := by
    intro before e between e' after c hlog hcreation huses
    have hgives := hissued.gives (before ++ e :: between) e' after c (by rw [hlog]; simp) hcreation
    obtain ⟨k, hle, hlt, hk⟩ := hgives.drawn
    refine Classical.byContradiction fun hnot => hgives.unused
      ⟨before, e, between, rfl, huses, fun d hd => ?_⟩
    refine Bool.eq_false_iff.mpr fun hremoves => hnot ⟨d, hd, hremoves, k, ?_, ?_, ?_⟩
    · exact Nat.le_trans (hgives.earlier d (by simp [hd])) hle
    · rw [hat.supply]
      exact hlt
    · rw [hat.supply]
      exact hk
  refine ⟨hagain, fun hnever => ?_⟩
  -- one use of a hash after the other would come with a draw of a removed hash
  have hdistinct {e e' : Event} {c c' : Creation} (hsub : [e, e'].Sublist log)
      (hc : e.creation? = some c) (hc' : e'.creation? = some c') :
      ¬(c.comment.hash = c'.comment.hash ∨ c.comment.parent = some c'.comment.hash) := by
    intro huses
    obtain ⟨before, between, after, hlog⟩ := exists_between hsub
    obtain ⟨d, hd, hremoves, k, hle, hlt, hk⟩ :=
      hagain before e between e' after c' hlog hc' ⟨c, hc, huses⟩
    exact hnever d (by rw [hlog]; simp [hd]) c'.comment.hash hremoves k hle hlt hk
  rw [List.pairwise_filterMap, List.pairwise_iff_forall_sublist]
  intro e e' hsub c hc c' hc'
  have hnot := hdistinct hsub hc hc'
  exact ⟨fun heq => hnot (.inl heq.symm), fun heq => hnot (.inr heq)⟩

/-! ## Runs of a ledger -/

/-- Nothing but the parent, the draws, the clock and the salt can keep a comment from
being created. -/
theorem create_of_drawn {config : Config} {post message hash : RawText}
    {author password parent resolved : Option RawText} {lock : Option String} {t : Site Ledger}
    {supply : Supply}
    (hattach : attachGiven post parent t.store.comments = .ok resolved)
    (hdraw : drawHash t.store.comments mostAttempts t.supply = (.ok hash, supply))
    (hclock : Time.inRange supply.nextTime.1 = true)
    (hlock : lockFor config.salt password = .ok lock) :
    let c : Comment := ⟨hash, post, (given author).getD config.defaultAuthor, message, resolved,
      .utc supply.nextTime.1, none⟩
    Ledger.create config post message author password parent t =
      (.ok c, ⟨⟨c, lock⟩ :: t.store, supply.nextTime.2⟩) := by
  rw [Ledger.create, hattach]
  simp only [hdraw, hclock, if_true, hlock]
  rfl

/-- The first of some operations, and the rest of them. -/
theorem runWith_cons {σ : Type}
    {perform : (op : Operation) → Site σ → Except Fault op.Answer × Site σ} {op : Operation}
    {s s' : Site σ} {r : Except Fault op.Answer} (h : perform op s = (r, s'))
    {ops : List Operation} {log : List Event} {s'' : Site σ}
    (hrest : runWith perform ops s' = (log, s'')) :
    runWith perform (op :: ops) s = (⟨op, s.supply, r⟩ :: log, s'') := by
  rw [runWith, h]
  simp only [hrest]

/-- What an empty ledger shows of some operations, an empty store shows too. -/
theorem run_of_onLedger {defaultAuthor : String} {supply : Supply} {ops : List Operation}
    {log : List Event} {t : Site Ledger}
    (h : Ledger.run defaultAuthor ops ⟨[], supply⟩ = (log, t)) :
    ∃ site, run defaultAuthor ops ⟨Memory.empty, supply⟩ = (log, site) ∧ KeepsAt site t := by
  have hempty : KeepsAt (σ := Memory) ⟨Memory.empty, supply⟩ ⟨[], supply⟩ :=
    ⟨keeps_nil (fun _ => rfl) (fun _ => rfl), rfl⟩
  obtain ⟨hlog, hkept⟩ := run_refines defaultAuthor ops hempty
  rw [h] at hlog hkept
  exact ⟨_, Prod.ext hlog rfl, hkept⟩

/-! ## A run in which a hash is given again -/

/-- A supply that draws one hash once, after another one and before that again. -/
def redrawingSupply (drawn : Nat) : Supply :=
  ⟨fun n => if n = 1 then "4e5f6071" else "0a1b2c3d", fun _ => 0, drawn, drawn⟩

def removedRoot : Comment := ⟨"0a1b2c3d", "intro", "Anonymous", "Hello", none, .utc 0, none⟩

def leftAnswer : Comment :=
  ⟨"4e5f6071", "intro", "Anonymous", "Hi", some "0a1b2c3d", .utc 0, none⟩

def secondRoot : Comment := ⟨"0a1b2c3d", "intro", "Anonymous", "Goodbye", none, .utc 0, none⟩

/-- A comment is created, answered and removed, and then another one is created. -/
def redrawingLog : List Event :=
  [⟨.create "$2b$04$abcdefghijklmnopqrstuu" "intro" "Hello" none (some "secret") none,
      redrawingSupply 0, .ok removedRoot⟩,
    ⟨.create "" "intro" "Hi" none none (some "0a1b2c3d"), redrawingSupply 1, .ok leftAnswer⟩,
    ⟨.delete "0a1b2c3d" "secret", redrawingSupply 2, .ok removedRoot⟩,
    ⟨.create "" "intro" "Goodbye" none none none, redrawingSupply 2, .ok secondRoot⟩]

theorem redrawing_onLedger :
    Ledger.run "Anonymous" (redrawingLog.map Event.operation) ⟨[], redrawingSupply 0⟩ =
      (redrawingLog, ⟨[⟨secondRoot, none⟩, ⟨leftAnswer, none⟩], redrawingSupply 3⟩) := by
  obtain ⟨stored, hstored⟩ :
      ∃ stored, Password.hash? "$2b$04$abcdefghijklmnopqrstuu" "secret" = some stored :=
    Option.isSome_iff_exists.mp (by decide +kernel)
  have hlock : lockFor "$2b$04$abcdefghijklmnopqrstuu" (some "secret") = .ok (some stored) := by
    have hgiven : given (some "secret") = some ("secret" : RawText) := by decide
    simp only [lockFor, hgiven, hstored]
  have hopens : opens "secret" stored = true :=
    (opens_iff stored "secret").mpr (accepts_of_take_eq hstored (by decide) rfl)
  have hdraw : drawHash (comments []) mostAttempts (redrawingSupply 0) =
      (.ok "0a1b2c3d", { redrawingSupply 0 with digitsDrawn := 1 }) := rfl
  have hcreated : Ledger.create ⟨"Anonymous", "$2b$04$abcdefghijklmnopqrstuu"⟩ "intro" "Hello" none
      (some "secret") none ⟨[], redrawingSupply 0⟩ =
        (.ok removedRoot, ⟨[⟨removedRoot, some stored⟩], redrawingSupply 1⟩) :=
    create_of_drawn (t := ⟨[], redrawingSupply 0⟩) rfl hdraw rfl hlock
  have hdraw' : drawHash (comments [⟨removedRoot, some stored⟩]) mostAttempts (redrawingSupply 1) =
      (.ok "4e5f6071", { redrawingSupply 1 with digitsDrawn := 2 }) := rfl
  have hattach : attachGiven "intro" (some "0a1b2c3d") (comments [⟨removedRoot, some stored⟩]) =
      .ok (some "0a1b2c3d") := rfl
  have hanswered : Ledger.create ⟨"Anonymous", ""⟩ "intro" "Hi" none none (some "0a1b2c3d")
      ⟨[⟨removedRoot, some stored⟩], redrawingSupply 1⟩ =
        (.ok leftAnswer, ⟨[⟨leftAnswer, none⟩, ⟨removedRoot, some stored⟩], redrawingSupply 2⟩) :=
    create_of_drawn (t := ⟨[⟨removedRoot, some stored⟩], redrawingSupply 1⟩) hattach hdraw' rfl rfl
  have hremoved : Ledger.delete "0a1b2c3d" "secret"
      ⟨[⟨leftAnswer, none⟩, ⟨removedRoot, some stored⟩], redrawingSupply 2⟩ =
        (.ok removedRoot, ⟨[⟨leftAnswer, none⟩], redrawingSupply 2⟩) := by
    have hposting : posting? "0a1b2c3d" [⟨leftAnswer, none⟩, ⟨removedRoot, some stored⟩] =
      some ⟨removedRoot, some stored⟩ := rfl
    simp only [Ledger.delete, Ledger.authorize, hposting, hopens, if_true]
    rfl
  have hdraw'' : drawHash (comments [⟨leftAnswer, none⟩]) mostAttempts (redrawingSupply 2) =
      (.ok "0a1b2c3d", { redrawingSupply 2 with digitsDrawn := 3 }) := rfl
  have hagain : Ledger.create ⟨"Anonymous", ""⟩ "intro" "Goodbye" none none none
      ⟨[⟨leftAnswer, none⟩], redrawingSupply 2⟩ =
        (.ok secondRoot, ⟨[⟨secondRoot, none⟩, ⟨leftAnswer, none⟩], redrawingSupply 3⟩) :=
    create_of_drawn (t := ⟨[⟨leftAnswer, none⟩], redrawingSupply 2⟩) rfl hdraw'' rfl rfl
  refine runWith_cons hcreated ?_
  refine runWith_cons hanswered ?_
  refine runWith_cons hremoved ?_
  exact runWith_cons hagain rfl

/-- Two comments are given one hash, and the answer to the first is shown with the
second. -/
theorem reissued_hash :
    ∃ site, run "Anonymous" (redrawingLog.map Event.operation)
        ⟨Memory.empty, redrawingSupply 0⟩ = (redrawingLog, site) ∧
      ¬((redrawingLog.filterMap Event.creation?).map fun c => c.comment.hash).Nodup ∧
      ((threads "intro").outcome site).1 = .ok [⟨secondRoot.summary, [leftAnswer.summary]⟩] := by
  obtain ⟨site, hrun, hkept⟩ := run_of_onLedger redrawing_onLedger
  refine ⟨site, hrun, by decide, ?_⟩
  rw [outcome_threads hkept.store]
  rfl

/-- The hash was removed before it was given again, and drawn again after that. -/
theorem reissued_after_removal_redrawn :
    ∃ site, run "Anonymous" (redrawingLog.map Event.operation)
        ⟨Memory.empty, redrawingSupply 0⟩ = (redrawingLog, site) ∧
      ∃ d ∈ [redrawingLog[1], redrawingLog[2]], d.removes secondRoot.hash = true ∧
        ∃ k, d.supply.digitsDrawn ≤ k ∧ k < site.supply.digitsDrawn ∧
          Text.firstChars Comment.hashLength (site.supply.digits k) = secondRoot.hash := by
  obtain ⟨site, hrun, -⟩ := run_of_onLedger redrawing_onLedger
  obtain ⟨hagain, -⟩ := reissued_after_removal hrun
  exact ⟨site, hrun, hagain [] redrawingLog[0] [redrawingLog[1], redrawingLog[2]] redrawingLog[3] []
    ⟨secondRoot, "", none⟩ rfl rfl ⟨_, rfl, .inl rfl⟩⟩

end CommentThreads.Store
