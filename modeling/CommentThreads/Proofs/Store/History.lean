/-
CommentThreads.Proofs.Store.History — what a log of operations says about
the comments that are there.

`live` reads a log as its reader would: a comment is there if its creation
succeeded and no removal of its hash succeeded later; it shows the message
and the time of the last edit that succeeded later, if there was one. That
hashes may be drawn again after a removal needs no word of its own.

`comments_of_run` is the result: after any operations on an empty store,
what is listed and what is found are the comments that the log says are
there, and every operation of the log answered by the log before it.
-/
import CommentThreads.Proofs.Store.Run

namespace CommentThreads.Store

open Ledger Time

/-! ## Reading a log -/

/-- A comment with what its creation was given to protect it. -/
structure Creation where
  comment : Comment
  salt : String
  password : Option RawText
deriving DecidableEq

namespace Event

/-- The comment that an event created. -/
def creation? : Event → Option Creation
  | ⟨.create salt _ _ _ password _, _, .ok c⟩ => some ⟨c, salt, password⟩
  | _ => none

/-- The message and the time that an event gave to the comment with a hash. -/
def edit? (hash : RawText) : Event → Option (RawText × Option DateTime)
  | ⟨.update other _ message, _, .ok c⟩ => if other = hash then some (message, c.updated) else none
  | _ => none

/-- The event took the comment with a hash away. -/
def removes (hash : RawText) : Event → Bool
  | ⟨.delete other _, _, .ok _⟩ => other = hash
  | _ => false

end Event

/-- The last edit of the comment with a hash. -/
def lastEdit? (hash : RawText) (later : List Event) : Option (RawText × Option DateTime) :=
  (later.filterMap (Event.edit? hash)).getLast?

/-- A comment with the message and the time of an edit, if there is one. -/
def Creation.withEdit (edit : Option (RawText × Option DateTime)) (c : Creation) : Creation :=
  match edit with
  | some (message, time) =>
    { c with comment := { c.comment with message := message, updated := time } }
  | none => c

/-- A comment after what happened later. -/
def Creation.after (later : List Event) (c : Creation) : Creation :=
  c.withEdit (lastEdit? c.comment.hash later)

/-- The comments that are there after a log, in the order of their creation. -/
def live : List Event → List Creation
  | [] => []
  | e :: later =>
    match e.creation? with
    | some c =>
      if later.any (·.removes c.comment.hash) then live later else c.after later :: live later
    | none => live later

/-- The comments that are there after a log, newest first. -/
def current (log : List Event) : List Comment :=
  ((live log).map Creation.comment).reverse

/-! ## One more event -/

/-- Of two edits the later one counts. -/
theorem withEdit_or (later earlier : Option (RawText × Option DateTime)) (c : Creation) :
    c.withEdit (later.or earlier) = (c.withEdit earlier).withEdit later := by
  cases later <;> cases earlier <;> rfl

@[simp] theorem hash_withEdit (edit : Option (RawText × Option DateTime)) (c : Creation) :
    (c.withEdit edit).comment.hash = c.comment.hash := by
  cases edit <;> rfl

theorem after_concat (later : List Event) (e : Event) (c : Creation) :
    c.after (later ++ [e]) = (c.after later).withEdit (e.edit? c.comment.hash) := by
  have hlast : lastEdit? c.comment.hash (later ++ [e]) =
      (e.edit? c.comment.hash).or (lastEdit? c.comment.hash later) := by
    rw [lastEdit?, List.filterMap_append, List.getLast?_append]
    cases he : e.edit? c.comment.hash <;> simp [he, lastEdit?]
  rw [Creation.after, hlast, withEdit_or, Creation.after]

theorem after_cons (e : Event) (later : List Event) (c : Creation) :
    c.after (e :: later) = (c.withEdit (e.edit? c.comment.hash)).after later := by
  have hfirst : lastEdit? c.comment.hash (e :: later) =
      (lastEdit? c.comment.hash later).or (e.edit? c.comment.hash) := by
    rw [lastEdit?, List.filterMap_cons, lastEdit?]
    cases he : e.edit? c.comment.hash with
    | none => simp
    | some edit => cases hlater : (later.filterMap (Event.edit? c.comment.hash)).getLast? <;>
        simp [List.getLast?_cons, hlater]
  rw [Creation.after, hfirst, withEdit_or, Creation.after, hash_withEdit]

theorem hash_after (later : List Event) (c : Creation) :
    (c.after later).comment.hash = c.comment.hash :=
  hash_withEdit _ c

theorem salt_after (later : List Event) (c : Creation) : (c.after later).salt = c.salt := by
  rw [Creation.after]
  cases lastEdit? c.comment.hash later <;> rfl

theorem password_after (later : List Event) (c : Creation) :
    (c.after later).password = c.password := by
  rw [Creation.after]
  cases lastEdit? c.comment.hash later <;> rfl

/-- One more event takes away what it removes, edits what it edits, and adds
what it creates. -/
theorem live_concat (log : List Event) (e : Event) :
    live (log ++ [e]) =
      ((live log).filter fun c => !e.removes c.comment.hash).map
          (fun c => c.withEdit (e.edit? c.comment.hash)) ++
        e.creation?.toList := by
  induction log with
  | nil => cases he : e.creation? <;> simp [live, he, Creation.after, lastEdit?, Creation.withEdit]
  | cons first later ih =>
    rw [List.cons_append, live, live]
    cases first.creation? with
    | none => exact ih
    | some c =>
      simp only [List.any_append, List.any_cons, List.any_nil, Bool.or_false, Bool.or_eq_true]
      by_cases hlater : later.any (·.removes c.comment.hash) = true
      · simp only [hlater, true_or, if_true]
        exact ih
      · by_cases he : e.removes c.comment.hash = true
        · simp [hlater, he, ih, hash_after]
        · simp [hlater, he, ih, after_concat, hash_after]

/-- A comment that no later event removes is still there, as it is after them. -/
theorem after_mem_live {log later : List Event} {c : Creation} (hc : c ∈ live log)
    (hkept : ∀ e ∈ later, e.removes c.comment.hash = false) :
    c.after later ∈ live (log ++ later) := by
  induction later generalizing log c with
  | nil => simpa [Creation.after, lastEdit?, Creation.withEdit] using hc
  | cons e later ih =>
    have hstill : c.withEdit (e.edit? c.comment.hash) ∈ live (log ++ [e]) := by
      rw [live_concat]
      refine List.mem_append_left _ (List.mem_map_of_mem (List.mem_filter.mpr ⟨hc, ?_⟩))
      rw [hkept e List.mem_cons_self]
      rfl
    rw [after_cons, ← List.singleton_append, ← List.append_assoc]
    refine ih hstill fun e' he' => ?_
    rw [hash_withEdit]
    exact hkept e' (List.mem_cons_of_mem _ he')

section OneMore

variable (log : List Event) (supply : Supply)

theorem live_unchanged {e : Event} (hcreation : e.creation? = none)
    (hremoves : ∀ hash, e.removes hash = false) (hedit : ∀ hash, e.edit? hash = none) :
    live (log ++ [e]) = live log := by
  rw [live_concat, hcreation]
  simp [hremoves, hedit, Creation.withEdit]

/-- What fails changes nothing. -/
theorem live_fault (op : Operation) (fault : Fault) :
    live (log ++ [⟨op, supply, .error fault⟩]) = live log := by
  apply live_unchanged <;> cases op <;> intros <;> rfl

theorem live_create (salt : String) (post message : RawText)
    (author password parent : Option RawText) (c : Comment) :
    live (log ++ [⟨.create salt post message author password parent, supply, .ok c⟩]) =
      live log ++ [⟨c, salt, password⟩] := by
  rw [live_concat]
  simp [Event.removes, Event.creation?, Event.edit?, Creation.withEdit]

theorem live_update (hash password message : RawText) (c : Comment) :
    live (log ++ [⟨.update hash password message, supply, .ok c⟩]) =
      (live log).map fun k =>
        k.withEdit (if hash = k.comment.hash then some (message, c.updated) else none) := by
  have hkept : ((live log).filter fun k =>
      !Event.removes k.comment.hash ⟨.update hash password message, supply, .ok c⟩) = live log :=
    List.filter_eq_self.mpr fun _ _ => rfl
  rw [live_concat, hkept]
  exact List.append_nil _

theorem live_delete (hash password : RawText) (c : Comment) :
    live (log ++ [⟨.delete hash password, supply, .ok c⟩]) =
      (live log).filter fun k => hash ≠ k.comment.hash := by
  rw [live_concat]
  simp [Event.removes, Event.creation?, Event.edit?, Creation.withEdit]

end OneMore

/-! ## A log and its ledger -/

/-- What the ledger keeps of a comment that is there. -/
def Creation.posting (c : Creation) : Posting :=
  ⟨c.comment, (given c.password).bind (Password.hash? c.salt)⟩

/-- An event answered by the comments that were there before it. -/
def Event.Answered (defaultAuthor : String) (earlier : List Comment) : Event → Prop
  | ⟨.create _ post message author _ parent, supply, .ok c⟩ =>
    IsNew defaultAuthor post message author parent supply earlier c
  | ⟨.update hash _ message, supply, .ok c⟩ =>
    (withHash? hash earlier).map (edited message (.utc supply.nextTime.1)) = some c
  | ⟨.delete hash _, _, .ok c⟩ => withHash? hash earlier = some c
  | ⟨.find hash, _, outcome⟩ => outcome = .ok (withHash? hash earlier)
  | ⟨.list post, _, outcome⟩ => outcome = .ok (ofPost post earlier)
  | ⟨.threads post, _, outcome⟩ => outcome = .ok (threadsOf (ofPost post earlier))
  | _ => True

/-- A ledger is the one that a log tells of. -/
structure Told (defaultAuthor : String) (log : List Event) (l : Ledger) : Prop where
  ledger : l = ((live log).map Creation.posting).reverse
  answered : ∀ before e after, log = before ++ e :: after →
    e.Answered defaultAuthor (current before)

theorem Told.comments {defaultAuthor : String} {log : List Event} {l : Ledger}
    (h : Told defaultAuthor log l) : l.comments = current log := by
  rw [h.ledger, Ledger.comments, current, List.map_reverse, List.map_map]
  rfl

/-- An accepted salt refuses no password that can be encoded. -/
theorem lockFor_of_accepted {salt : String} (h : (Password.Salt.ofText? salt).isSome = true)
    {password : Option RawText} (hplain : ∀ text ∈ password, text.isPlain = true) :
    lockFor salt password = .ok ((given password).bind (Password.hash? salt)) := by
  obtain ⟨parsed, hparsed⟩ := Option.isSome_iff_exists.mp h
  rw [lockFor]
  cases hgiven : given password with
  | none => rfl
  | some text =>
    obtain ⟨s, rfl⟩ := RawText.isPlain_iff.mp (hplain text (given_eq_some_iff.mp hgiven).1)
    simp [Password.hash?_plain, hparsed]

/-- The log goes on to tell of the ledger if it does so after its last event. -/
theorem Told.concat {defaultAuthor : String} {log : List Event} {l l' : Ledger} {e : Event}
    (h : Told defaultAuthor log l)
    (hledger : l' = ((live (log ++ [e])).map Creation.posting).reverse)
    (hanswered : e.Answered defaultAuthor l.comments) : Told defaultAuthor (log ++ [e]) l' where
  ledger := hledger
  answered before e' after hlog := by
    rcases List.eq_nil_or_concat after with rfl | ⟨after, last, rfl⟩
    · obtain ⟨rfl, he⟩ := List.append_inj' hlog rfl
      cases he
      rw [← h.comments]
      exact hanswered
    · rw [List.concat_eq_append, ← List.cons_append, ← List.append_assoc] at hlog
      obtain ⟨hlog, -⟩ := List.append_inj' hlog rfl
      exact h.answered before e' after hlog

section OneStep

variable {defaultAuthor : String} {log : List Event} {l : Ledger} (h : Told defaultAuthor log l)
include h

/-- What is only read leaves the ledger as it is told of. -/
theorem Told.unchanged {e : Event} (hcreation : e.creation? = none)
    (hremoves : ∀ hash, e.removes hash = false) (hedit : ∀ hash, e.edit? hash = none)
    (hanswered : e.Answered defaultAuthor l.comments) : Told defaultAuthor (log ++ [e]) l :=
  h.concat (by rw [live_unchanged log hcreation hremoves hedit]; exact h.ledger) hanswered

theorem Told.fault {op : Operation} {supply : Supply} {fault : Fault}
    (hanswered : Event.Answered defaultAuthor l.comments ⟨op, supply, .error fault⟩) :
    Told defaultAuthor (log ++ [⟨op, supply, .error fault⟩]) l :=
  h.concat (by rw [live_fault]; exact h.ledger) hanswered

theorem Told.edited {hash password message : RawText} {supply : Supply} {c : Comment}
    (hc : withHash? hash l.comments = some c) :
    Told defaultAuthor
      (log ++ [⟨.update hash password message, supply,
        .ok (Ledger.edited message (.utc supply.nextTime.1) c)⟩])
      (edit hash message (.utc supply.nextTime.1) l) := by
  refine h.concat ?_ (by rw [Event.Answered, hc]; rfl)
  rw [live_update, edit, h.ledger, List.map_reverse, List.map_map, List.map_map]
  congr 1
  refine List.map_congr_left fun k _ => ?_
  simp only [Function.comp_apply]
  by_cases hk : hash = k.comment.hash
  · have hposting : k.posting.comment.hash = hash := hk.symm
    rw [if_pos hk, if_pos hposting]
    rfl
  · have hposting : k.posting.comment.hash ≠ hash := Ne.symm hk
    rw [if_neg hk, if_neg hposting]
    rfl

theorem Told.removed {hash password : RawText} {supply : Supply} {c : Comment}
    (hc : withHash? hash l.comments = some c) :
    Told defaultAuthor (log ++ [⟨.delete hash password, supply, .ok c⟩]) (remove hash l) := by
  refine h.concat ?_ hc
  rw [live_delete, remove, h.ledger, List.filter_reverse, List.filter_map]
  congr 2
  refine List.filter_congr fun k _ => ?_
  have hposting : k.posting.comment.hash = k.comment.hash := rfl
  simp only [Function.comp_apply, hposting]
  exact decide_eq_decide.mpr ne_comm

end OneStep

/-- An operation whose salt is accepted, and whose password can be encoded, leaves a
ledger that the log with it tells of. -/
theorem Told.step {defaultAuthor : String} {op : Operation} (hsalt : op.SaltAccepted)
    (hpassword : op.PasswordEncodable) {log : List Event} {t : Site Ledger}
    (h : Told defaultAuthor log t.store) :
    Told defaultAuthor (log ++ [⟨op, t.supply, (op.onLedger defaultAuthor t).1⟩])
      (op.onLedger defaultAuthor t).2.store := by
  cases op with
  | create salt post message author password parent =>
    rw [Operation.onLedger]
    obtain ⟨fault, houtcome, hstore⟩ | ⟨c, hnew, houtcome, hstore⟩ :=
      create_cases ⟨defaultAuthor, salt⟩ post message author password parent t
    · rw [houtcome, hstore]
      exact h.fault trivial
    · have hlock := lockFor_of_accepted hsalt hpassword
      have hok : (Ledger.create ⟨defaultAuthor, salt⟩ post message author password parent t).1 =
          .ok c := by
        rw [houtcome, hlock]
        rfl
      rw [hok, hstore, hlock]
      refine h.concat ?_ hnew
      rw [live_create, List.map_append, List.reverse_append, ← h.ledger]
      rfl
  | update hash password message =>
    rw [Operation.onLedger]
    obtain ⟨fault, houtcome, hstore⟩ | ⟨c, hc, houtcome, hstore⟩ :=
      update_cases hash password message t
    · rw [houtcome, hstore]
      exact h.fault trivial
    · rw [houtcome, hstore]
      exact h.edited hc
  | delete hash password =>
    rw [Operation.onLedger]
    obtain ⟨fault, houtcome, hstore⟩ | ⟨c, hc, houtcome, hstore⟩ :=
      delete_cases hash password t
    · rw [houtcome, hstore]
      exact h.fault trivial
    · rw [houtcome, hstore]
      exact h.removed hc
  | find hash => exact h.unchanged rfl (fun _ => rfl) (fun _ => rfl) rfl
  | list post => exact h.unchanged rfl (fun _ => rfl) (fun _ => rfl) rfl
  | threads post => exact h.unchanged rfl (fun _ => rfl) (fun _ => rfl) rfl

/-! ## The comments of a run -/

/-- A run from an empty store leaves a store that keeps a ledger, and its log
tells of that ledger. -/
theorem told_of_run (defaultAuthor : String) (supply : Supply) {ops : List Operation}
    (hsalts : ∀ op ∈ ops, op.SaltAccepted) (hpasswords : ∀ op ∈ ops, op.PasswordEncodable)
    {log : List Event} {site : Site Memory}
    (hrun : run defaultAuthor ops ⟨Memory.empty, supply⟩ = (log, site)) :
    ∃ l, Keeps site.store l ∧ Told defaultAuthor log l := by
  have hnothing : Told defaultAuthor [] [] := ⟨rfl, fun before e after h => by simp at h⟩
  exact ledger_of_run hrun (Told defaultAuthor)
    (fun op hop log t h => h.step (hsalts op hop) (hpasswords op hop)) hnothing

/-- After any operations on an empty store, some of which may fail, a post
lists the comments on it that the log says are there, newest first, and a hash
finds the one that has it, if one has. Each event of the log is answered by
the comments that were there when it happened. A comment whose password has a
lone half is stored by a creation that fails, so the passwords of new comments
are taken to have none. -/
theorem comments_of_run (defaultAuthor : String) (supply : Supply) (ops : List Operation)
    (hsalts : ∀ op ∈ ops, op.SaltAccepted) (hpasswords : ∀ op ∈ ops, op.PasswordEncodable) :
    ∀ log site, run defaultAuthor ops ⟨Memory.empty, supply⟩ = (log, site) →
      (∀ post, (list post).outcome site = (.ok ((current log).filter (·.post = post)), site)) ∧
      (∀ hash, (find hash).outcome site = (.ok ((current log).find? (·.hash = hash)), site)) ∧
      ((current log).map Comment.hash).Nodup ∧
      ∀ before e after, log = before ++ e :: after →
        e.Answered defaultAuthor (current before) := by
  intro log site hrun
  obtain ⟨l, hkeeps, htold⟩ := told_of_run defaultAuthor supply hsalts hpasswords hrun
  have hcomments := htold.comments
  refine ⟨fun post => ?_, fun hash => ?_, ?_, htold.answered⟩
  · rw [outcome_list hkeeps, hcomments]
    rfl
  · rw [outcome_find hkeeps, hcomments]
    rfl
  · rw [← hcomments]
    exact hkeeps.distinct

/-- A comment that nobody can remove is still listed after an attempt. -/
theorem comments_of_run_unprotected :
    let ops : List Operation :=
      [.create "$2b$04$abcdefghijklmnopqrstuu" "intro" "Hello" none none none,
        .delete "0a1b2c3d" "guess"]
    let supply : Supply := ⟨fun _ => "0a1b2c3d4e5f60718293a4b5c6d7e8f9", fun _ => 0, 0, 0⟩
    let site := (run "Anonymous" ops ⟨Memory.empty, supply⟩).2
    (∀ op ∈ ops, op.SaltAccepted) ∧ (∀ op ∈ ops, op.PasswordEncodable) ∧
      (list "intro").outcome site =
        (.ok [⟨"0a1b2c3d", "intro", "Anonymous", "Hello", none, .utc 0, none⟩], site) := by
  intro ops supply site
  have hsalts : ∀ op ∈ ops, op.SaltAccepted := by decide +kernel
  have hpasswords : ∀ op ∈ ops, op.PasswordEncodable := by
    simp [ops, Operation.PasswordEncodable]
  have hcurrent : (current (run "Anonymous" ops ⟨Memory.empty, supply⟩).1).filter
      (·.post = ("intro" : RawText)) =
        [⟨"0a1b2c3d", "intro", "Anonymous", "Hello", none, .utc 0, none⟩] := by
    decide +kernel
  have hlist := (comments_of_run "Anonymous" supply ops hsalts hpasswords
    (run "Anonymous" ops ⟨Memory.empty, supply⟩).1 site (Prod.eta _).symm).1 "intro"
  rw [hcurrent] at hlist
  exact ⟨hsalts, hpasswords, hlist⟩

end CommentThreads.Store
