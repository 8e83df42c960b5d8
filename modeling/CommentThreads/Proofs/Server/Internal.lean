/-
CommentThreads.Proofs.Server.Internal — when the service answers that it failed
itself.

A service with all it needs answers so in two cases, if no request to it brings a value
that cannot be sent (`Sayable`):

* `Exhausted` — a new comment is asked for in order, and comments have all the
  hashes that are tried for it.
* `Undecodable` — a handler has to read a body that is no JSON by its type, and
  whose bytes are no text. There is no value then to find errors in. A body that
  is no JSON by its type but is text is refused with 422, and one that is JSON by
  its type but no text with 400.

`status_internal_iff` — so it is whatever such requests the service has answered
before. That every stored record can be read and every password checked comes
from the ledger that the store keeps; that every answer can be sent, from the comments
in it having no lone half (`spoken_serve`).
-/
import CommentThreads.Proofs.Client.Agreement
import CommentThreads.Proofs.Record.Sendable
import CommentThreads.Proofs.Server.Changes

namespace CommentThreads.Server

open CommentThreads.Http CommentThreads.Store CommentThreads.Text

variable {σ : Type} [KeyValue σ]

/-! ## What may fail -/

/-- The body of a request has no value, or one without lone halves of surrogate pairs and
without numbers that are not finite. -/
def Sayable (r : Request) : Prop := ∀ v, bodyValue r = .ok v → v.isSendable = true

/-- What a new comment answers is there, if it answers anything. -/
def Attached (site : Site σ) (asked : NewComment) : Prop :=
  ∃ parent, (resolveGiven asked.post asked.parent).outcome site = (.ok parent, site)

/-- There are comments with each of the five hashes that are drawn next. -/
def HashesTaken (site : Site σ) : Prop :=
  ∀ k < 5, ∃ c, (find ↑(firstChars Comment.hashLength
    (site.supply.digits (site.supply.digitsDrawn + k)))).outcome site = (.ok (some c), site)

/-- A new comment is asked for in order, but all hashes for it are taken. -/
structure Exhausted (s : Service) (r : Request) (site : Site σ) (asked : NewComment) : Prop where
  addressed : Addressed s r
  method_eq : r.method = "POST"
  valid : Brings r NewComment.reader asked
  fits : ∃ message : String, asked.message = message ∧ fits s.settings message = true
  attached : Attached site asked
  taken : HashesTaken site

/-- A body for a handler that is no JSON by its type and no text by its bytes. -/
structure Undecodable (s : Service) (r : Request) : Prop where
  addressed : Addressed s r
  method_mem : r.method ∈ ["POST", "PUT", "DELETE"]
  not_json : saysJson r = false
  not_text : decode r.body = none

/-- No comment has a lone half in it, not even in its author. -/
def AllSpoken (l : Ledger) : Prop := ∀ c ∈ l.comments, Lettered c ∧ c.author.isPlain = true

/-- A service with all it needs, whose comments have no lone halves in them. -/
structure Spoken [Viewed σ] (s : Service) (site : Site σ) : Prop where
  hasStore : s.hasStore = true
  salt : (Password.Salt.ofText? s.salt).isSome = true
  keeps : ∃ l, Keeps site.store l ∧ AllSpoken l
  clock : ∀ n, Time.inRange (site.supply.clock n) = true

theorem Spoken.equipped [Viewed σ] {s : Service} {site : Site σ} (h : Spoken s site) :
    Equipped s site :=
  ⟨h.hasStore, h.salt, h.keeps.imp fun _ hl => hl.1, h.clock⟩

/-! ## Outcomes -/

/-- An outcome that is answered with the service's own error. -/
def IsInternal (outcome : Outcome) : Prop := statusOfOutcome outcome = 500

theorem isInternal_none : IsInternal none := rfl

theorem isInternal_some {a : Response} (hsent : a.body.isSendable = true) :
    IsInternal (some a) ↔ a.status = 500 := by
  rw [IsInternal, statusOfOutcome, if_pos hsent]

/-- What can be sent, with a status of its own, is no failure. -/
theorem not_isInternal {a : Response} (hsent : a.body.isSendable = true) (h : a.status ≠ 500) :
    ¬IsInternal (some a) :=
  mt (isInternal_some hsent).mp h

theorem not_isInternal_detail {status : Nat} {message : RawText} (hmessage : message.isPlain = true)
    (h : status ≠ 500) : ¬IsInternal (some (.detail status message)) :=
  not_isInternal ((isSendable_detail status message).trans hmessage) h

/-! ## The handlers -/

section Handlers

variable [Viewed σ] [TakesAll σ] {s : Service} {site : Site σ}

theorem not_isInternal_threads (h : Spoken s site) (post : RawText) :
    ¬IsInternal ((some <$> showThreads post).run site).1 := by
  obtain ⟨l, hl, hplain⟩ := h.keeps
  rw [run_map, showThreads, run_answer (outcome_threads hl post)]
  refine not_isInternal ((Listing.isSendable_toJson_iff _).mpr fun summary hsummary => ?_)
    (show (200 : Nat) ≠ 500 by decide)
  obtain ⟨c, hc, rfl, -⟩ := (mem_comments_threadsOf summary).mp hsummary
  obtain ⟨hletters, hauthor⟩ := hplain c (List.mem_filter.mp hc).1
  exact ⟨hletters.hash, hauthor, hletters.message⟩

theorem not_isInternal_comment (h : Spoken s site) (hash : String) :
    ¬IsInternal ((some <$> showComment hash).run site).1 := by
  obtain ⟨l, hl, hplain⟩ := h.keeps
  rw [run_map, showComment, run_answer (outcome_find hl hash)]
  cases hc : Ledger.withHash? hash l.comments with
  | none => exact not_isInternal_detail rfl (show (404 : Nat) ≠ 500 by decide)
  | some c =>
    obtain ⟨hletters, hauthor⟩ := hplain c (Ledger.mem_of_withHash? hc)
    exact not_isInternal ((Client.isSendable_detail_iff hletters).mpr hauthor)
      (show (200 : Nat) ≠ 500 by decide)

/-- No hash is found for a new comment that is attached exactly if the first five are
taken. -/
theorem noFreshHash_iff (h : Equipped s site) (c : NewComment) :
    ((create s.config c.post c.message c.author c.password c.parent).outcome site).1 =
        .error .noFreshHash ↔
      Attached site c ∧ HashesTaken site := by
  obtain ⟨l, hl⟩ := h.keeps
  rw [(create_refines s.config c.post c.message c.author c.password c.parent site
    ⟨l, site.supply⟩ ⟨hl, rfl⟩).1, Ledger.create_noFreshHash_iff]
  simp only [Attached, HashesTaken, outcome_resolveGiven hl, outcome_find hl, Prod.mk.injEq,
    and_true, Except.ok.injEq, mostAttempts]

theorem isInternal_postComment (h : Equipped s site) {c : NewComment} (hc : c.Plain) :
    IsInternal ((postComment s c).run site).1 ↔
      (∃ message : String, c.message = message ∧ fits s.settings message = true) ∧
        Attached site c ∧ HashesTaken site := by
  obtain ⟨message, hmessage⟩ := RawText.isPlain_iff.mp hc.message
  rw [postComment, ← noFreshHash_iff h, hmessage, withinLimit_plain]
  simp only [RawText.plain.injEq, exists_eq_left']
  split
  next hfits =>
    rw [and_iff_right hfits, run_map]
    cases hended : (create s.config c.post message c.author c.password c.parent).outcome
      site with
    | mk result after =>
      rw [run_answer hended]
      cases result with
      | ok stored =>
        obtain ⟨hash, resolved, created, s₁, s₂, hhash, rfl⟩ := created_eq hended
        refine iff_of_false (not_isInternal (isSendable_receipt (isPlain_of_newHash hhash) ?_ rfl)
          (show (201 : Nat) ≠ 500 by decide)) nofun
        cases hauthor : given c.author with
        | none => rfl
        | some text => exact hc.author text (Ledger.given_eq_some_iff.mp hauthor).1
      | error fault =>
        obtain ⟨⟨hash, rfl⟩ | rfl, -⟩ := create_fault_of_equipped h hc.password hended
        · refine iff_of_false (not_isInternal_detail ?_ (show (404 : Nat) ≠ 500 by decide)) nofun
          cases hparent : c.parent with
          | none => rfl
          | some text => simp [hc.parent text hparent]
        · exact iff_of_true ((isInternal_some rfl).mpr rfl) rfl
  next hlarge =>
    exact iff_of_false (not_isInternal_detail rfl (show (413 : Nat) ≠ 500 by decide))
      fun hall => hlarge hall.1

/-- A change that was not made is answered as the fault says. -/
theorem not_isInternal_unchanged (done doing : String) {hash : RawText} {fault : Fault}
    (h : fault = .notFound hash ∨ fault = .locked hash ∨ fault = .wrongPassword hash) :
    ¬IsInternal (some (unchanged done doing fault)) := by
  rcases h with rfl | rfl | rfl
  · exact not_isInternal_detail rfl (show (404 : Nat) ≠ 500 by decide)
  · exact not_isInternal_detail rfl (show (403 : Nat) ≠ 500 by decide)
  · exact not_isInternal_detail rfl (show (401 : Nat) ≠ 500 by decide)

theorem not_isInternal_notice {message : RawText} (h : message.isPlain = true) :
    ¬IsInternal (some (.json 200 (Notice.toJson ⟨message⟩))) :=
  not_isInternal ((Notice.isSendable_toJson ⟨message⟩).trans h) (show (200 : Nat) ≠ 500 by decide)

theorem not_isInternal_putComment (h : Equipped s site) {e : Edit} (he : e.Plain) :
    ¬IsInternal ((putComment s e).run site).1 := by
  obtain ⟨message, hmessage⟩ := RawText.isPlain_iff.mp he.message
  rw [putComment, hmessage, withinLimit_plain]
  split
  · rw [run_map]
    cases hended : (update e.hash e.password message).outcome site with
    | mk result after =>
      rw [run_answer hended]
      cases result with
      | ok edited => exact not_isInternal_notice (by simp [he.hash])
      | error fault =>
        exact not_isInternal_unchanged _ _ (update_fault_of_equipped h he.password hended).1
  · exact not_isInternal_detail rfl (show (413 : Nat) ≠ 500 by decide)

theorem not_isInternal_deleteComment (h : Equipped s site) {r : Removal} (hr : r.Plain) :
    ¬IsInternal ((deleteComment r).run site).1 := by
  rw [deleteComment, run_map]
  cases hended : (delete r.hash r.password).outcome site with
  | mk result after =>
    rw [run_answer hended]
    cases result with
    | ok removed => exact not_isInternal_notice (by simp [hr.hash])
    | error fault =>
      exact not_isInternal_unchanged _ _ (delete_fault_of_equipped h hr.password hended).1

end Handlers

/-! ## Bodies -/

section Bodies

variable {α : Type} {read : FieldReader α} {s : Service} {site : Site σ} {r : Request}

omit [KeyValue σ] in
/-- There is no value of a body that is no JSON by its type and no text. -/
theorem bodyValue_crash_iff :
    bodyValue r = .error .crash ↔ saysJson r = false ∧ decode r.body = none := by
  rw [bodyValue]
  split
  next hempty =>
    refine iff_of_false (fun h => by cases h) ?_
    rw [List.isEmpty_iff.mp hempty]
    rintro ⟨-, hnone⟩
    cases hnone
  next =>
    split
    next hjson =>
      refine iff_of_false (fun h => ?_) fun h => absurd (hjson.symm.trans h.1) (by decide)
      split at h <;> cases h
    next hjson =>
      rw [and_iff_right (Bool.eq_false_iff.mpr hjson)]
      cases decode r.body with
      | none => exact iff_of_true rfl rfl
      | some s => exact iff_of_false (fun h => by cases h) (fun h => by cases h)

/-- What is said of a body without a value is no failure. -/
theorem not_isInternal_bodyValue {response : Response}
    (h : bodyValue r = .error (.answered response)) : ¬IsInternal (some response) := by
  refine not_isInternal ?_ (isComplaint_bodyValue h).not_internal
  rw [bodyValue] at h
  split at h
  · cases h
  · split at h
    · split at h
      · cases h
      · cases h
        exact isSendable_unprocessable (List.forall_mem_singleton.mpr rfl)
      · cases h
        rfl
      · cases h
        rfl
    · split at h <;> cases h

/-- What is wrong with a body can be told, if the body can be sent. -/
theorem not_isInternal_ofBody (hread : read.Fair) {body : Json} (hbody : body.isSendable = true)
    {response : Response} (h : ofBody read body = .error response) :
    ¬IsInternal (some response) := by
  refine not_isInternal ?_ (isComplaint_ofBody h).not_internal
  simp only [ofBody] at h
  split at h
  · cases h
  next errors herrors =>
    cases h
    refine isSendable_unprocessable fun entry hentry => ?_
    obtain ⟨e, he, rfl⟩ := List.mem_map.mp hentry
    rw [isSendable_entryOf]
    split at herrors
    · cases herrors
      rw [List.mem_singleton.mp he]
      rfl
    · have hfair := FieldReader.fair_record hread _ hbody
      rw [herrors] at hfair
      exact hfair e he

/-- The post in a query is a string, or what is wrong with it can be told. -/
theorem not_isInternal_queryPost {t : Target} {response : Response}
    (h : queryPost t = .error response) : ¬IsInternal (some response) := by
  refine not_isInternal ?_ (isComplaint_queryPost h).not_internal
  simp only [queryPost] at h
  split at h
  · cases h
  next errors herrors =>
    cases h
    refine isSendable_unprocessable fun entry hentry => ?_
    obtain ⟨e, he, rfl⟩ := List.mem_map.mp hentry
    rw [isSendable_entryOf]
    split at herrors
    next text _ =>
      have hfair := Validated.fair_under (FieldReader.fair_nonEmptyText (.text text) rfl)
        (.key "post_id")
      rw [herrors] at hfair
      exact hfair e he
    next =>
      cases herrors
      rw [List.mem_singleton.mp he]
      rfl

/-- A handler that reads a body fails with what it does, or for want of a value. -/
theorem isInternal_withBody (hstore : s.hasStore = true) (hsayable : Sayable r)
    (hread : read.Fair) {next : α → Program Outcome} :
    IsInternal ((withBody s r read next).run site).1 ↔
      (∃ a, Brings r read a ∧ IsInternal ((next a).run site).1) ∨
        saysJson r = false ∧ decode r.body = none := by
  rw [← bodyValue_crash_iff, withBody]
  cases hvalue : bodyValue r with
  | error fault =>
    cases fault with
    | answered response =>
      refine iff_of_false (not_isInternal_bodyValue hvalue) ?_
      rintro (⟨a, ⟨body, hbody, -⟩, -⟩ | hcrash)
      · rw [hvalue] at hbody
        cases hbody
      · cases hcrash
    | crash =>
      simp only [hstore, if_true]
      exact iff_of_true isInternal_none (.inr trivial)
  | ok body =>
    simp only [withStore, hstore, if_true]
    have hbrings (a : α) : Brings r read a ↔ ofBody read body = .ok a := by
      rw [Brings, hvalue]
      constructor
      · rintro ⟨other, hother, hvalid⟩
        cases hother
        exact hvalid
      · intro hvalid
        exact ⟨body, rfl, hvalid⟩
    simp only [hbrings, reduceCtorEq, or_false]
    cases hinput : ofBody read body with
    | error response =>
      refine iff_of_false (not_isInternal_ofBody hread (hsayable body hvalue) hinput) ?_
      rintro ⟨a, hvalid, -⟩
      cases hvalid
    | ok a =>
      simp only [Except.ok.injEq, exists_eq_left']
      rfl

omit [KeyValue σ] in
/-- What comes with a body that can be sent was read from a value that can be sent. -/
theorem exists_of_brings (hsayable : Sayable r) {a : α} (h : Brings r read a) :
    ∃ body : Json, body.isSendable = true ∧ read body = .valid a := by
  obtain ⟨body, hbody, hvalid⟩ := h
  exact ⟨body, hsayable body hbody, valid_of_ofBody hvalid⟩

end Bodies

/-! ## From the handlers to the answer -/

section Answers

variable [Viewed σ] [TakesAll σ] {s : Service} {site : Site σ} {r : Request}

/-- A handler that reads no body fails if what it does with its input does. -/
theorem not_isInternal_query (h : Spoken s site) (t : Target) :
    ¬IsInternal ((withStore s (orAnswer (queryPost t) fun post =>
      some <$> showThreads post)).run site).1 := by
  rw [withStore, if_pos h.hasStore]
  cases hquery : queryPost t with
  | ok post => exact not_isInternal_threads h post
  | error response => exact not_isInternal_queryPost hquery

theorem not_isInternal_atComment (h : Spoken s site) (r : Request) (hash : String) :
    ¬IsInternal ((atResource s r (.comment hash)).run site).1 := by
  rw [atResource]
  split
  · rw [withStore, if_pos h.hasStore]
    exact not_isInternal_comment h hash
  · exact not_isInternal rfl (show (405 : Nat) ≠ 500 by decide)

theorem isInternal_comments (h : Spoken s site) (hsayable : Sayable r) :
    IsInternal ((atResource s r .comments).run site).1 ↔
      (∃ asked, r.method = "POST" ∧ Brings r NewComment.reader asked ∧
        (∃ message : String, asked.message = message ∧ fits s.settings message = true) ∧
        Attached site asked ∧ HashesTaken site) ∨
      r.method ∈ ["POST", "PUT", "DELETE"] ∧ saysJson r = false ∧ decode r.body = none := by
  rw [atResource]
  split
  next hmethod =>
    refine iff_of_false (not_isInternal_query h r.target) ?_
    simp [hmethod]
  next hmethod =>
    rw [isInternal_withBody h.hasStore hsayable NewComment.fair_reader]
    simp only [hmethod, List.mem_cons, true_or, true_and]
    refine or_congr (exists_congr fun asked => and_congr_right fun hbrings => ?_) Iff.rfl
    obtain ⟨body, hbody, hvalid⟩ := exists_of_brings hsayable hbrings
    exact isInternal_postComment h.equipped (NewComment.plain_of_reader hbody hvalid)
  next hmethod =>
    rw [isInternal_withBody h.hasStore hsayable Edit.fair_reader]
    have hnot : ¬∃ e, Brings r Edit.reader e ∧ IsInternal ((putComment s e).run site).1 := by
      rintro ⟨e, hbrings, hfailed⟩
      obtain ⟨body, hbody, hvalid⟩ := exists_of_brings hsayable hbrings
      exact not_isInternal_putComment h.equipped (Edit.plain_of_reader hbody hvalid) hfailed
    simp [hmethod, hnot]
  next hmethod =>
    rw [isInternal_withBody h.hasStore hsayable Removal.fair_reader]
    have hnot : ¬∃ removal, Brings r Removal.reader removal ∧
        IsInternal ((deleteComment removal).run site).1 := by
      rintro ⟨removal, hbrings, hfailed⟩
      obtain ⟨body, hbody, hvalid⟩ := exists_of_brings hsayable hbrings
      exact not_isInternal_deleteComment h.equipped (Removal.plain_of_reader hbody hvalid) hfailed
    simp [hmethod, hnot]
  next hget hpost hput hdelete =>
    refine iff_of_false (not_isInternal rfl (show (405 : Nat) ≠ 500 by decide)) ?_
    have hothers : r.method ∉ ["POST", "PUT", "DELETE"] := by
      simp only [List.mem_cons, List.not_mem_nil, or_false, not_or]
      exact ⟨hpost, hput, hdelete⟩
    rintro (⟨asked, hmethod, -⟩ | ⟨hmethod, -⟩)
    · exact hpost hmethod
    · exact hothers hmethod

theorem isInternal_atHost (h : Spoken s site) (r : Request) :
    IsInternal ((atHost s r).run site).1 ↔
      judgeHost s.settings r = .served ∧ Route.ofPath (decodedPath r.target) = .found .comments ∧
        IsInternal ((atResource s r .comments).run site).1 := by
  rw [atHost]
  cases judgeHost s.settings r with
  | served =>
    rw [and_iff_right rfl]
    simp only [atRoute]
    cases Route.ofPath (decodedPath r.target) with
    | found resource =>
      cases resource with
      | comments => rw [and_iff_right rfl]
      | comment hash =>
        exact iff_of_false (not_isInternal_atComment h r hash) fun hall => by cases hall.1
    | elsewhere path =>
      exact iff_of_false (not_isInternal rfl (show (307 : Nat) ≠ 500 by decide))
        fun hall => by cases hall.1
    | nowhere =>
      exact iff_of_false (not_isInternal rfl (show (404 : Nat) ≠ 500 by decide))
        fun hall => by cases hall.1
  | servedAsWww =>
    exact iff_of_false (not_isInternal rfl (show (307 : Nat) ≠ 500 by decide))
      fun hall => by cases hall.1
  | refused =>
    exact iff_of_false (not_isInternal rfl (show (400 : Nat) ≠ 500 by decide))
      fun hall => by cases hall.1

omit [KeyValue σ] [Viewed σ] [TakesAll σ] in
theorem status_preflight (settings : Settings) (r : Request) :
    (preflight settings r).status ≠ 500 := by
  have hstatus : (preflight settings r).status = 200 ∨ (preflight settings r).status = 400 := by
    simp only [preflight]
    split
    · exact .inl rfl
    · exact .inr rfl
  rcases hstatus with hstatus | hstatus
  all_goals
    rw [hstatus]
    decide

omit [Viewed σ] [TakesAll σ] in
theorem status_respond (s : Service) (r : Request) (site : Site σ) :
    ((respond s r).run site).1.status = 500 ↔
      isPreflight r = false ∧ IsInternal ((atHost s r).run site).1 := by
  rw [respond]
  split
  next hpreflight =>
    refine iff_of_false (status_preflight s.settings r) fun hall => ?_
    exact absurd (hpreflight.symm.trans hall.1) (by decide)
  next hpreflight =>
    rw [and_iff_right (Bool.eq_false_iff.mpr hpreflight), Program.run_bind, Program.run_pure,
      status_sent_eq, IsInternal]

/-- The two cases in which a service with all it needs fails itself. -/
theorem status_internal_of_spoken (h : Spoken s site) (hsayable : Sayable r) :
    ((respond s r).run site).1.status = 500 ↔
      (∃ asked, Exhausted s r site asked) ∨ Undecodable s r := by
  rw [status_respond, isInternal_atHost h, isInternal_comments h hsayable]
  constructor
  · rintro ⟨hpreflight, hserved, hroute, hcase⟩
    have haddressed (hmethod : r.method ∈ ["POST", "PUT", "DELETE"]) : Addressed s r :=
      ⟨hpreflight, hserved, hroute, fun hhead => absurd (hhead ▸ hmethod) (by decide)⟩
    rcases hcase with ⟨asked, hmethod, hvalid, hfits, hattached, htaken⟩ | ⟨hmethod, hjson, htext⟩
    · exact .inl ⟨asked, haddressed (by simp [hmethod]), hmethod, hvalid, hfits, hattached,
        htaken⟩
    · exact .inr ⟨haddressed hmethod, hmethod, hjson, htext⟩
  · rintro (⟨asked, hexhausted⟩ | hundecodable)
    · have haddressed := hexhausted.addressed
      exact ⟨haddressed.not_preflight, haddressed.served, haddressed.route,
        .inl ⟨asked, hexhausted.method_eq, hexhausted.valid, hexhausted.fits,
          hexhausted.attached, hexhausted.taken⟩⟩
    · have haddressed := hundecodable.addressed
      exact ⟨haddressed.not_preflight, haddressed.served, haddressed.route,
        .inr ⟨hundecodable.method_mem, hundecodable.not_json, hundecodable.not_text⟩⟩

end Answers

/-! ## What requests leave behind -/

/-- A request whose body can be sent brings no lone half into the comments. -/
theorem Changes.allSpoken {s : Service} {r : Request} {before : Site Ledger} {status : Nat}
    {after : Ledger} (h : Changes s r before status after) (hsayable : Sayable r)
    (hbefore : AllSpoken before.store) : AllSpoken after := by
  have hletters := h.lettered fun c hc => (hbefore c hc).1
  refine fun c hc => ⟨hletters c hc, ?_⟩
  cases h with
  | kept => exact (hbefore c hc).2
  | @added asked message new lock hmethod hbrings hmessage hfits hnew =>
    rcases List.mem_cons.mp hc with rfl | hold
    · obtain ⟨body, hbody, hvalid⟩ := exists_of_brings hsayable hbrings
      rw [hnew.author_eq]
      cases hauthor : given asked.author with
      | none => rfl
      | some text =>
        exact (NewComment.plain_of_reader hbody hvalid).author text
          (Ledger.given_eq_some_iff.mp hauthor).1
    · exact (hbefore c hold).2
  | @edited e message time hmethod hstatus hbrings hmessage hfits =>
    rw [Ledger.comments_edit] at hc
    obtain ⟨old, hold, rfl⟩ := List.mem_map.mp hc
    have hauthor := (hbefore old hold).2
    split <;> exact hauthor
  | removed hash =>
    rw [Ledger.comments_remove] at hc
    exact (hbefore c (List.mem_filter.mp hc).1).2

theorem spoken_serve {settings : Settings} {salt : String} {supply : Supply}
    (hsalt : (Password.Salt.ofText? salt).isSome = true)
    (hclock : ∀ n, Time.inRange (supply.clock n) = true) (requests : List (String × Request))
    (hsayable : ∀ request ∈ requests, Sayable request.2) :
    Spoken ⟨settings, salt, true⟩ (Client.serve settings requests ⟨Memory.empty, supply⟩) := by
  let start : Site Memory := ⟨Memory.empty, supply⟩
  have hkeeps : ∃ l, Keeps (Client.serve settings requests start).store l ∧ AllSpoken l := by
    induction requests using List.reverseRecOn with
    | nil => exact ⟨[], keeps_nil (fun _ => rfl) (fun _ => rfl), List.forall_mem_nil _⟩
    | append_singleton earlier request ih =>
      obtain ⟨l, hl, hspoken⟩ := ih fun r hr => hsayable r (List.mem_append_left _ hr)
      obtain ⟨t, ht, hchanges⟩ := accounts_respond ⟨settings, request.1, true⟩ request.2 _
        ⟨l, _⟩ ⟨hl, rfl⟩ fun c hc => (hspoken c hc).1
      rw [Client.serve_concat]
      exact ⟨t.store, ht.store, hchanges.allSpoken (hsayable request (by simp)) hspoken⟩
  have hsame : (Client.serve settings requests start).supply.clock = start.supply.clock :=
    (Client.keeps_serve settings requests Client.keeps_empty).2
  exact ⟨rfl, hsalt, hkeeps, fun n => hsame ▸ hclock n⟩

/-- A service that has answered any requests fails itself in these two cases and in
no other, if no body brings what cannot be sent. -/
theorem status_internal_iff {settings : Settings} {salt : String} {supply : Supply}
    (hsalt : (Password.Salt.ofText? salt).isSome = true)
    (hclock : ∀ n, Time.inRange (supply.clock n) = true) (requests : List (String × Request))
    (hsayable : ∀ request ∈ requests, Sayable request.2) {r : Request} (hr : Sayable r) :
    let s : Service := ⟨settings, salt, true⟩
    let site : Site Memory := Client.serve settings requests ⟨Memory.empty, supply⟩
    ((respond s r).run site).1.status = 500 ↔
      (∃ asked, Exhausted s r site asked) ∨ Undecodable s r :=
  status_internal_of_spoken (spoken_serve hsalt hclock requests hsayable) hr

/-- A byte that begins no character, sent as plain text to a service that has stored a
comment. -/
theorem status_internal_iff_undecodable :
    let salt := "$2b$04$abcdefghijklmnopqrstuu"
    let supply : Supply := ⟨fun _ => "0a1b2c3d", fun _ => 0, 0, 0⟩
    let stored : NewComment := ⟨"intro", none, some "secret", "Hello", none⟩
    let commentsTarget : Target := ⟨"/comments".toList, none⟩
    let requests := [(salt, Client.Query.toRequest ⟨"POST", commentsTarget, some stored.toJson⟩
      "localhost")]
    let r : Request :=
      ⟨"POST", commentsTarget, [("host", "localhost"), ("content-type", "text/plain")], [0xFF]⟩
    let site : Site Memory := Client.serve Settings.standard requests ⟨Memory.empty, supply⟩
    (Password.Salt.ofText? salt).isSome = true ∧
      (∀ n, Time.inRange (supply.clock n) = true) ∧
      (∀ request ∈ requests, Sayable request.2) ∧ Sayable r ∧
      ((respond ⟨Settings.standard, salt, true⟩ r).run site).1.status = 500 := by
  intro salt supply stored commentsTarget requests r site
  have hsalt : (Password.Salt.ofText? salt).isSome = true := by decide +kernel
  have hepoch : Time.inRange 0 = true := by decide +kernel
  have hclock : ∀ n, Time.inRange (supply.clock n) = true := fun _ => hepoch
  have hsendable : stored.toJson.isSendable = true := rfl
  have hcarries := Client.carries_toRequest (s := ⟨Settings.standard, salt, true⟩)
    (Client.goesBy_standard "localhost") rfl rfl (q := ⟨"POST", commentsTarget, some stored.toJson⟩)
    (by simp) rfl hsendable
  have hsayable : ∀ request ∈ requests, Sayable request.2 := by
    refine List.forall_mem_singleton.mpr fun v hv => ?_
    rw [hcarries.bodyValue_eq stored.plain_toJson] at hv
    cases hv
    exact hsendable
  have hcrash : bodyValue r = .error .crash :=
    bodyValue_crash_iff.mpr ⟨by decide +kernel, by decide +kernel⟩
  have hr : Sayable r := by
    intro v hv
    rw [hcrash] at hv
    cases hv
  have hundecodable : Undecodable ⟨Settings.standard, salt, true⟩ r :=
    ⟨⟨by decide +kernel, by decide +kernel, by decide +kernel, by decide⟩, by decide,
      by decide +kernel, by decide +kernel⟩
  exact ⟨hsalt, hclock, hsayable, hr,
    (status_internal_iff hsalt hclock requests hsayable hr).mpr (.inr hundecodable)⟩

end CommentThreads.Server
