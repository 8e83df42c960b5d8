/-
CommentThreads.Proofs.Server.Failure — a request that fails changes nothing, but
for lone halves that are found too late.

* `ReportsChange` — the answers after which the store may be another one: a
  comment was created, or a change was made.
* `Spares` — a program leaves the store as it was, unless its answer is one
  that excuses it. One lemma for each way the service builds its programs.
* `FoundLate` — the requests with a lone half that comes to light when the store has
  been changed: in a password, which is hashed after its comment was written, or in
  what the answer repeats.
* `respond_spares` — all others spare the store if they fail, whatever it holds, as
  long as passwords can be hashed under the salt.
* `create_fault_of_equipped`, `update_fault_of_equipped`,
  `delete_fault_of_equipped` — the faults that are left to a service with all it
  needs.
* `unharmed_by_failure` — what fails, and what only reads, at the store and at
  the service.
-/
import CommentThreads.Proofs.Server.Requests
import CommentThreads.Proofs.Store.Calls
import CommentThreads.Proofs.Store.Failure

namespace CommentThreads.Server

open CommentThreads.Http CommentThreads.Store

variable {σ : Type} [KeyValue σ]

/-- The answer says that the request changed something. -/
def ReportsChange (r : Request) (a : Response) : Prop :=
  r.method = "POST" ∧ a.status = 201 ∨ (r.method = "PUT" ∨ r.method = "DELETE") ∧ a.status = 200

theorem ReportsChange.succeeds {r : Request} {a : Response} (h : ReportsChange r a) :
    a.status = 200 ∨ a.status = 201 := by
  rcases h with ⟨-, hstatus⟩ | ⟨-, hstatus⟩
  · exact .inr hstatus
  · exact .inl hstatus

theorem ReportsChange.not_reading {r : Request} {a : Response} (h : ReportsChange r a) :
    r.method ≠ "GET" ∧ r.method ≠ "OPTIONS" := by
  rcases h with ⟨hmethod, -⟩ | ⟨hmethod | hmethod, -⟩
  all_goals
    rw [hmethod]
    decide

/-- Headers are added, and a body is left out, but the status stays. -/
theorem status_headOnly (r : Request) (a : Response) (more : Headers) :
    (headOnly r (a.withHeaders more)).status = a.status := by
  unfold headOnly
  split <;> rfl

theorem status_sent {s : Service} {r : Request} {a : Response} (h : a.body.isSendable = true) :
    (sent s r (some a)).status = a.status := by
  rw [sent, if_pos h, status_headOnly]

/-- The outcome of a handler says that the request changed something, and can be sent. -/
def Reports (r : Request) (outcome : Outcome) : Prop :=
  ∃ a, outcome = some a ∧ ReportsChange r a ∧ a.body.isSendable = true

theorem Reports.of_sent {s : Service} {r : Request} {outcome : Outcome} (h : Reports r outcome) :
    ReportsChange r (sent s r outcome) := by
  obtain ⟨a, rfl, hreports, hsendable⟩ := h
  unfold ReportsChange
  rw [status_sent hsendable]
  exact hreports

/-! ## Programs that leave the store as it was -/

/-- A program leaves the store as it was, unless its answer excuses it. -/
def Spares {α : Type} (σ : Type) [KeyValue σ] (Excused : α → Prop) (p : Program α) : Prop :=
  ∀ site : Site σ, ¬Excused (p.run site).1 → (p.run site).2.store = site.store

section Building

variable {α β : Type} {Excused : α → Prop}

theorem spares_pure (x : α) : Spares σ Excused (pure x : Program α) := fun _ _ => rfl

theorem spares_map {Allowed : β → Prop} {f : α → β} {p : Program α} (h : Spares σ Excused p)
    (hf : ∀ x, Excused x → Allowed (f x)) : Spares σ Allowed (f <$> p) := by
  intro site hnot
  rw [run_map] at hnot ⊢
  exact h site fun hexcused => hnot (hf _ hexcused)

/-- The answer of an action that fails cleanly. -/
theorem spares_answer {Excused : Response → Prop} {excepted : Fault → Prop} {a : Action α}
    {good : α → Response} (h : FailsClean σ excepted a) (hnone : ∀ fault, ¬excepted fault)
    (hgood : ∀ x (site after : Site σ), a.outcome site = (.ok x, after) → Excused (good x))
    (bad : Fault → Response) : Spares σ Excused (answer a good bad) := by
  intro site hnot
  cases hr : a.outcome site with
  | mk r after =>
    rw [run_answer hr] at hnot ⊢
    cases r with
    | ok x => exact absurd (hgood x site after hr) hnot
    | error fault => exact h site after fault hr (hnone fault)

/-- The answer of an action that only reads. -/
theorem spares_reading {Excused : Response → Prop} {a : Action α}
    (h : ∀ m : σ, Preserves (· = m) a) (good : α → Response) (bad : Fault → Response) :
    Spares σ Excused (answer a good bad) := by
  intro site _
  have hsame := h site.store site rfl
  rw [run_answer (Prod.eta (a.outcome site)).symm]
  exact hsame

variable {Excused : Outcome → Prop}

theorem spares_some {p : Program Response} (h : Spares σ (fun a => Excused (some a)) p) :
    Spares σ Excused (some <$> p) :=
  spares_map h fun _ ha => ha

theorem spares_orAnswer {input : Except Response α} {next : α → Program Outcome}
    (h : ∀ a, input = .ok a → Spares σ Excused (next a)) :
    Spares σ Excused (orAnswer input next) := by
  unfold orAnswer
  split
  · exact h _ rfl
  · exact spares_pure _

theorem spares_withStore (s : Service) {next : Program Outcome} (h : Spares σ Excused next) :
    Spares σ Excused (withStore s next) := by
  unfold withStore
  split
  · exact h
  · exact spares_pure _

theorem spares_withBody (s : Service) (r : Request) (read : FieldReader α)
    {next : α → Program Outcome} (h : ∀ a, Brings r read a → Spares σ Excused (next a)) :
    Spares σ Excused (withBody s r read next) := by
  unfold withBody
  split
  · next body hbody => exact spares_withStore s (spares_orAnswer fun a ha => h a ⟨body, hbody, ha⟩)
  · exact spares_pure _
  · split
    · exact spares_pure _
    · exact spares_pure _

/-- A message that goes on is a string. -/
theorem spares_withinLimit (settings : Settings) (message : RawText) {next : Program Response}
    (h : message.isPlain = true → Spares σ (fun a => Excused (some a)) next) :
    Spares σ Excused (withinLimit settings message next) := by
  cases message with
  | torn m half rest => exact spares_pure _
  | plain m =>
    rw [withinLimit_plain]
    split
    · exact spares_some (h rfl)
    · exact spares_pure _

end Building

/-! ## Lone halves that are found too late -/

/-- A lone half in what a request brings that is not found before the store is changed:
in the author of a new comment, which its answer repeats, or in its password; or in the
hash of a comment that is edited or removed. -/
inductive FoundLate (r : Request) : Prop
  | author {c : NewComment} {text : RawText} (hmethod : r.method = "POST")
    (hbrings : Brings r NewComment.reader c) (htext : given c.author = some text)
    (htorn : text.isPlain = false)
  | password {c : NewComment} {text : RawText} (hmethod : r.method = "POST")
    (hbrings : Brings r NewComment.reader c) (htext : c.password = some text)
    (htorn : text.isPlain = false)
  | edit {e : Edit} (hmethod : r.method = "PUT") (hbrings : Brings r Edit.reader e)
    (htorn : e.hash.isPlain = false)
  | removal {removal : Removal} (hmethod : r.method = "DELETE")
    (hbrings : Brings r Removal.reader removal) (htorn : removal.hash.isPlain = false)

theorem not_foundLate {r : Request} (h : r.method = "GET" ∨ r.method = "OPTIONS") :
    ¬FoundLate r := by
  intro hlate
  cases hlate with
  | author hmethod | password hmethod | edit hmethod | removal hmethod =>
    rw [hmethod] at h
    simp at h

/-! ## The handlers -/

section Handlers

variable [Viewed σ] [TakesAll σ] {s : Service} {r : Request}

/-- A text without a lone half, told from one that has one not being there. -/
theorem isPlain_of_not {text : RawText} (h : ¬text.isPlain = false) : text.isPlain = true :=
  (Bool.not_eq_false _).mp h

theorem isSendable_receipt {c : Comment} (hhash : c.hash.isPlain = true)
    (hauthor : c.author.isPlain = true) (hmessage : c.message.isPlain = true) :
    (receipt c).toJson.isSendable = true := by
  simp [Receipt.toJson, receipt, Json.isSendable, Json.entriesSendable, hhash, hauthor, hmessage]

theorem spares_postComment (hsalt : (Password.Salt.ofText? s.salt).isSome = true)
    (hlate : ¬FoundLate r) (hmethod : r.method = "POST") {c : NewComment}
    (hbrings : Brings r NewComment.reader c) : Spares σ (Reports r) (postComment s c) := by
  refine spares_withinLimit _ _ fun hmessage => ?_
  have hpassword : ∀ text ∈ c.password, text.isPlain = true := fun text htext =>
    isPlain_of_not fun htorn => hlate (.password hmethod hbrings htext htorn)
  refine spares_answer (create_failsClean s.config _ _ _ _ _)
    (Ledger.lockFor_ne_error hsalt hpassword)
    (fun stored site after hcreated => ⟨_, rfl, .inl ⟨hmethod, rfl⟩, ?_⟩) _
  obtain ⟨hash, resolved, created, s₁, s₂, hhash, rfl⟩ := created_eq hcreated
  refine isSendable_receipt (isPlain_of_newHash hhash) ?_ hmessage
  cases hauthor : given c.author with
  | none => exact RawText.isPlain_plain _
  | some text => exact isPlain_of_not fun htorn => hlate (.author hmethod hbrings hauthor htorn)

theorem spares_putComment (hlate : ¬FoundLate r) (hmethod : r.method = "PUT") {e : Edit}
    (hbrings : Brings r Edit.reader e) : Spares σ (Reports r) (putComment s e) := by
  have hhash := isPlain_of_not fun htorn => hlate (.edit hmethod hbrings htorn)
  refine spares_withinLimit _ _ fun _ => spares_answer (update_failsClean _ _ _) (fun _ h => h)
    (fun _ _ _ _ => ⟨_, rfl, .inr ⟨.inl hmethod, rfl⟩, ?_⟩) _
  rw [Response.json, Body.isSendable, Notice.isSendable_toJson]
  simp [hhash]

theorem spares_deleteComment (hlate : ¬FoundLate r) (hmethod : r.method = "DELETE")
    {removal : Removal} (hbrings : Brings r Removal.reader removal) :
    Spares σ (Reports r) (deleteComment removal) := by
  have hhash := isPlain_of_not fun htorn => hlate (.removal hmethod hbrings htorn)
  refine spares_some (spares_answer (delete_failsClean _ _) (fun _ h => h)
    (fun _ _ _ _ => ⟨_, rfl, .inr ⟨.inr hmethod, rfl⟩, ?_⟩) _)
  rw [Response.json, Body.isSendable, Notice.isSendable_toJson]
  simp [hhash]

omit [TakesAll σ] in
theorem spares_showThreads {Excused : Response → Prop} (post : RawText) :
    Spares σ Excused (showThreads post) :=
  spares_reading (fun _ => preserves_threads post) _ _

omit [TakesAll σ] in
theorem spares_showComment {Excused : Response → Prop} (hash : String) :
    Spares σ Excused (showComment hash) :=
  spares_reading (fun _ => preserves_find hash) _ _

theorem spares_atResource (hsalt : (Password.Salt.ofText? s.salt).isSome = true)
    (hlate : ¬FoundLate r) (resource : Resource) :
    Spares σ (Reports r) (atResource s r resource) := by
  cases resource with
  | comments =>
    rw [atResource]
    split
    · exact spares_withStore s (spares_orAnswer fun post _ => spares_some (spares_showThreads post))
    · next hmethod => exact spares_withBody s r _ fun _ h =>
        spares_postComment hsalt hlate hmethod h
    · next hmethod => exact spares_withBody s r _ fun _ h => spares_putComment hlate hmethod h
    · next hmethod => exact spares_withBody s r _ fun _ h => spares_deleteComment hlate hmethod h
    · exact spares_pure _
  | comment hash =>
    rw [atResource]
    split
    · exact spares_withStore s (spares_some (spares_showComment hash))
    · exact spares_pure _

theorem spares_atHost (hsalt : (Password.Salt.ofText? s.salt).isSome = true)
    (hlate : ¬FoundLate r) : Spares σ (Reports r) (atHost s r) := by
  unfold atHost
  split
  · unfold atRoute
    split
    · exact spares_atResource hsalt hlate _
    · exact spares_pure _
    · exact spares_pure _
  · exact spares_pure _
  · exact spares_pure _

/-- No request changes the store but one whose answer says so, or one with a lone half that
is found too late. -/
theorem respond_spares (hsalt : (Password.Salt.ofText? s.salt).isSome = true)
    (hlate : ¬FoundLate r) : Spares σ (ReportsChange r) (respond s r) := by
  intro site hnot
  unfold respond at hnot ⊢
  split at hnot
  next hpreflight =>
    rw [if_pos hpreflight]
    rfl
  next hpreflight =>
    rw [if_neg hpreflight, Program.run_bind]
    rw [Program.run_bind] at hnot
    exact spares_atHost hsalt hlate site fun hreports => hnot hreports.of_sent

end Handlers

/-! ## The faults of a service that has all it needs -/

/-- A service with all it needs: a store that keeps a ledger, a clock that shows
moments of the calendar, and a salt that passwords can be hashed under. -/
structure Equipped [Viewed σ] (s : Service) (site : Site σ) : Prop where
  hasStore : s.hasStore = true
  salt : (Password.Salt.ofText? s.salt).isSome = true
  keeps : ∃ l, Keeps site.store l
  clock : ∀ n, Time.inRange (site.supply.clock n) = true

section Equipped

variable [Viewed σ] [TakesAll σ] {s : Service} {site after : Site σ} {fault : Fault}

theorem create_fault_of_equipped (h : Equipped s site) {post message : RawText}
    {author password parent : Option RawText} (hplain : ∀ text ∈ password, text.isPlain = true)
    (hended : (create s.config post message author password parent).outcome site =
      (.error fault, after)) :
    ((∃ hash, fault = .notFound hash) ∨ fault = .noFreshHash) ∧ after.store = site.store := by
  obtain ⟨l, hl⟩ := h.keeps
  have hclean := create_failsClean s.config post message author password parent site after fault
    hended (Ledger.lockFor_ne_error h.salt hplain fault)
  have hledger := (create_refines s.config post message author password parent site
    ⟨l, site.supply⟩ ⟨hl, rfl⟩).1
  rw [hended] at hledger
  rcases Ledger.create_fault hledger.symm with hfound | hfresh | ⟨-, hrange⟩ | hnone
  · exact ⟨.inl hfound, hclean⟩
  · exact ⟨.inr hfresh, hclean⟩
  · exact absurd ((h.clock _).symm.trans hrange) (by decide)
  · exact absurd hnone (Ledger.lockFor_ne_error h.salt hplain fault)

theorem update_fault_of_equipped (h : Equipped s site) {hash password message : RawText}
    (hplain : password.isPlain = true)
    (hended : (update hash password message).outcome site = (.error fault, after)) :
    (fault = .notFound hash ∨ fault = .locked hash ∨ fault = .wrongPassword hash) ∧
      after.store = site.store := by
  obtain ⟨l, hl⟩ := h.keeps
  have hclean := update_failsClean hash password message site after fault hended id
  have hledger := (update_refines hash password message site ⟨l, site.supply⟩ ⟨hl, rfl⟩).1
  rw [hended] at hledger
  rcases Ledger.update_fault hledger.symm with hfound | hlocked | hwrong | ⟨-, hrange⟩
  · exact ⟨.inl hfound, hclean⟩
  · exact ⟨.inr (.inl hlocked), hclean⟩
  · exact ⟨.inr (.inr (hwrong.trans (if_pos hplain))), hclean⟩
  · exact absurd ((h.clock _).symm.trans hrange) (by decide)

theorem delete_fault_of_equipped (h : Equipped s site) {hash password : RawText}
    (hplain : password.isPlain = true)
    (hended : (delete hash password).outcome site = (.error fault, after)) :
    (fault = .notFound hash ∨ fault = .locked hash ∨ fault = .wrongPassword hash) ∧
      after.store = site.store := by
  obtain ⟨l, hl⟩ := h.keeps
  have hledger := (delete_refines hash password site ⟨l, site.supply⟩ ⟨hl, rfl⟩).1
  rw [hended] at hledger
  have hfault := Ledger.delete_fault hledger.symm
  rw [Ledger.refusal, if_pos hplain] at hfault
  exact ⟨hfault, delete_failsClean hash password site after fault hended id⟩

end Equipped

/-! ## Failures at the store and at the service -/

/-- Nothing that fails at a site, and nothing that only reads there, leaves
another store than there was, but for lone halves that are found too late. A new comment
whose password has one is stored, all but the password, and its creation fails. -/
structure UnharmedByFailure (salt : String) (site : Site σ) : Prop where
  create : ∀ author post message writer password parent fault after,
    (create ⟨author, salt⟩ post message writer password parent).outcome site =
      (.error fault, after) → after.store = site.store ∨
        (fault = .notEncodable ∧ (∃ text ∈ password, text.isPlain = false) ∧
          ∃ c, c.post = post ∧ after.store = storeAfter (newCalls c none) site.store)
  update : ∀ hash password message fault after,
    (update hash password message).outcome site = (.error fault, after) →
      after.store = site.store
  delete : ∀ hash password fault after,
    (delete hash password).outcome site = (.error fault, after) → after.store = site.store
  request : ∀ settings hasStore r answer after,
    (respond ⟨settings, salt, hasStore⟩ r).run site = (answer, after) →
      answer.status ≠ 200 → answer.status ≠ 201 → ¬FoundLate r → after.store = site.store
  reading : ∀ settings hasStore r answer after,
    (respond ⟨settings, salt, hasStore⟩ r).run site = (answer, after) →
      r.method = "GET" ∨ r.method = "OPTIONS" → after.store = site.store

/-- Whatever a store holds, failures leave it alone, up to what is found too late. -/
theorem unharmed_by_failure [Viewed σ] [TakesAll σ] {salt : String}
    (hsalt : (Password.Salt.ofText? salt).isSome = true) (site : Site σ) :
    UnharmedByFailure salt site := by
  have hspares (settings : Settings) (hasStore : Bool) {r : Request} (hlate : ¬FoundLate r)
      {answer : Response} {after : Site σ}
      (hrun : (respond ⟨settings, salt, hasStore⟩ r).run site = (answer, after))
      (hnot : ¬ReportsChange r answer) : after.store = site.store := by
    have hrespond := respond_spares (s := ⟨settings, salt, hasStore⟩) hsalt hlate site
    rw [hrun] at hrespond
    exact hrespond hnot
  constructor
  case create =>
    intro author post message writer password parent fault after h
    obtain hsame | ⟨hlock, c, hpost, hstore⟩ := create_of_error h
    · exact .inl hsame
    · rcases Ledger.lockFor_fault hlock with ⟨hfault, htorn⟩ | ⟨-, hnone⟩
      · exact .inr ⟨hfault, htorn, c, hpost, hstore⟩
      · rw [hnone] at hsalt
        cases hsalt
  case update =>
    intro hash password message fault after h
    exact update_failsClean hash password message site after fault h id
  case delete =>
    intro hash password fault after h
    exact delete_failsClean hash password site after fault h id
  case request =>
    intro settings hasStore r answer after hrun hnotOk hnotCreated hlate
    refine hspares settings hasStore hlate hrun fun hreports => ?_
    rcases hreports.succeeds with hstatus | hstatus
    · exact hnotOk hstatus
    · exact hnotCreated hstatus
  case reading =>
    intro settings hasStore r answer after hrun hmethod
    refine hspares settings hasStore (not_foundLate hmethod) hrun fun hreports => ?_
    rcases hmethod with hmethod | hmethod
    · exact hreports.not_reading.1 hmethod
    · exact hreports.not_reading.2 hmethod

/-- A record that is no comment fails what reads it, and stays. A password with a lone half
fails the creation of a comment that is there. -/
theorem unharmed_by_failure_broken :
    let salt := "$2b$04$abcdefghijklmnopqrstuu"
    let supply : Supply := ⟨fun _ => "0a1b2c3d", fun _ => 0, 0, 0⟩
    let site : Site Memory := ⟨⟨[(recordKey "broken", .text "no comment")], []⟩, supply⟩
    let torn : RawText := .torn "" (Half.ofUnit 0xD800) ""
    let created := (create ⟨"Anonymous", salt⟩ "intro" "Hello" none (some torn) none).outcome site
    (Password.Salt.ofText? salt).isSome = true ∧
      (update "broken" "secret" "Hello").outcome site = (.error .recordNotObject, site) ∧
      created.1.isOk = false ∧
      created.2.store.listAt (indexKey "intro") = [("0a1b2c3d" : RawText)] ∧
      UnharmedByFailure salt site := by
  intro salt supply site torn created
  have hsalt : (Password.Salt.ofText? salt).isSome = true := by decide +kernel
  have hfails : (update "broken" "secret" "Hello").outcome site =
      (.error .recordNotObject, site) := by rfl
  have hcreated : created.1.isOk = false := by decide +kernel
  have hlisted : created.2.store.listAt (indexKey "intro") = [("0a1b2c3d" : RawText)] := by
    decide +kernel
  exact ⟨hsalt, hfails, hcreated, hlisted, unharmed_by_failure hsalt site⟩

end CommentThreads.Server
