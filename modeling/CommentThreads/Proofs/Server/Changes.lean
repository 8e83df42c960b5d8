/-
CommentThreads.Proofs.Server.Changes — what one request makes of the comments that are
kept, told together with the status that it is answered with.

`Changes` — only a new comment that is asked for in order is added, only an edit that is
answered with 200 gives a comment a new message, and only a removal takes one away.
`accounts_respond` is the result, for every request and every ledger whose comments have
lone halves of surrogate pairs in their authors at most.
-/
import CommentThreads.Proofs.Server.Failure

namespace CommentThreads.Server

open CommentThreads.Http CommentThreads.Store CommentThreads.Text CommentThreads.Time

variable {σ : Type} [KeyValue σ]

/-! ## Complaints -/

/-- The statuses of answers to a request that cannot be read. -/
def IsComplaint (status : Nat) : Prop := status = 400 ∨ status = 422

theorem IsComplaint.not_internal {status : Nat} (h : IsComplaint status) : status ≠ 500 := by
  rcases h with rfl | rfl <;> decide

theorem IsComplaint.not_good {status : Nat} (h : IsComplaint status) : status ≠ 200 := by
  rcases h with rfl | rfl <;> decide

theorem isComplaint_ofBody {α : Type} {read : FieldReader α} {body : Json} {response : Response}
    (h : ofBody read body = .error response) : IsComplaint response.status := by
  simp only [ofBody] at h
  split at h
  · cases h
  · cases h
    exact .inr rfl

theorem isComplaint_queryPost {t : Target} {response : Response}
    (h : queryPost t = .error response) : IsComplaint response.status := by
  simp only [queryPost] at h
  split at h
  · cases h
  · cases h
    exact .inr rfl

theorem isComplaint_bodyValue {r : Request} {response : Response}
    (h : bodyValue r = .error (.answered response)) : IsComplaint response.status := by
  rw [bodyValue] at h
  split at h
  · cases h
  · split at h
    · split at h
      · cases h
      · cases h
        exact .inr rfl
      · cases h
        exact .inl rfl
      · cases h
        exact .inl rfl
    · split at h
      · cases h
      · cases h

/-! ## What one request does -/

/-- What a request makes of the comments that are kept, if it is answered with a
status. -/
inductive Changes (s : Service) (r : Request) (before : Site Ledger) (status : Nat) :
    Ledger → Prop
  | kept (hnot : r.method = "PUT" → status ≠ 200) : Changes s r before status before.store
  | added {asked : NewComment} {message : String} {c : Comment} (lock : Option String)
    (hmethod : r.method = "POST") (hbrings : Brings r NewComment.reader asked)
    (hmessage : asked.message = message) (hfits : fits s.settings message = true)
    (hnew : Ledger.IsNew s.settings.defaultAuthor asked.post asked.message asked.author
      asked.parent before.supply before.store.comments c) :
    Changes s r before status (⟨c, lock⟩ :: before.store)
  | edited {e : Edit} {message : String} (time : DateTime) (hmethod : r.method = "PUT")
    (hstatus : status = 200) (hbrings : Brings r Edit.reader e) (hmessage : e.message = message)
    (hfits : fits s.settings message = true) :
    Changes s r before status (Ledger.edit e.hash e.message time before.store)
  | removed (hash : RawText) (hmethod : r.method = "DELETE") :
    Changes s r before status (Ledger.remove hash before.store)

/-- The status that comes of a handler. The service fails where there is nothing, and where
there is what cannot be sent. -/
def statusOfOutcome : Outcome → Nat
  | some a => if a.body.isSendable then a.status else 500
  | none => 500

theorem status_sent_eq (s : Service) (r : Request) (outcome : Outcome) :
    (sent s r outcome).status = statusOfOutcome outcome := by
  cases outcome with
  | none => rfl
  | some a =>
    rw [statusOfOutcome]
    split
    next hsendable => exact status_sent hsendable
    next htorn =>
      rw [sent_of_not_isSendable ((Bool.not_eq_true _).mp htorn)]
      rfl

/-- An answer with another status than 200 does not get it by being sent. -/
theorem statusOfOutcome_ne {a : Response} (h : a.status ≠ 200) :
    statusOfOutcome (some a) ≠ 200 := by
  rw [statusOfOutcome]
  split
  · exact h
  · decide

section Accounting

variable [Viewed σ] {s : Service} {r : Request} {α : Type}

/-- A program makes of the comments what it may for the status of its answer. -/
def Accounts (σ : Type) [KeyValue σ] [Viewed σ] (s : Service) (r : Request) {α : Type}
    (status : α → Nat) (p : Program α) : Prop :=
  ∀ (site : Site σ) (t : Site Ledger), KeepsAt site t → (∀ c ∈ t.store.comments, Lettered c) →
    ∃ t', KeepsAt (p.run site).2 t' ∧ Changes s r t (status (p.run site).1) t'.store

theorem accounts_pure {status : α → Nat} {x : α} (h : r.method = "PUT" → status x ≠ 200) :
    Accounts σ s r status (pure x : Program α) :=
  fun _ t ht _ => ⟨t, ht, .kept h⟩

/-- An answer that is no success. -/
theorem accounts_refused {a : Response} (h : a.status ≠ 200) :
    Accounts σ s r statusOfOutcome (pure (some a)) :=
  accounts_pure fun _ => statusOfOutcome_ne h

/-- The answer of an action that reads. -/
theorem accounts_reading {a : Action α} {x : Site Ledger → Except Fault α}
    (h : ∀ (site : Site σ) t, KeepsAt site t → a.outcome site = (x t, site))
    (hmethod : r.method ≠ "PUT") (good : α → Response) (bad : Fault → Response) :
    Accounts σ s r statusOfOutcome (some <$> answer a good bad) := by
  intro site t ht _
  rw [run_map, run_answer (h site t ht)]
  exact ⟨t, ht, .kept fun hput => absurd hput hmethod⟩

theorem accounts_orAnswer {input : Except Response α} {next : α → Program Outcome}
    (hnext : ∀ a, input = .ok a → Accounts σ s r statusOfOutcome (next a))
    (hwrong : ∀ response, input = .error response → response.status ≠ 200) :
    Accounts σ s r statusOfOutcome (orAnswer input next) := by
  unfold orAnswer
  split
  · exact hnext _ rfl
  · exact accounts_refused (hwrong _ rfl)

theorem accounts_withStore {next : Program Outcome} (h : Accounts σ s r statusOfOutcome next) :
    Accounts σ s r statusOfOutcome (withStore s next) := by
  unfold withStore
  split
  · exact h
  · exact accounts_refused (show (503 : Nat) ≠ 200 by decide)

theorem accounts_withBody {read : FieldReader α} {next : α → Program Outcome}
    (h : ∀ a, Brings r read a → Accounts σ s r statusOfOutcome (next a)) :
    Accounts σ s r statusOfOutcome (withBody s r read next) := by
  unfold withBody
  split
  next body hbody =>
    exact accounts_withStore (accounts_orAnswer (fun a ha => h a ⟨body, hbody, ha⟩)
      fun _ hwrong => (isComplaint_ofBody hwrong).not_good)
  next response hanswered => exact accounts_refused (isComplaint_bodyValue hanswered).not_good
  next hcrash =>
    split
    · exact accounts_pure fun _ => (show (500 : Nat) ≠ 200 by decide)
    · exact accounts_refused (show (503 : Nat) ≠ 200 by decide)

/-- A message that goes on is a string within the limit. -/
theorem accounts_withinLimit {message : RawText} {next : Program Response}
    (h : ∀ m : String, message = m → fits s.settings m = true →
      Accounts σ s r statusOfOutcome (some <$> next)) :
    Accounts σ s r statusOfOutcome (withinLimit s.settings message next) := by
  cases message with
  | torn m half rest => exact accounts_pure fun _ => (show (500 : Nat) ≠ 200 by decide)
  | plain m =>
    rw [withinLimit_plain]
    split
    · next hfits => exact h m rfl hfits
    · exact accounts_refused (show (413 : Nat) ≠ 200 by decide)

variable [TakesAll σ]

theorem accounts_postComment {asked : NewComment} (hmethod : r.method = "POST")
    (hbrings : Brings r NewComment.reader asked) :
    Accounts σ s r statusOfOutcome (postComment s asked) := by
  refine accounts_withinLimit fun message hmessage hfits site t ht _ => ?_
  rw [run_map, run_answer (Prod.eta _).symm]
  refine ⟨_, (create_refines s.config asked.post asked.message asked.author asked.password
    asked.parent site t ht).2, ?_⟩
  obtain ⟨fault, -, hstore⟩ | ⟨c, hnew, -, hstore⟩ := Ledger.create_cases s.config asked.post
    asked.message asked.author asked.password asked.parent t
  · rw [hstore]
    refine .kept fun hput => ?_
    rw [hmethod] at hput
    exact absurd hput (by decide)
  · rw [hstore]
    exact .added _ hmethod hbrings hmessage hfits hnew

theorem not_good_of_unchanged (done doing : String) (fault : Fault) :
    (unchanged done doing fault).status ≠ 200 := by
  cases fault <;> exact of_decide_eq_true rfl

/-- An edit that is made is of a comment that is kept, so its hash can be written in the
answer. -/
theorem accounts_putComment {e : Edit} (hmethod : r.method = "PUT")
    (hbrings : Brings r Edit.reader e) : Accounts σ s r statusOfOutcome (putComment s e) := by
  refine accounts_withinLimit fun message hmessage hfits site t ht hletters => ?_
  obtain ⟨hended, hkept⟩ := update_refines e.hash e.password e.message site t ht
  rw [run_map, run_answer (Prod.eta _).symm]
  refine ⟨_, hkept, ?_⟩
  obtain ⟨fault, hfault, hstore⟩ | ⟨c, hc, hok, hstore⟩ :=
    Ledger.update_cases e.hash e.password e.message t
  · rw [hended, hfault, hstore]
    exact .kept fun _ => statusOfOutcome_ne (not_good_of_unchanged _ _ fault)
  · have hhash : e.hash.isPlain = true := by
      rw [← Ledger.hash_of_withHash? hc]
      exact (hletters c (Ledger.mem_of_withHash? hc)).hash
    rw [hended, hok, hstore]
    refine .edited _ hmethod (if_pos ?_) hbrings hmessage hfits
    exact (Notice.isSendable_toJson _).trans (by simp [hhash])

theorem accounts_deleteComment (hmethod : r.method = "DELETE") (removal : Removal) :
    Accounts σ s r statusOfOutcome (deleteComment removal) := by
  intro site t ht _
  unfold deleteComment
  rw [run_map, run_answer (Prod.eta _).symm]
  refine ⟨_, (delete_refines removal.hash removal.password site t ht).2, ?_⟩
  obtain ⟨fault, -, hstore⟩ | ⟨c, -, -, hstore⟩ :=
    Ledger.delete_cases removal.hash removal.password t
  · rw [hstore]
    refine .kept fun hput => ?_
    rw [hmethod] at hput
    exact absurd hput (by decide)
  · rw [hstore]
    exact .removed _ hmethod

theorem accounts_atResource (s : Service) (r : Request) (resource : Resource) :
    Accounts σ s r statusOfOutcome (atResource s r resource) := by
  have hother : Accounts σ s r statusOfOutcome (pure (some methodNotAllowed)) :=
    accounts_refused (show (405 : Nat) ≠ 200 by decide)
  cases resource with
  | comments =>
    rw [atResource]
    split
    next hmethod =>
      have hnot : r.method ≠ "PUT" := by
        rw [hmethod]
        decide
      exact accounts_withStore (accounts_orAnswer
        (fun post _ => accounts_reading (fun _ _ ht => outcome_threads ht.store post) hnot _ _)
        fun _ hwrong => (isComplaint_queryPost hwrong).not_good)
    next hmethod => exact accounts_withBody fun _ hbrings => accounts_postComment hmethod hbrings
    next hmethod => exact accounts_withBody fun _ hbrings => accounts_putComment hmethod hbrings
    next hmethod => exact accounts_withBody fun removal _ => accounts_deleteComment hmethod removal
    next => exact hother
  | comment hash =>
    rw [atResource]
    split
    next hmethod =>
      refine accounts_withStore (accounts_reading
        (fun _ _ ht => outcome_find ht.store hash) ?_ _ _)
      rw [hmethod]
      decide
    next => exact hother

theorem accounts_atHost (s : Service) (r : Request) :
    Accounts σ s r statusOfOutcome (atHost s r) := by
  unfold atHost
  split
  · unfold atRoute
    split
    · exact accounts_atResource s r _
    · exact accounts_refused (show (307 : Nat) ≠ 200 by decide)
    · exact accounts_refused (show (404 : Nat) ≠ 200 by decide)
  · exact accounts_refused (show (307 : Nat) ≠ 200 by decide)
  · exact accounts_refused (show (400 : Nat) ≠ 200 by decide)

/-- Any request accounts for what it makes of the comments. -/
theorem accounts_respond (s : Service) (r : Request) :
    Accounts σ s r Response.status (respond s r) := by
  intro site t ht hletters
  unfold respond
  split
  next hpreflight =>
    refine ⟨t, ht, .kept fun hput => ?_⟩
    rw [isPreflight, hput] at hpreflight
    cases hpreflight
  next =>
    obtain ⟨t', ht', hchanges⟩ := accounts_atHost s r site t ht hletters
    rw [Program.run_bind, Program.run_pure, status_sent_eq]
    exact ⟨t', ht', hchanges⟩

omit [KeyValue σ] [Viewed σ] [TakesAll σ] in
/-- No request brings a lone half into the comments but in an author. -/
theorem Changes.lettered {before : Site Ledger} {status : Nat} {after : Ledger}
    (h : Changes s r before status after) (hbefore : ∀ c ∈ before.store.comments, Lettered c) :
    ∀ c ∈ after.comments, Lettered c := by
  cases h with
  | kept => exact hbefore
  | @added asked message c lock hmethod hbrings hmessage hfits hnew =>
    obtain ⟨body, -, hbody⟩ := hbrings
    obtain ⟨⟨post, hpost, hne⟩, hblank⟩ := NewComment.fit_of_reader (valid_of_ofBody hbody)
    rw [hmessage] at hblank
    rw [hpost, hmessage] at hnew
    have hadded := isAdded_of_isNew s.config none hnew hne hblank
    exact List.forall_mem_cons.mpr ⟨hadded.lettered hbefore, hbefore⟩
  | @edited e message time hmethod hstatus hbrings hmessage hfits =>
    rw [hmessage]
    exact lettered_edit hbefore
  | removed hash => exact lettered_remove hbefore

end Accounting

end CommentThreads.Server
