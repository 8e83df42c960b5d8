/-
CommentThreads.Proofs.Server.Requests — what the service makes of requests.

Any request is a turn with the ledger that the store keeps (`takesTurn_respond`),
since the handlers do nothing to the store but operations on comments, and those
only with what can be read.

A request that names all comments by its path, for a host that the service goes
by, is answered there (`respond_addressed`): by the handler of what is read from
its body (`respond_valid`, `respond_invalid`), or by the threads of the post in
its query (`respond_threads`, `respond_emptyPost`). What is answered there is sent as it
is, if it can be sent (`sent_of_isSendable`).
-/
import CommentThreads.Proofs.Record.Wire
import CommentThreads.Proofs.Store.Frame
import CommentThreads.Proofs.Store.Refinement
import CommentThreads.Proofs.Store.Turn
import CommentThreads.Proofs.Text.Percent
import CommentThreads.Server.Service

namespace CommentThreads.Server

open CommentThreads.Http CommentThreads.Store CommentThreads.Text

variable {σ : Type} [KeyValue σ]

/-! ## Programs of the service -/

theorem run_map {α β : Type} (f : α → β) (p : Program α) (site : Site σ) :
    (f <$> p).run site = (f (p.run site).1, (p.run site).2) := by
  rw [map_eq_pure_bind, Program.run_bind, Program.run_pure]

/-- What is answered to the end of an action. -/
def answerOf {α : Type} (good : α → Response) (bad : Fault → Response) :
    Except Fault α → Response
  | .ok x => good x
  | .error fault => bad fault

/-- The answer of an action tells how the action ended. -/
theorem run_answer {α : Type} {a : Action α} {good : α → Response} {bad : Fault → Response}
    {site after : Site σ} {r : Except Fault α} (h : a.outcome site = (r, after)) :
    (answer a good bad).run site = (answerOf good bad r, after) := by
  have hrun : Program.run a.run site = (r, after) := h
  rw [answer, Program.run_bind, hrun]
  cases r <;> rfl

/-! ## Messages within the limit -/

/-- The size of a string is judged. -/
theorem withinLimit_plain (settings : Settings) (message : String) (next : Program Response) :
    withinLimit settings message next =
      if fits settings message then some <$> next else return some (tooLarge settings) := rfl

theorem withinLimit_of_fits {settings : Settings} {message : String}
    (h : fits settings message = true) (next : Program Response) :
    withinLimit settings message next = some <$> next := by
  rw [withinLimit_plain, if_pos h]

/-! ## Bodies -/

/-- The body of a request has a value, and a handler's input is read from it. -/
def Brings {α : Type} (r : Request) (read : FieldReader α) (a : α) : Prop :=
  ∃ body, bodyValue r = .ok body ∧ ofBody read body = .ok a

/-! ## Any request -/

section Turns

variable [Viewed σ] [TakesAll σ] {s : Service} {r : Request}

/-- A program takes a turn with the ledger that is kept. -/
def TakesTurn {α : Type} (σ : Type) [KeyValue σ] [Viewed σ] [TakesAll σ] (config : Config)
    (p : Program α) : Prop :=
  ∀ (site : Site σ) (t : Site Ledger), KeepsAt site t →
    ∃ t', KeepsAt (p.run site).2 t' ∧ Turn config t t'

variable {config : Config}

theorem takesTurn_pure {α : Type} (x : α) : TakesTurn σ config (pure x : Program α) :=
  fun _ t h => ⟨t, h, .none t⟩

theorem takesTurn_map {α β : Type} (f : α → β) {p : Program α} (h : TakesTurn σ config p) :
    TakesTurn σ config (f <$> p) := by
  intro site t ht
  rw [run_map]
  exact h site t ht

/-- The answer of an action that reads. -/
theorem takesTurn_reading {α : Type} {a : Action α} {x : Site Ledger → Except Fault α}
    (h : ∀ (site : Site σ) t, KeepsAt site t → a.outcome site = (x t, site)) (good : α → Response)
    (bad : Fault → Response) : TakesTurn σ config (answer a good bad) := by
  intro site t ht
  rw [run_answer (h site t ht)]
  exact ⟨t, ht, .none t⟩

/-- The answer of an action that is an operation on the ledger. -/
theorem takesTurn_answer {α : Type} {a : Action α}
    {onLedger : Site Ledger → Except Fault α × Site Ledger} (h : Refines σ a onLedger)
    (hturn : ∀ t, Turn config t (onLedger t).2) (good : α → Response) (bad : Fault → Response) :
    TakesTurn σ config (answer a good bad) := by
  intro site t ht
  rw [run_answer (Prod.eta _).symm]
  exact ⟨_, (h site t ht).2, hturn t⟩

theorem takesTurn_orAnswer {α : Type} {input : Except Response α} {next : α → Program Outcome}
    (h : ∀ a, input = .ok a → TakesTurn σ config (next a)) :
    TakesTurn σ config (orAnswer input next) := by
  unfold orAnswer
  split
  · exact h _ rfl
  · exact takesTurn_pure _

theorem takesTurn_withStore (s : Service) {next : Program Outcome}
    (h : TakesTurn σ config next) : TakesTurn σ config (withStore s next) := by
  unfold withStore
  split
  · exact h
  · exact takesTurn_pure _

/-- What a body asks for was read from it. -/
theorem valid_of_ofBody {α : Type} {read : FieldReader α} {body : Json} {a : α}
    (h : ofBody read body = .ok a) : read body = .valid a := by
  have hrecord {v : Json} (h : FieldReader.record read v = .valid a) : read v = .valid a := by
    unfold FieldReader.record at h
    split at h
    · exact h
    · cases h
  simp only [ofBody] at h
  split at h
  · next b hread =>
    cases h
    split at hread
    · cases hread
    · exact hrecord hread
  · cases h

theorem takesTurn_withBody {α : Type} (s : Service) (r : Request) (read : FieldReader α)
    {next : α → Program Outcome} (h : ∀ v a, read v = .valid a → TakesTurn σ config (next a)) :
    TakesTurn σ config (withBody s r read next) := by
  have hnext {body : Json} (a : α) (ha : ofBody read body = .ok a) : TakesTurn σ config (next a) :=
    h body a (valid_of_ofBody ha)
  unfold withBody
  split
  · exact takesTurn_withStore s (takesTurn_orAnswer hnext)
  · exact takesTurn_pure _
  · split
    · exact takesTurn_pure _
    · exact takesTurn_pure _

/-- Only a message that is a string goes on. -/
theorem takesTurn_withinLimit (settings : Settings) (message : RawText) {next : Program Response}
    (h : ∀ m : String, message = m → TakesTurn σ config next) :
    TakesTurn σ config (withinLimit settings message next) := by
  cases message with
  | torn m half rest => exact takesTurn_pure _
  | plain m =>
    rw [withinLimit_plain]
    split
    · exact takesTurn_map _ (h m rfl)
    · exact takesTurn_pure _

theorem takesTurn_postComment {v : Json} {c : NewComment} (h : NewComment.reader v = .valid c) :
    TakesTurn σ s.config (postComment s c) := by
  obtain ⟨⟨post, hpost, hne⟩, hmessage⟩ := NewComment.fit_of_reader h
  refine takesTurn_withinLimit _ _ fun message heq => ?_
  rw [heq] at hmessage
  rw [hpost, heq]
  exact takesTurn_answer (create_refines _ _ _ _ _ _)
    (fun t => .create c.author c.password c.parent hne hmessage t) _ _

theorem takesTurn_putComment {v : Json} {e : Edit} (h : Edit.reader v = .valid e) :
    TakesTurn σ s.config (putComment s e) := by
  have hmessage := Edit.fit_of_reader h
  refine takesTurn_withinLimit _ _ fun message heq => ?_
  rw [heq] at hmessage
  rw [heq]
  exact takesTurn_answer (update_refines _ _ _)
    (fun t => .update e.hash e.password hmessage t) _ _

theorem takesTurn_deleteComment (r : Removal) : TakesTurn σ s.config (deleteComment r) :=
  takesTurn_map _
    (takesTurn_answer (delete_refines _ _) (fun t => .delete r.hash r.password t) _ _)

theorem takesTurn_showThreads (post : RawText) : TakesTurn σ config (showThreads post) :=
  takesTurn_reading (fun _ _ ht => outcome_threads ht.store post) _ _

theorem takesTurn_showComment (hash : String) : TakesTurn σ config (showComment hash) :=
  takesTurn_reading (fun _ _ ht => outcome_find ht.store hash) _ _

theorem takesTurn_atResource (s : Service) (r : Request) (resource : Resource) :
    TakesTurn σ s.config (atResource s r resource) := by
  cases resource with
  | comments =>
    rw [atResource]
    split
    · exact takesTurn_withStore s
        (takesTurn_orAnswer fun post _ => takesTurn_map _ (takesTurn_showThreads post))
    · exact takesTurn_withBody s r _ fun v c hread => takesTurn_postComment hread
    · exact takesTurn_withBody s r _ fun v e hread => takesTurn_putComment hread
    · exact takesTurn_withBody s r _ fun v removal _ => takesTurn_deleteComment removal
    · exact takesTurn_pure _
  | comment hash =>
    rw [atResource]
    split
    · exact takesTurn_withStore s (takesTurn_map _ (takesTurn_showComment hash))
    · exact takesTurn_pure _

theorem takesTurn_atHost (s : Service) (r : Request) : TakesTurn σ s.config (atHost s r) := by
  unfold atHost
  split
  · unfold atRoute
    split
    · exact takesTurn_atResource s r _
    · exact takesTurn_pure _
    · exact takesTurn_pure _
  · exact takesTurn_pure _
  · exact takesTurn_pure _

/-- Whatever is asked of the service, it takes one turn with the ledger. -/
theorem takesTurn_respond (s : Service) (r : Request) : TakesTurn σ s.config (respond s r) := by
  intro site t ht
  obtain ⟨t', hkeeps, hturn⟩ := takesTurn_atHost s r site t ht
  unfold respond
  split
  · exact ⟨t, ht, .none t⟩
  · rw [Program.run_bind]
    exact ⟨t', hkeeps, hturn⟩

end Turns

/-! ## Requests about all comments -/

/-- A request that gets to the resource of all comments. -/
structure Addressed (s : Service) (r : Request) : Prop where
  not_preflight : isPreflight r = false
  served : judgeHost s.settings r = .served
  route : Route.ofPath (decodedPath r.target) = .found .comments
  not_head : r.method ≠ "HEAD"

/-- What is answered there is sent. -/
theorem respond_addressed {s : Service} {r : Request} (h : Addressed s r) {site after : Site σ}
    {a : Outcome} (hanswer : (atResource s r .comments).run site = (a, after)) :
    (respond s r).run site = (sent s r a, after) := by
  have hhost : (atHost s r).run site = (a, after) := by
    rw [atHost, h.served]
    simp only [atRoute, h.route]
    exact hanswer
  rw [respond, h.not_preflight, if_neg Bool.false_ne_true, Program.run_bind, hhost,
    Program.run_pure]

/-- An answer that can be sent is sent as it is, up to headers about origins. -/
theorem sent_of_isSendable {s : Service} {r : Request} (h : Addressed s r) {a : Response}
    (ha : a.body.isSendable = true) :
    sent s r (some a) = a.withHeaders (originHeaders s.settings r) := by
  rw [sent, if_pos ha, headOnly, if_neg h.not_head]

theorem sent_of_not_isSendable {s : Service} {r : Request} {a : Response}
    (ha : a.body.isSendable = false) : sent s r (some a) = failure := by
  rw [sent, ha, if_neg Bool.false_ne_true]

/-- A request with a body that the service reads. -/
structure Carries (s : Service) (r : Request) (v : Json) : Prop where
  addressed : Addressed s r
  hasStore : s.hasStore = true
  saysJson : saysJson r = true
  sendable : v.isSendable = true
  body_eq : r.body = (Body.json v).bytes

section Body

variable {s : Service} {r : Request} {α : Type} {read : FieldReader α}
  {next : α → Program Outcome} {entry : RawText × Json} {entries : List (RawText × Json)}

/-- A plain object in the body is its value. -/
theorem Carries.bodyValue_eq (h : Carries s r (.object (entry :: entries)))
    (hplain : (Json.object (entry :: entries)).Plain) :
    bodyValue r = .ok (.object (entry :: entries)) := by
  have hmore : r.body.isEmpty = false := by
    rw [h.body_eq]
    rfl
  rw [bodyValue, hmore, if_neg Bool.false_ne_true, if_pos h.saysJson, h.body_eq, Body.bytes,
    Json.ofBytes_compact hplain h.sendable]

/-- It gets to the reader. -/
theorem withBody_object (h : Carries s r (.object (entry :: entries)))
    (hplain : (Json.object (entry :: entries)).Plain) :
    withBody s r read next = orAnswer (ofBody read (.object (entry :: entries))) next := by
  rw [withBody, h.bodyValue_eq hplain]
  simp only [withStore, h.hasStore, if_true]

/-- What is read is handled. -/
theorem respond_valid (h : Carries s r (.object (entry :: entries)))
    (hplain : (Json.object (entry :: entries)).Plain)
    (hresource : atResource s r .comments = withBody s r read next) {a : α}
    (hread : read (.object (entry :: entries)) = .valid a) {site after : Site σ}
    {outcome : Outcome} (hnext : (next a).run site = (outcome, after)) :
    (respond s r).run site = (sent s r outcome, after) := by
  refine respond_addressed h.addressed ?_
  have hinput : ofBody read (.object (entry :: entries)) = .ok a := by
    simp only [ofBody, FieldReader.record, hread]
  rw [hresource, withBody_object h hplain, hinput, orAnswer, hnext]

/-- What is wrong with a body is said. -/
theorem respond_invalid (h : Carries s r (.object (entry :: entries)))
    (hplain : (Json.object (entry :: entries)).Plain)
    (hresource : atResource s r .comments = withBody s r read next) {errors : List FieldError}
    (hread : read (.object (entry :: entries)) = .invalid errors) (site : Site σ) :
    (respond s r).run site =
      (sent s r (some (unprocessable (errors.map (entryOf "body")))), site) := by
  refine respond_addressed h.addressed ?_
  have hinput : ofBody read (.object (entry :: entries)) =
      .error (unprocessable (errors.map (entryOf "body"))) := by
    simp only [ofBody, FieldReader.record, hread]
  rw [hresource, withBody_object h hplain, hinput, orAnswer, Program.run_pure]

end Body

/-- A request for the threads of a post, in a query as forms write it. -/
structure AsksFor (s : Service) (r : Request) (post : String) : Prop where
  addressed : Addressed s r
  hasStore : s.hasStore = true
  method_eq : r.method = "GET"
  query_eq : r.target.query =
    some (formEncode "post_id".toList ++ '=' :: formEncode post.toList)

section Query

variable {s : Service} {r : Request} {post : String}

/-- What is wrong with a query for no post. -/
def emptyPost : FieldError := ⟨.tooShort 1, [.key "post_id"], .text ""⟩

theorem queryPost_eq (h : AsksFor s r post) :
    queryPost r.target =
      if post = "" then .error (unprocessable [entryOf "query" emptyPost])
      else .ok post := by
  have hfield : queryField? "post_id" r.target = some post := by
    simp [queryField?, h.query_eq, formFields_formEncode]
  rw [queryPost, hfield]
  simp only [FieldReader.nonEmptyText_under]
  by_cases hpost : post = ""
  · simp only [hpost, if_true]
    rfl
  · simp only [hpost, if_false]

theorem respond_query (h : AsksFor s r post) {site after : Site σ} {outcome : Outcome}
    (hanswer : (orAnswer (queryPost r.target) fun post => some <$> showThreads post).run site =
      (outcome, after)) :
    (respond s r).run site = (sent s r outcome, after) := by
  refine respond_addressed h.addressed ?_
  have hresource : atResource s r .comments =
      withStore s (orAnswer (queryPost r.target) fun post => some <$> showThreads post) := by
    simp only [atResource, h.method_eq]
  rw [hresource, withStore, if_pos h.hasStore, hanswer]

theorem respond_threads (h : AsksFor s r post) (hpost : post ≠ "") {site after : Site σ}
    {response : Response} (hshow : (showThreads post).run site = (response, after)) :
    (respond s r).run site = (sent s r (some response), after) :=
  respond_query h (by rw [queryPost_eq h, if_neg hpost, orAnswer, run_map, hshow])

theorem respond_emptyPost (h : AsksFor s r "") (site : Site σ) :
    (respond s r).run site =
      ((unprocessable [entryOf "query" emptyPost]).withHeaders
        (originHeaders s.settings r), site) := by
  rw [← sent_of_isSendable h.addressed rfl]
  exact respond_query h (by rw [queryPost_eq h, if_pos rfl, orAnswer, Program.run_pure])

end Query

end CommentThreads.Server
