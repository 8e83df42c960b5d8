/-
CommentThreads.Proofs.Client.Endings — how the exchanges of a client end at any
service with a store, whether or not it goes by the client's host, and whatever its
clock and salt are.

An exchange that is sent ends with what was asked for or is refused (`Ends`), and
nothing else. The look-up of a comment sends the hash as part of an address, so it
may be answered by another route; the only answer that is taken for a comment is a
comment that is kept (`ends_comment`). The three changes end well only if the
operation on the ledger does, and then leave what it leaves.
-/
import CommentThreads.Proofs.Client.Agreement

namespace CommentThreads.Client

open CommentThreads.Http CommentThreads.Server CommentThreads.Store CommentThreads.Text

variable {σ α β : Type}

/-! ## Two ends -/

/-- An exchange ends with something good, or is refused. -/
def Ends (reply : Query → σ → Reply × σ) (e : Exchange α) (good : α → σ → Prop) (s : σ) : Prop :=
  (∃ a after, e.outcome reply s = (.ok a, after) ∧ good a after) ∨
    ∃ detail status after, e.outcome reply s = (.error (.refused detail status), after)

theorem Ends.imp {reply : Query → σ → Reply × σ} {e : Exchange α} {good good' : α → σ → Prop}
    {s : σ}
    (h : Ends reply e good s) (himp : ∀ a after, good a after → good' a after) :
    Ends reply e good' s := by
  refine h.imp_left ?_
  rintro ⟨a, after, hended, hgood⟩
  exact ⟨a, after, hended, himp a after hgood⟩

/-- An answer in which no reader finds anything. -/
def Fruitless (response : Response) : Prop :=
  Refuses response ∨
    isError response.status = false ∧ ∀ v, Json.ofBytes response.body.bytes ≠ .ok v

section Endings

variable {reply : Query → σ → Reply × σ} {query : Query} {read : FieldReader α}
  {response : Response} {s after : σ} {good : α → σ → Prop}
  (hwritable : query.isWritable = true)

include hwritable

theorem ends_of_holds (h : reply query s = (.ofResponse response, after)) {a : α}
    (hholds : Holds read response a) (hgood : good a after) :
    Ends reply (send query >>= receive read) good s :=
  .inl ⟨a, after, outcome_holds hwritable h hholds, hgood⟩

theorem ends_of_unread (h : reply query s = (.ofResponse response, after))
    (hgood : isError response.status = false) (hnone : ∀ a, ¬Holds read response a) :
    Ends reply (send query >>= receive read) good s := by
  obtain ⟨detail, status, hended⟩ := outcome_unread hwritable h hgood hnone
  exact .inr ⟨detail, status, after, hended⟩

theorem ends_of_fruitless (h : reply query s = (.ofResponse response, after))
    (hfruitless : Fruitless response) : Ends reply (send query >>= receive read) good s := by
  rcases hfruitless with hrefuses | ⟨hgood, hnone⟩
  · obtain ⟨detail, hended⟩ := outcome_refuses hwritable h hrefuses
    exact .inr ⟨detail, _, after, hended⟩
  · refine ends_of_unread hwritable h hgood ?_
    rintro a ⟨-, v, hbytes, -⟩
    exact hnone v hbytes

end Endings

/-! ## Answers without fruit -/

/-- An error whose answer is no JSON is refused with a text for its status. -/
theorem refuses_unreadable {response : Response} (hbad : isError response.status = true)
    (hnone : (Json.ofBytes response.body.bytes).toOption.isSome = false) : Refuses response := by
  refine ⟨hbad, ?_⟩
  cases hbytes : Json.ofBytes response.body.bytes with
  | ok v =>
    rw [hbytes] at hnone
    cases hnone
  | error fault =>
    rw [errorDetail, hbytes]
    exact ⟨_, rfl⟩

theorem fruitless_redirect (address : String) : Fruitless (redirect address) := by
  refine .inr ⟨rfl, fun v hv => ?_⟩
  have hempty : (Json.ofBytes (Body.text "").bytes).toOption.isSome = false := by decide +kernel
  have hbytes : Json.ofBytes (Body.text "").bytes = .ok v := hv
  rw [hbytes] at hempty
  cases hempty

theorem fruitless_detail {status : Nat} (hstatus : isError status = true) {message : RawText}
    (hmessage : message.isPlain = true) : Fruitless (.detail status message) :=
  .inl (refuses_detail hstatus hmessage)

theorem fruitless_failure : Fruitless failure :=
  .inl (refuses_unreadable rfl (by decide +kernel))

theorem fruitless_badHost : Fruitless (.plain 400 "Invalid host header") :=
  .inl (refuses_unreadable rfl (by decide +kernel))

/-! ## Hosts -/

/-- Whether a host is served depends on its name alone. -/
theorem judgeHost_eq {settings : Settings} {r r' : Request} (h : hostHeader r = hostHeader r') :
    judgeHost settings r = judgeHost settings r' := by
  unfold judgeHost
  rw [h]

theorem goesBy_of_served {settings : Settings} {host : String} {q : Query}
    (h : judgeHost settings (q.toRequest host) = .served) : GoesBy settings host := by
  intro r hr
  rw [judgeHost_eq (hr.trans (hostHeader_toRequest q host).symm)]
  exact h

/-- The method of a request that is no preflight and asks for more than a head. -/
structure Ordinary (method : String) : Prop where
  not_options : method ≠ "OPTIONS"
  not_head : method ≠ "HEAD"

theorem ordinary_of_served {method : String} (h : method ∈ ["GET", "POST", "PUT", "DELETE"]) :
    Ordinary method where
  not_options := by
    rintro rfl
    exact absurd h (by decide)
  not_head := by
    rintro rfl
    exact absurd h (by decide)

section Responses

variable [KeyValue σ] {s : Service} {host : String} {q : Query}

/-- What comes back of an answer: a failure in its place, if it cannot be sent. -/
def delivered : Outcome → Response
  | some a => if a.body.isSendable then a else failure
  | none => failure

theorem delivered_of_isSendable {a : Response} (h : a.body.isSendable = true) :
    delivered (some a) = a := if_pos h

theorem delivered_of_not_isSendable {a : Response} (h : a.body.isSendable = false) :
    delivered (some a) = failure := if_neg (h ▸ Bool.false_ne_true)

theorem fruitless_delivered {a : Response} (h : Fruitless a) : Fruitless (delivered (some a)) := by
  rw [delivered]
  split
  · exact h
  · exact fruitless_failure

/-- What the routes answer is delivered, up to headers. -/
theorem replyOf_atHost (hq : Ordinary q.method) {site after : Site σ} {a : Outcome}
    (h : (atHost s (q.toRequest host)).run site = (a, after)) :
    replyOf s host q site = (.ofResponse (delivered a), after) := by
  have hpreflight : isPreflight (q.toRequest host) = false := by
    simp [isPreflight, Query.toRequest, hq.not_options]
  have hmethod : (q.toRequest host).method ≠ "HEAD" := hq.not_head
  have hrun : (respond s (q.toRequest host)).run site =
      (Server.sent s (q.toRequest host) a, after) := by
    rw [respond, hpreflight, if_neg Bool.false_ne_true, Program.run_bind, h, Program.run_pure]
  cases a with
  | none => exact replyOf_failure hrun
  | some response =>
    cases hbody : response.body.isSendable with
    | true =>
      rw [Server.sent, if_pos hbody, headOnly, if_neg hmethod] at hrun
      rw [delivered_of_isSendable hbody]
      exact replyOf_eq hrun
    | false =>
      rw [sent_of_not_isSendable hbody] at hrun
      rw [delivered_of_not_isSendable hbody]
      exact replyOf_failure hrun

/-- A service that does not go by a host answers nothing of use there, and does
nothing. -/
theorem unserved_fruitless (q : Query) (hq : Ordinary q.method) (hhost : ¬GoesBy s.settings host)
    (site : Site σ) :
    ∃ response, replyOf s host q site = (.ofResponse response, site) ∧ Fruitless response := by
  have hrun : ∃ response, (atHost s (q.toRequest host)).run site = (some response, site) ∧
      Fruitless response := by
    unfold atHost
    split
    · next hserved => exact absurd (goesBy_of_served hserved) hhost
    · exact ⟨_, rfl, fruitless_redirect _⟩
    · exact ⟨_, rfl, fruitless_badHost⟩
  obtain ⟨response, hrun, hfruitless⟩ := hrun
  exact ⟨_, replyOf_atHost hq hrun, fruitless_delivered hfruitless⟩

end Responses

/-! ## Questions -/

section Questions

variable [KeyValue σ] [Viewed σ] [TakesAll σ] {s : Service} {host : String} {site : Site σ}
  {t : Site Ledger}

/-- What comes of a query that names no post. -/
theorem queryPost_cases (target : Target) :
    (∃ post, queryPost target = .ok post) ∨
      ∃ response, queryPost target = .error response ∧ Fruitless response := by
  have hmissing : (entryOf "query" ⟨.missing, [.key "post_id"], .null⟩).Plain := by
    refine ⟨⟨trivial, ⟨trivial, trivial, trivial⟩, trivial, trivial, trivial⟩, ?_⟩
    simp [complaintContext]
  unfold queryPost
  cases queryField? "post_id" target with
  | none =>
    exact .inr ⟨_, rfl, .inl (refuses_entries (List.forall_mem_singleton.mpr hmissing)
      (List.forall_mem_singleton.mpr rfl))⟩
  | some post =>
    simp only [FieldReader.nonEmptyText_under]
    by_cases hpost : post = ""
    · rw [if_pos hpost]
      exact .inr ⟨_, rfl, .inl (refuses_unprocessable
        (List.forall_mem_singleton.mpr (.empty "post_id" post)) "query")⟩
    · rw [if_neg hpost]
      exact .inl ⟨post, rfl⟩

theorem asked_resource (hstore : s.hasStore = true) (ht : KeepsAt site t) (target : Target)
    (host : String) (resource : Resource) :
    ∃ response,
      (atResource s (Query.toRequest ⟨"GET", target, none⟩ host) resource).run site =
        (some response, site) ∧
      (Fruitless response ∨ (∃ ts, response = .json 200 (Listing.toJson ts)) ∨
        ∃ c ∈ t.store.comments, response = .json 200 c.detail.toJson) := by
  cases resource with
  | comments =>
    have hresource : atResource s (Query.toRequest ⟨"GET", target, none⟩ host) .comments =
        orAnswer (queryPost target) fun post => some <$> showThreads post := by
      simp only [atResource, Query.toRequest, withStore, hstore, if_true]
    rw [hresource]
    rcases queryPost_cases target with ⟨post, hpost⟩ | ⟨response, hnone, hfruitless⟩
    · rw [hpost, orAnswer, run_map, showThreads, run_answer (outcome_threads ht.store post)]
      exact ⟨_, rfl, .inr (.inl ⟨_, rfl⟩)⟩
    · rw [hnone]
      exact ⟨response, rfl, .inl hfruitless⟩
  | comment hash =>
    have hresource : atResource s (Query.toRequest ⟨"GET", target, none⟩ host) (.comment hash) =
        some <$> showComment hash := by
      simp only [atResource, Query.toRequest, withStore, hstore, if_true]
    rw [hresource, run_map, showComment, run_answer (outcome_find ht.store hash)]
    cases hc : Ledger.withHash? hash t.store.comments with
    | some c => exact ⟨_, rfl, .inr (.inr ⟨c, Ledger.mem_of_withHash? hc, rfl⟩)⟩
    | none => exact ⟨_, rfl, .inl (fruitless_detail rfl rfl)⟩

/-- Wherever a question is sent, it is answered with threads or with a comment that is
kept, if they can be sent, or with nothing of use; and nothing is done. -/
theorem asked (host : String) (hstore : s.hasStore = true) (ht : KeepsAt site t) (target : Target) :
    ∃ response, replyOf s host ⟨"GET", target, none⟩ site = (.ofResponse response, site) ∧
      (Fruitless response ∨ response.body.isSendable = true ∧
        ((∃ ts, response = .json 200 (Listing.toJson ts)) ∨
          ∃ c ∈ t.store.comments, response = .json 200 c.detail.toJson)) := by
  let q : Query := ⟨"GET", target, none⟩
  have hq : Ordinary q.method := ordinary_of_served (by simp [q])
  by_cases hhost : GoesBy s.settings host
  · have hrun : ∃ response,
        (atRoute s (Query.toRequest ⟨"GET", target, none⟩ host)).run site = (some response, site) ∧
        (Fruitless response ∨ (∃ ts, response = .json 200 (Listing.toJson ts)) ∨
          ∃ c ∈ t.store.comments, response = .json 200 c.detail.toJson) := by
      unfold atRoute
      split
      · next resource _ => exact asked_resource hstore ht target host resource
      · exact ⟨_, rfl, .inl (fruitless_redirect _)⟩
      · exact ⟨_, rfl, .inl (fruitless_detail rfl rfl)⟩
    obtain ⟨response, hrun, hanswer⟩ := hrun
    have hreply : replyOf s host q site = (.ofResponse (delivered (some response)), site) := by
      refine replyOf_atHost hq ?_
      rw [atHost, hhost _ (hostHeader_toRequest _ host)]
      exact hrun
    refine ⟨_, hreply, ?_⟩
    rcases hanswer with hfruitless | hheld
    · exact .inl (fruitless_delivered hfruitless)
    · cases hbody : response.body.isSendable with
      | true =>
        rw [delivered_of_isSendable hbody]
        exact .inr ⟨hbody, hheld⟩
      | false =>
        rw [delivered_of_not_isSendable hbody]
        exact .inl fruitless_failure
  · obtain ⟨response, hreply, hfruitless⟩ := unserved_fruitless q hq hhost site
    exact ⟨response, hreply, .inl hfruitless⟩

theorem comment_of_target {hash : String} {target : Target}
    (htarget : Target.ofReference? ("/comments/".toList ++ hash.toList) = some target) :
    comment hash = send ⟨"GET", target, none⟩ >>= receive Detail.reader := by
  rw [comment, htarget]
  rfl

theorem ends_comment (hstore : s.hasStore = true) (ht : KeepsAt site t) (target : Target) :
    Ends (replyOf s host) (send ⟨"GET", target, none⟩ >>= receive Detail.reader)
      (fun d after => after = site ∧ ∃ c ∈ t.store.comments, d = c.detail) site := by
  obtain ⟨response, hreply, hanswer⟩ := asked host hstore ht target
  rcases hanswer with hfruitless | ⟨hbody, ⟨ts, rfl⟩ | ⟨c, hc, rfl⟩⟩
  · exact ends_of_fruitless rfl hreply hfruitless
  · refine ends_of_unread rfl hreply rfl ?_
    rintro d ⟨-, v, hbytes, hread⟩
    have hlisting : Json.ofBytes (Response.json 200 (Listing.toJson ts)).body.bytes =
        .ok (Listing.toJson ts) := Json.ofBytes_compact (Listing.plain_toJson ts) hbody
    rw [hlisting] at hbytes
    cases hbytes
    exact Detail.reader_listing ts d hread
  · have hdated := ht.store.dated c hc
    have hread : Detail.reader c.detail.toJson = .valid c.detail :=
      Detail.reader_toJson hdated.created hdated.updated
    exact ends_of_holds rfl hreply (holds_json rfl (Detail.plain_toJson _) hbody hread)
      ⟨rfl, c, hc, rfl⟩

theorem ends_threads (hstore : s.hasStore = true) (ht : KeepsAt site t) {post : String}
    {target : Target} (htarget : Target.ofField? "/comments" "post_id" post = some target) :
    Ends (replyOf s host) (send ⟨"GET", target, none⟩ >>= receive Listing.reader)
      (fun ts after => after = site ∧ ts = threadsOn post t.store) site := by
  by_cases hhost : GoesBy s.settings host
  · rw [← threads_of_target htarget]
    by_cases hpost : post = ""
    · subst hpost
      exact .inr ⟨_, _, site, threads_unnamed hhost hstore⟩
    · cases hbody : (Listing.toJson (threadsOn post t.store)).isSendable with
      | true =>
        exact .inl ⟨_, site, threads_given hhost hstore ht.store hpost htarget hbody, rfl, rfl⟩
      | false => exact .inr ⟨_, _, site, threads_torn hhost hstore ht.store hpost htarget hbody⟩
  · obtain ⟨response, hreply, hfruitless⟩ :=
      unserved_fruitless ⟨"GET", target, none⟩ (ordinary_of_served (by simp)) hhost site
    exact ends_of_fruitless rfl hreply hfruitless

end Questions

/-! ## Changes -/

section Changes

variable [KeyValue σ] {s : Service} {host : String} {site : Site σ}

/-- A handler answers with something good that can be sent, or with nothing of use. -/
def Handled (read : FieldReader α) (good : α → Site σ → Prop) (p : Program Outcome)
    (site : Site σ) : Prop :=
  ∃ response after, p.run site = (some response, after) ∧
    (Fruitless response ∨
      response.body.isSendable = true ∧ ∃ a, Holds read response a ∧ good a after)

/-- A request with a body ends as its handler does, if it gets there. -/
theorem ends_sending {γ : Type} {q : Query} {readBody : FieldReader γ}
    {next : γ → Program Outcome} {entry : RawText × Json} {entries : List (RawText × Json)}
    {read : FieldReader α} {good : α → Site σ → Prop} (hq : Ordinary q.method)
    (hwritable : q.isWritable = true)
    (hsends : GoesBy s.settings host → Sends s host q readBody next entry entries)
    (hread : GoesBy s.settings host →
      (∃ errors, (∀ e ∈ errors, RefusedText e) ∧
        readBody (.object (entry :: entries)) = .invalid errors) ∨
      ∃ c, readBody (.object (entry :: entries)) = .valid c ∧
        Handled read good (next c) site) :
    Ends (replyOf s host) (send q >>= receive read) good site := by
  by_cases hhost : GoesBy s.settings host
  · have h := hsends hhost
    rcases hread hhost with ⟨errors, hrefused, hinvalid⟩ | ⟨c, hvalid, response, after, hrun, hheld⟩
    · exact ends_of_fruitless hwritable (replyOf_refused h hinvalid hrefused)
        (.inl (refuses_unprocessable hrefused "body"))
    · have hrespond := respond_valid h.carries h.plain h.resource hvalid hrun
      rcases hheld with hfruitless | ⟨hbody, a, hholds, hgood⟩
      · cases hbody : response.body.isSendable with
        | true =>
          exact ends_of_fruitless hwritable (replyOf_handled h hvalid hrun hbody) hfruitless
        | false =>
          rw [sent_of_not_isSendable hbody] at hrespond
          exact ends_of_fruitless hwritable (replyOf_failure hrespond) fruitless_failure
      · exact ends_of_holds hwritable (replyOf_handled h hvalid hrun hbody) hholds hgood
  · obtain ⟨response, hreply, hfruitless⟩ := unserved_fruitless q hq hhost site
    exact ends_of_fruitless hwritable hreply hfruitless

/-- An operation that a handler answers. -/
theorem handled_answer (site : Site σ) (view : β → α) {operation : Action β} {good : β → Response}
    {bad : Store.Fault → Response} {read : FieldReader α}
    {known : α → Site σ → Prop}
    (hgood : ∀ b after, operation.outcome site = (.ok b, after) →
      (good b).body.isSendable = true ∧ Holds read (good b) (view b))
    (hbad : ∀ fault, Fruitless (bad fault))
    (hknown : ∀ b after, operation.outcome site = (.ok b, after) → known (view b) after) :
    Handled read known (some <$> answer operation good bad) site := by
  cases hended : operation.outcome site with
  | mk r after =>
    refine ⟨answerOf good bad r, after, by rw [run_map, run_answer hended], ?_⟩
    cases r with
    | ok b =>
      obtain ⟨hbody, hholds⟩ := hgood b after hended
      exact .inr ⟨hbody, view b, hholds, hknown b after hended⟩
    | error fault => exact .inl (hbad fault)

/-- A message within the limit is handled, and another one is refused. -/
theorem handled_withinLimit {read : FieldReader α} {good : α → Site σ → Prop} {message : String}
    {next : Program Response} (h : Handled read good (some <$> next) site) :
    Handled read good (withinLimit s.settings message next) site := by
  rw [withinLimit_plain]
  split
  · exact h
  · exact ⟨_, site, rfl, .inl (fruitless_detail rfl rfl)⟩

variable [Viewed σ] [TakesAll σ] {t : Site Ledger}

/-- A comment is made only if the ledger has it made, with that hash. -/
theorem ends_create (hstore : s.hasStore = true) (ht : KeepsAt site t) (post message : String)
    (author password parent : Option String) :
    Ends (replyOf s host)
      (create post (.ofText? (author.map .plain)) (.ofText? (password.map .plain)) message parent)
      (fun receipt after =>
        GoesBy s.settings host ∧ post ≠ "" ∧ isBlankText message = false ∧
          ∃ c, (Ledger.create s.config post message (author.map .plain) (password.map .plain)
              (parent.map .plain) t).1 = .ok c ∧
            receipt.hash = c.hash ∧
            KeepsAt after (Ledger.create s.config post message (author.map .plain)
              (password.map .plain) (parent.map .plain) t).2)
      site := by
  let asked : NewComment :=
    ⟨post, author.map .plain, password.map .plain, message, parent.map .plain⟩
  have hsendable : asked.toJson.isSendable = true :=
    NewComment.isSendable_toJson post message author password parent
  have hsends (hhost : GoesBy s.settings host) :
      Sends s host ⟨"POST", commentsTarget, some asked.toJson⟩ NewComment.reader
        (postComment s) _ _ :=
    ⟨rfl, carries_toRequest hhost hstore rfl (by simp) rfl hsendable, asked.plain_toJson, rfl⟩
  refine ends_sending (ordinary_of_served (by simp)) hsendable hsends fun hhost => ?_
  rcases NewComment.reader_cases hsendable with ⟨hpost, hmessage, hread⟩ | ⟨-, hinvalid⟩
  · have hnamed : post ≠ "" := fun hempty => hpost (congrArg RawText.plain hempty)
    refine .inr ⟨asked, hread, handled_withinLimit (handled_answer site receipt
      (fun c after hended => ?_) (fun fault => ?_) fun c after hended => ?_)⟩
    · have hsent := isSendable_created hended
      exact ⟨hsent, holds_json rfl (receipt c).plain_toJson hsent (receipt c).reader_toJson⟩
    · split
      · exact fruitless_detail rfl (by cases parent <;> rfl)
      · exact fruitless_detail rfl rfl
    · obtain ⟨hresult, hkept⟩ := create_refines s.config post message (author.map .plain)
        (password.map .plain) (parent.map .plain) site t ht
      rw [hended] at hresult hkept
      exact ⟨hhost, hnamed, hmessage, c, hresult.symm, rfl, hkept⟩
  · exact .inl hinvalid

omit [KeyValue σ] [Viewed σ] [TakesAll σ] in
theorem fruitless_unchanged (done doing : String) (fault : Store.Fault) :
    Fruitless (unchanged done doing fault) := by
  unfold unchanged
  split
  · exact fruitless_detail rfl rfl
  · exact fruitless_detail rfl rfl
  · exact fruitless_detail rfl rfl
  · exact fruitless_detail rfl rfl

/-- A comment is edited only if the ledger has it edited. -/
theorem ends_update (hstore : s.hasStore = true) (ht : KeepsAt site t)
    (hash password message : String) :
    Ends (replyOf s host) (update (.text hash) (.text password) message)
      (fun _ after => isBlankText message = false ∧
        KeepsAt after (Ledger.update hash password message t).2) site := by
  let asked : Edit := ⟨hash, password, message⟩
  have hsendable : asked.toJson.isSendable = true := asked.isSendable_toJson rfl rfl rfl
  have hsends (hhost : GoesBy s.settings host) :
      Sends s host ⟨"PUT", commentsTarget, some asked.toJson⟩ Edit.reader (putComment s) _ _ :=
    ⟨rfl, carries_toRequest hhost hstore rfl (by simp) rfl hsendable, asked.plain_toJson, rfl⟩
  refine ends_sending (ordinary_of_served (by simp)) hsendable hsends fun hhost => ?_
  rcases Edit.reader_cases hsendable with ⟨hmessage, hread⟩ | ⟨-, hinvalid⟩
  · refine .inr ⟨asked, hread, handled_withinLimit (handled_answer site _ (fun c after _ =>
      ⟨rfl, holds_json rfl (Notice.plain_toJson _) rfl (Notice.reader_toJson _)⟩)
      (fruitless_unchanged _ _) fun c after hended => ?_)⟩
    have hkept := (update_refines hash password message site t ht).2
    rw [hended] at hkept
    exact ⟨hmessage, hkept⟩
  · exact .inl hinvalid

/-- A comment is removed only if the ledger has it removed. -/
theorem ends_delete (hstore : s.hasStore = true) (ht : KeepsAt site t) (hash password : String) :
    Ends (replyOf s host) (delete (.text hash) (.text password))
      (fun _ after => ∃ c, (Ledger.delete hash password t).1 = .ok c ∧
        KeepsAt after (Ledger.delete hash password t).2) site := by
  refine ends_sending (ordinary_of_served (by simp)) rfl
    (fun hhost => sends_removal hhost hstore hash password) fun hhost =>
      .inr ⟨⟨hash, password⟩, Removal.reader_toJson ⟨hash, password⟩, ?_⟩
  refine handled_answer site _ (fun c after _ =>
    ⟨rfl, holds_json rfl (Notice.plain_toJson _) rfl (Notice.reader_toJson _)⟩)
    (fruitless_unchanged _ _) fun c after hended => ?_
  obtain ⟨hresult, hkept⟩ := delete_refines hash password site t ht
  rw [hended] at hresult hkept
  exact ⟨c, hresult.symm, hkept⟩

end Changes

end CommentThreads.Client
