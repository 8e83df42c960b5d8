/-
CommentThreads.Proofs.Client.Agreement — a client that asks a service agrees with
the operations on the service's store.

`Agrees` says it for the threads of a post and for the three changes: the
exchange succeeds exactly when the operation does, with what the operation gives,
and leaves the store that the operation leaves. Otherwise it is refused with a
status: 422 for an empty post or a blank message, else 413 for a message that is
too large, else the status that stands for the fault of the operation
(`statusOf`); and the store is as it was. Threads of which an author has a lone half of a
surrogate pair are refused with 500, since the service cannot write its answer.

`agrees_of_serve` — so it is whatever requests the service has answered before,
if the clock shows moments of the calendar and passwords can be hashed under the
salt that is drawn.
-/
import CommentThreads.Proofs.Client.Exchange
import CommentThreads.Proofs.Server.Failure
import CommentThreads.Proofs.Store.Arrangement

namespace CommentThreads.Client

open CommentThreads.Http CommentThreads.Server CommentThreads.Store CommentThreads.Text

variable {σ α β : Type} [KeyValue σ]

/-! ## A client of a service -/

/-- What comes back from a service that is reached by a host name. -/
def replyOf (s : Service) (host : String) (q : Query) (site : Site σ) : Reply × Site σ :=
  let (response, after) := (respond s (q.toRequest host)).run site
  (.ofResponse response, after)

/-- Headers are nothing that the client looks at. -/
theorem replyOf_eq {s : Service} {host : String} {q : Query} {site after : Site σ}
    {response : Response} {headers : Headers}
    (h : (respond s (q.toRequest host)).run site = (response.withHeaders headers, after)) :
    replyOf s host q site = (.ofResponse response, after) := by
  rw [replyOf, h]
  rfl

/-- Where the application failed, that is all that comes back. -/
theorem replyOf_failure {s : Service} {host : String} {q : Query} {site after : Site σ}
    (h : (respond s (q.toRequest host)).run site = (failure, after)) :
    replyOf s host q site = (.ofResponse failure, after) := by
  rw [replyOf, h]

/-- Settings under which every request for a host is served. -/
def GoesBy (settings : Settings) (host : String) : Prop :=
  ∀ r, hostHeader r = host → judgeHost settings r = .served

theorem goesBy_standard (host : String) : GoesBy Settings.standard host := by
  intro r _
  simp [judgeHost, Settings.standard]

section Sending

variable {s : Service} {host : String} {q : Query}

theorem hostHeader_toRequest (q : Query) (host : String) :
    hostHeader (q.toRequest host) = host := by
  cases hjson : q.json with
  | none => simp [hostHeader, Query.toRequest, Headers.find?, hjson]
  | some v => simp [hostHeader, Query.toRequest, Headers.find?, hjson, List.lookup_cons]

theorem addressed_toRequest (hhost : GoesBy s.settings host)
    (hpath : q.target.path = "/comments".toList)
    (hmethod : q.method ∈ ["GET", "POST", "PUT", "DELETE"]) : Addressed s (q.toRequest host) where
  not_preflight := by
    have hne : q.method ≠ "OPTIONS" := fun h => absurd (h ▸ hmethod) (by decide)
    simp [isPreflight, Query.toRequest, hne]
  served := hhost _ (hostHeader_toRequest q host)
  route := by
    have hdecoded : decodedPath q.target = "/comments".toList := by
      rw [decodedPath, hpath]
      decide +kernel
    change Route.ofPath (decodedPath q.target) = _
    rw [hdecoded]
    decide +kernel
  not_head h := by
    have hhead : q.method = "HEAD" := h
    exact absurd (hhead ▸ hmethod) (by decide)

theorem carries_toRequest (hhost : GoesBy s.settings host) (hstore : s.hasStore = true)
    (hpath : q.target.path = "/comments".toList)
    (hmethod : q.method ∈ ["GET", "POST", "PUT", "DELETE"]) {v : Json} (hjson : q.json = some v)
    (hsendable : v.isSendable = true) : Carries s (q.toRequest host) v where
  addressed := addressed_toRequest hhost hpath hmethod
  hasStore := hstore
  sendable := hsendable
  saysJson := by
    have htype : isJsonType "application/json" = true := by decide +kernel
    simp [saysJson, Query.toRequest, Headers.find?, hjson, htype]
  body_eq := by simp [Query.toRequest, hjson]

/-- A post that fits into an address gets there as it is. -/
theorem asksFor_toRequest (hhost : GoesBy s.settings host) (hstore : s.hasStore = true)
    {post : String} {target : Target}
    (htarget : Target.ofField? "/comments" "post_id" post = some target) :
    AsksFor s (Query.toRequest ⟨"GET", target, none⟩ host) post := by
  have hparts : target = ⟨"/comments".toList,
      some (formEncode "post_id".toList ++ '=' :: formEncode post.toList)⟩ := by
    rw [Target.ofField?] at htarget
    split at htarget
    · cases htarget
    · exact (Option.some.inj htarget).symm
  subst hparts
  exact ⟨addressed_toRequest hhost rfl (by simp), hstore, rfl, rfl⟩

end Sending

/-! ## What an exchange tells -/

/-- The status that comes with a fault. -/
def Fault.status? : Fault → Option Nat
  | .refused _ status => status
  | _ => none

/-- How an exchange ended, with nothing of a fault but its status. -/
def told (ended : Except Fault α × Site σ) : Except (Option Nat) α × Site σ :=
  (ended.1.mapError Fault.status?, ended.2)

omit [KeyValue σ] in
/-- What was given is all that is told of an exchange that ended well. -/
theorem outcome_of_told {ended : Except Fault α × Site σ} {a : α} {after : Site σ}
    (h : told ended = (.ok a, after)) : ended = (.ok a, after) := by
  obtain ⟨r, site⟩ := ended
  cases r with
  | ok x =>
    cases h
    rfl
  | error fault => cases h

/-- The status that stands for a fault of an operation; the other faults come
from a clock, a salt or records that are not as they should be. -/
def statusOf : Store.Fault → Option Nat
  | .notFound _ => some 404
  | .locked _ => some 403
  | .wrongPassword _ => some 401
  | .noFreshHash => some 500
  | _ => none

/-- How an operation ends for a client: what it gives is viewed, a fault is its
status, and with a fault the store is as it was. -/
def overWire (site : Site σ) (view : β → α) (ended : Except Store.Fault β × Site σ) :
    Except (Option Nat) α × Site σ :=
  match ended with
  | (.ok b, after) => (.ok (view b), after)
  | (.error fault, after) => (.error (statusOf fault), ⟨site.store, after.supply⟩)

/-- What an operation gives is held by its answer, and a fault is refused with
its status and has changed nothing. All answers can be sent. -/
structure Answers (read : FieldReader α) (view : β → α) (operation : Action β)
    (good : β → Response) (bad : Store.Fault → Response) (site : Site σ) : Prop where
  good : ∀ b after, operation.outcome site = (.ok b, after) →
    Holds read (good b) (view b) ∧ (good b).body.isSendable = true
  bad : ∀ fault after, operation.outcome site = (.error fault, after) →
    (Refuses (bad fault) ∧ (bad fault).body.isSendable = true) ∧
      statusOf fault = some (bad fault).status ∧ after.store = site.store

section Told

variable {s : Service} {host : String} {q : Query} {read : FieldReader α} {site after : Site σ}
  {response : Response}

theorem told_refuses (hwritable : q.isWritable = true)
    (h : replyOf s host q site = (.ofResponse response, after)) (hrefuses : Refuses response) :
    told (Exchange.outcome (replyOf s host) (send q >>= receive read) site) =
      (.error (some response.status), after) := by
  obtain ⟨detail, houtcome⟩ := outcome_refuses hwritable h hrefuses
  rw [houtcome]
  rfl

/-- An exchange that an operation answers tells how the operation ended. -/
theorem told_answer (hwritable : q.isWritable = true) {operation : Action β} {good : β → Response}
    {bad : Store.Fault → Response} {view : β → α}
    (hreply : ∀ {response after}, (answer operation good bad).run site = (response, after) →
      response.body.isSendable = true → replyOf s host q site = (.ofResponse response, after))
    (hanswers : Answers read view operation good bad site) :
    told (Exchange.outcome (replyOf s host) (send q >>= receive read) site) =
      overWire site view (operation.outcome site) := by
  cases hended : operation.outcome site with
  | mk r after =>
    have hanswer := hreply (run_answer hended)
    cases r with
    | ok b =>
      obtain ⟨hholds, hsent⟩ := hanswers.good b after hended
      rw [outcome_holds hwritable (hanswer hsent) hholds]
      rfl
    | error fault =>
      obtain ⟨⟨hrefuses, hsent⟩, hstatus, hstore⟩ := hanswers.bad fault after hended
      rw [told_refuses hwritable (hanswer hsent) hrefuses, overWire, hstatus, ← hstore, answerOf]

end Told

/-! ## Exchanges with a body -/

/-- A query with a body that gets to a handler. -/
structure Sends {γ : Type} (s : Service) (host : String) (q : Query) (readBody : FieldReader γ)
    (next : γ → Program Outcome) (entry : RawText × Json) (entries : List (RawText × Json)) :
    Prop where
  json_eq : q.json = some (.object (entry :: entries))
  carries : Carries s (q.toRequest host) (.object (entry :: entries))
  plain : (Json.object (entry :: entries)).Plain
  resource : atResource s (q.toRequest host) .comments =
    withBody s (q.toRequest host) readBody next

/-- Such a query can be written. -/
theorem Sends.isWritable {γ : Type} {s : Service} {host : String} {q : Query}
    {readBody : FieldReader γ} {next : γ → Program Outcome} {entry : RawText × Json}
    {entries : List (RawText × Json)} (h : Sends s host q readBody next entry entries) :
    q.isWritable = true := by
  rw [Query.isWritable, h.json_eq]
  exact h.carries.sendable

section Body

variable {γ : Type} {s : Service} {host : String} {q : Query} {readBody : FieldReader γ}
  {next : γ → Program Outcome} {entry : RawText × Json} {entries : List (RawText × Json)}
  {read : FieldReader α} {site : Site σ} {c : γ}

/-- What a handler answers comes back, if it can be sent. -/
theorem replyOf_handled (h : Sends s host q readBody next entry entries)
    (hread : readBody (.object (entry :: entries)) = .valid c) {response : Response}
    {after : Site σ} (hnext : (next c).run site = (some response, after))
    (hsent : response.body.isSendable = true) :
    replyOf s host q site = (.ofResponse response, after) :=
  replyOf_eq (sent_of_isSendable h.carries.addressed hsent ▸
    respond_valid h.carries h.plain h.resource hread hnext)

/-- What is wrong with a body comes back. -/
theorem replyOf_refused (h : Sends s host q readBody next entry entries) {errors : List FieldError}
    (hread : readBody (.object (entry :: entries)) = .invalid errors)
    (hrefused : ∀ e ∈ errors, RefusedText e) :
    replyOf s host q site =
      (.ofResponse (unprocessable (errors.map (entryOf "body"))), site) := by
  have hsent : (unprocessable (errors.map (entryOf "body"))).body.isSendable = true := by
    refine isSendable_unprocessable fun v hv => ?_
    obtain ⟨e, he, rfl⟩ := List.mem_map.mp hv
    exact (hrefused e he).isSendable_entryOf "body"
  have hrespond := respond_invalid h.carries h.plain h.resource hread site
  rw [sent_of_isSendable h.carries.addressed hsent] at hrespond
  exact replyOf_eq hrespond

theorem told_invalid (h : Sends s host q readBody next entry entries) {errors : List FieldError}
    (hread : readBody (.object (entry :: entries)) = .invalid errors)
    (hrefused : ∀ e ∈ errors, RefusedText e) :
    told (Exchange.outcome (replyOf s host) (send q >>= receive read) site) =
      (.error (some 422), site) :=
  told_refuses h.isWritable (replyOf_refused h hread hrefused)
    (refuses_unprocessable hrefused "body")

theorem told_handled (h : Sends s host q readBody next entry entries)
    (hread : readBody (.object (entry :: entries)) = .valid c) {operation : Action β}
    {good : β → Response} {bad : Store.Fault → Response} {view : β → α}
    (hnext : next c = some <$> answer operation good bad)
    (hanswers : Answers read view operation good bad site) :
    told (Exchange.outcome (replyOf s host) (send q >>= receive read) site) =
      overWire site view (operation.outcome site) :=
  told_answer h.isWritable
    (fun hanswer => replyOf_handled h hread (by rw [hnext, run_map, hanswer])) hanswers

theorem fits_iff (settings : Settings) (message : String) :
    fits settings message = true ↔ ¬settings.maxMessageBytes < (utf8 message).length := by
  rw [fits, decide_eq_true_iff, Int.not_lt]

/-- The size of a message is looked at before the operation begins. -/
theorem told_sized (h : Sends s host q readBody next entry entries)
    (hread : readBody (.object (entry :: entries)) = .valid c) {operation : Action β}
    {good : β → Response} {bad : Store.Fault → Response} {view : β → α} {message : String}
    (hnext : next c = withinLimit s.settings message (answer operation good bad))
    (hanswers : Answers read view operation good bad site) :
    told (Exchange.outcome (replyOf s host) (send q >>= receive read) site) =
      if s.settings.maxMessageBytes < (utf8 message).length then (.error (some 413), site)
      else overWire site view (operation.outcome site) := by
  rw [withinLimit_plain] at hnext
  split
  next hlarge =>
    rw [if_neg fun hfits => (fits_iff _ _).mp hfits hlarge] at hnext
    have hrun : (next c).run site = (some (tooLarge s.settings), site) := by
      rw [hnext, Program.run_pure]
    exact told_refuses h.isWritable (replyOf_handled h hread hrun rfl) (refuses_detail rfl rfl)
  next hsmall =>
    rw [if_pos ((fits_iff _ _).mpr hsmall)] at hnext
    exact told_handled h hread hnext hanswers

end Body

/-! ## Agreement -/

/-- The threads on a post as a ledger keeps them. -/
def threadsOn (post : String) (l : Ledger) : List Thread :=
  threadsOf (Ledger.ofPost post l.comments)

/-- All authors in some threads can be written. -/
def AuthorsPlain (ts : List Thread) : Prop :=
  ∀ c ∈ Thread.comments ts, c.author.isPlain = true

instance (ts : List Thread) : Decidable (AuthorsPlain ts) :=
  inferInstanceAs (Decidable (∀ c ∈ Thread.comments ts, c.author.isPlain = true))

/-- At a site the exchanges of a client agree with the operations they stand
for. A post whose threads are asked for has to fit into an address; reading them
always succeeds, and so does the exchange unless an author in them cannot be written. -/
structure Agrees (s : Service) (host : String) (site : Site σ) : Prop where
  threads_eq : ∀ post : String, post ≠ "" →
    (Target.ofField? "/comments" "post_id" post).isSome →
    ∃ ts, (Store.threads post).outcome site = (.ok ts, site) ∧
      told ((threads post).outcome (replyOf s host) site) =
        (if AuthorsPlain ts then .ok ts else .error (some 500), site)
  threads_empty : told ((threads "").outcome (replyOf s host) site) = (.error (some 422), site)
  create_eq : ∀ (post message : String) (author password parent : Option String),
    told ((create post (.ofText? (author.map .plain)) (.ofText? (password.map .plain)) message
        parent).outcome (replyOf s host) site) =
      if post = "" ∨ isBlankText message then (.error (some 422), site)
      else if s.settings.maxMessageBytes < (utf8 message).length then (.error (some 413), site)
      else overWire site
        (fun c => ⟨c.hash, c.author, "[comment " ++ c.hash ++ "] " ++ c.message⟩)
        ((Store.create s.config post message (author.map .plain) (password.map .plain)
          (parent.map .plain)).outcome site)
  update_eq : ∀ hash password message : String,
    told ((update (.text hash) (.text password) message).outcome (replyOf s host) site) =
      if isBlankText message then (.error (some 422), site)
      else if s.settings.maxMessageBytes < (utf8 message).length then (.error (some 413), site)
      else overWire site (fun _ => ⟨"[" ++ hash ++ "] Comment updated successfully"⟩)
        ((Store.update hash password message).outcome site)
  delete_eq : ∀ hash password : String,
    told ((delete (.text hash) (.text password)).outcome (replyOf s host) site) =
      overWire site (fun _ => ⟨"Comment " ++ hash ++ " deleted."⟩)
        ((Store.delete hash password).outcome site)

/-- A service that a client can reach and that has all it needs. Of the comments it keeps
only an author may have a lone half of a surrogate pair. -/
structure Ready [Viewed σ] (s : Service) (host : String) (site : Site σ) : Prop where
  goesBy : GoesBy s.settings host
  hasStore : s.hasStore = true
  salt : (Password.Salt.ofText? s.salt).isSome = true
  keeps : ∃ l, Keeps site.store l ∧ ∀ c ∈ l.comments, Lettered c
  clock : ∀ n, Time.inRange (site.supply.clock n) = true

section Ready

variable [Viewed σ] [TakesAll σ] {s : Service} {host : String} {site : Site σ}

omit [TakesAll σ] in
theorem Ready.equipped (h : Ready s host site) : Equipped s site :=
  ⟨h.hasStore, h.salt, h.keeps.imp fun _ hl => hl.1, h.clock⟩

theorem dated_threadsOf {comments : List Comment} (h : ∀ c ∈ comments, c.Dated) :
    ∀ t ∈ threadsOf comments, t.Dated := by
  intro t ht
  obtain ⟨root, hroot, rfl⟩ := List.mem_map.mp ht
  refine ⟨(h root (List.mem_filter.mp hroot).1).created, fun reply hreply => ?_⟩
  obtain ⟨c, hc, rfl⟩ := List.mem_map.mp hreply
  exact (h c (List.mem_filter.mp hc).1).created

theorem threads_of_target {post : String} {target : Target}
    (htarget : Target.ofField? "/comments" "post_id" post = some target) :
    threads post = send ⟨"GET", target, none⟩ >>= receive Listing.reader := by
  rw [threads, htarget]
  rfl

/-- Threads of comments that are lettered can be written exactly if their authors can. -/
theorem isSendable_threadsOn_iff {l : Ledger} (hletters : ∀ c ∈ l.comments, Lettered c)
    (post : String) :
    (Listing.toJson (threadsOn post l)).isSendable = true ↔ AuthorsPlain (threadsOn post l) := by
  rw [Listing.isSendable_toJson_iff]
  refine forall₂_congr fun s hs => ⟨fun h => h.2.1, fun hauthor => ?_⟩
  obtain ⟨c, hc, rfl, -⟩ := (mem_comments_threadsOf s).mp hs
  have hletter := hletters c (List.mem_filter.mp hc).1
  exact ⟨hletter.hash, hauthor, hletter.message⟩

/-- So can a comment by itself. -/
theorem isSendable_detail_iff {c : Comment} (h : Lettered c) :
    c.detail.toJson.isSendable = true ↔ c.author.isPlain = true := by
  rw [Detail.isSendable_toJson_iff]
  exact ⟨fun hsent => hsent.1.2.1, fun hauthor => ⟨⟨h.hash, hauthor, h.message⟩, h.post, h.parent⟩⟩

/-- The threads of a post are given as the store keeps them, if they can be written. -/
theorem threads_given (hhost : GoesBy s.settings host) (hstore : s.hasStore = true) {l : Ledger}
    (hl : Keeps site.store l) {post : String} (hpost : post ≠ "") {target : Target}
    (htarget : Target.ofField? "/comments" "post_id" post = some target)
    (hsendable : (Listing.toJson (threadsOn post l)).isSendable = true) :
    (threads post).outcome (replyOf s host) site = (.ok (threadsOn post l), site) := by
  have hasks := asksFor_toRequest hhost hstore htarget
  have hdated : ∀ c ∈ Ledger.ofPost post l.comments, c.Dated :=
    fun c hc => hl.dated c (List.mem_filter.mp hc).1
  have hbody : (Response.json 200 (Listing.toJson (threadsOn post l))).body.isSendable = true :=
    hsendable
  have hshown :
      (showThreads post).run site = (.json 200 (Listing.toJson (threadsOn post l)), site) :=
    run_answer (outcome_threads hl post)
  have hrespond := respond_threads hasks hpost hshown
  rw [sent_of_isSendable hasks.addressed hbody] at hrespond
  have hread := Listing.reader_toJson (dated_threadsOf hdated)
  rw [threads_of_target htarget]
  exact outcome_holds rfl (replyOf_eq hrespond)
    (holds_json rfl (Listing.plain_toJson _) hsendable hread)

/-- What a failure of the service says to a client. -/
theorem errorDetail_failure :
    errorDetail 500 failure.body.bytes = .ok (.text "Request failed with status 500") := by
  have hnone : (Json.ofBytes failure.body.bytes).isOk = false := by decide +kernel
  have hstatus : statusText 500 = "Request failed with status 500" := by decide +kernel
  rw [errorDetail]
  cases hbytes : Json.ofBytes failure.body.bytes with
  | ok v =>
    rw [hbytes] at hnone
    cases hnone
  | error e =>
    simp only [hstatus, Json.isGiven]
    rfl

/-- Threads that cannot be written are a failure of the service. -/
theorem threads_torn (hhost : GoesBy s.settings host) (hstore : s.hasStore = true) {l : Ledger}
    (hl : Keeps site.store l) {post : String} (hpost : post ≠ "") {target : Target}
    (htarget : Target.ofField? "/comments" "post_id" post = some target)
    (htorn : (Listing.toJson (threadsOn post l)).isSendable = false) :
    (threads post).outcome (replyOf s host) site =
      (.error (.refused (.text "Request failed with status 500") (some 500)), site) := by
  have hasks := asksFor_toRequest hhost hstore htarget
  have hbody : (Response.json 200 (Listing.toJson (threadsOn post l))).body.isSendable = false :=
    htorn
  have hshown :
      (showThreads post).run site = (.json 200 (Listing.toJson (threadsOn post l)), site) :=
    run_answer (outcome_threads hl post)
  have hrespond := respond_threads hasks hpost hshown
  rw [sent_of_not_isSendable hbody] at hrespond
  rw [threads_of_target htarget]
  exact outcome_refused rfl (replyOf_failure hrespond) rfl errorDetail_failure

theorem threads_agrees (h : Ready s host site) {post : String} (hpost : post ≠ "")
    (hfits : (Target.ofField? "/comments" "post_id" post).isSome) :
    ∃ ts, (Store.threads post).outcome site = (.ok ts, site) ∧
      told ((threads post).outcome (replyOf s host) site) =
        (if AuthorsPlain ts then .ok ts else .error (some 500), site) := by
  obtain ⟨l, hl, hletters⟩ := h.keeps
  obtain ⟨target, htarget⟩ := Option.isSome_iff_exists.mp hfits
  have hsendable := isSendable_threadsOn_iff hletters post
  refine ⟨threadsOn post l, outcome_threads hl post, ?_⟩
  split
  next hplain =>
    rw [threads_given h.goesBy h.hasStore hl hpost htarget (hsendable.mpr hplain)]
    rfl
  next htorn =>
    rw [threads_torn h.goesBy h.hasStore hl hpost htarget
      (Bool.eq_false_iff.mpr fun hsent => htorn (hsendable.mp hsent))]
    rfl

omit [Viewed σ] [TakesAll σ] in
/-- No post has the empty name, and the refusal says so. -/
theorem threads_unnamed (hhost : GoesBy s.settings host) (hstore : s.hasStore = true) :
    (threads "").outcome (replyOf s host) site =
      (.error (.refused (.text "String should have at least 1 character") (some 422)), site) := by
  have hrefused : RefusedText emptyPost := .empty "post_id" ""
  have htarget : Target.ofField? "/comments" "post_id" "" =
      some ⟨"/comments".toList, some "post_id=".toList⟩ := by decide +kernel
  have hasks := asksFor_toRequest hhost hstore htarget
  have hplain : (Json.list [entryOf "query" emptyPost]).Plain :=
    Json.plain_list (List.forall_mem_singleton.mpr (hrefused.plain_entryOf "query"))
  have hdetail : errorDetail 422 (unprocessable [entryOf "query" emptyPost]).body.bytes =
      .ok (.text "String should have at least 1 character") := by
    have hsaid := joinMessages_entries "query" [emptyPost]
    rw [List.map_singleton, List.map_singleton] at hsaid
    rw [unprocessable, errorDetail_json 422 hplain rfl]
    simp only [hsaid]
    rfl
  rw [threads_of_target htarget]
  exact outcome_refused rfl (replyOf_eq (respond_emptyPost hasks site)) rfl hdetail

omit [TakesAll σ] in
theorem threads_empty_refused (h : Ready s host site) :
    told ((threads "").outcome (replyOf s host) site) = (.error (some 422), site) := by
  rw [threads_unnamed h.goesBy h.hasStore]
  rfl

/-- The answers to an edit or a removal that was not made. -/
theorem refuses_unchanged (done doing : String) {hash : RawText} {fault : Store.Fault}
    (h : fault = .notFound hash ∨ fault = .locked hash ∨ fault = .wrongPassword hash) :
    (Refuses (unchanged done doing fault) ∧ (unchanged done doing fault).body.isSendable = true) ∧
      statusOf fault = some (unchanged done doing fault).status := by
  rcases h with rfl | rfl | rfl
  · exact ⟨⟨refuses_detail rfl rfl, rfl⟩, rfl⟩
  · exact ⟨⟨refuses_detail rfl rfl, rfl⟩, rfl⟩
  · exact ⟨⟨refuses_detail rfl rfl, rfl⟩, rfl⟩

omit [Viewed σ] [TakesAll σ] in
/-- The answer to a comment that was made of strings can be sent. -/
theorem isSendable_created {post message : String} {author : Option String}
    {password parent : Option RawText} {c : Comment} {after : Site σ}
    (h : (Store.create s.config post message (author.map .plain) password parent).outcome site =
      (.ok c, after)) : (receipt c).toJson.isSendable = true := by
  obtain ⟨hash, resolved, created, s₁, s₂, hhash, rfl⟩ := created_eq h
  refine isSendable_receipt (isPlain_of_newHash hhash) ?_ (RawText.isPlain_plain message)
  cases author with
  | none => rfl
  | some name =>
    rw [Option.map_some, given, Option.bind_some, RawText.nonEmpty?]
    split <;> rfl

theorem create_agrees (h : Ready s host site) (post message : String)
    (author password parent : Option String) :
    told ((create post (.ofText? (author.map .plain)) (.ofText? (password.map .plain)) message
        parent).outcome (replyOf s host) site) =
      if post = "" ∨ isBlankText message then (.error (some 422), site)
      else if s.settings.maxMessageBytes < (utf8 message).length then (.error (some 413), site)
      else overWire site
        (fun c => ⟨c.hash, c.author, "[comment " ++ c.hash ++ "] " ++ c.message⟩)
        ((Store.create s.config post message (author.map .plain) (password.map .plain)
          (parent.map .plain)).outcome site) := by
  let asked : NewComment :=
    ⟨post, author.map .plain, password.map .plain, message, parent.map .plain⟩
  have hsendable : asked.toJson.isSendable = true :=
    NewComment.isSendable_toJson post message author password parent
  have hsends : Sends s host ⟨"POST", commentsTarget, some asked.toJson⟩ NewComment.reader
      (postComment s) _ _ :=
    ⟨rfl, carries_toRequest h.goesBy h.hasStore rfl (by simp) rfl hsendable, asked.plain_toJson,
      rfl⟩
  have hpostIff : asked.post = "" ↔ post = "" := by
    change RawText.plain post = RawText.plain "" ↔ _
    rw [RawText.plain.injEq]
  rcases NewComment.reader_cases hsendable with
    ⟨hpost, hmessage, hread⟩ | ⟨hwrong, errors, hrefused, hread⟩
  · have hright : ¬(post = "" ∨ isBlankText message = true) := by
      rintro (hempty | hblank)
      · exact hpost (hpostIff.mpr hempty)
      · exact Bool.false_ne_true (hmessage.symm.trans hblank)
    rw [if_neg hright]
    refine told_sized hsends hread rfl ⟨?_, ?_⟩
    · intro c after hended
      have hsent := isSendable_created hended
      exact ⟨holds_json rfl (receipt c).plain_toJson hsent (receipt c).reader_toJson, hsent⟩
    · intro fault after hended
      have hplain : ∀ text ∈ password.map RawText.plain, text.isPlain = true := by
        cases password <;> simp
      obtain ⟨⟨hash, rfl⟩ | rfl, hstore⟩ := create_fault_of_equipped h.equipped hplain hended
      · have hsaid : (("Parent comment " : RawText) ++ asked.parent.getD "None" ++
            " not found").isPlain = true := by cases parent <;> rfl
        exact ⟨⟨refuses_detail rfl hsaid, (isSendable_detail 404 _).trans hsaid⟩, rfl, hstore⟩
      · exact ⟨⟨refuses_detail rfl rfl, rfl⟩, rfl, hstore⟩
  · have hrefuse : post = "" ∨ isBlankText message = true := hwrong.imp_left hpostIff.mp
    rw [if_pos hrefuse]
    exact told_invalid hsends hread hrefused

theorem update_agrees (h : Ready s host site) (hash password message : String) :
    told ((update (.text hash) (.text password) message).outcome (replyOf s host) site) =
      if isBlankText message then (.error (some 422), site)
      else if s.settings.maxMessageBytes < (utf8 message).length then (.error (some 413), site)
      else overWire site (fun _ => ⟨"[" ++ hash ++ "] Comment updated successfully"⟩)
        ((Store.update hash password message).outcome site) := by
  let asked : Edit := ⟨hash, password, message⟩
  have hsendable : asked.toJson.isSendable = true := asked.isSendable_toJson rfl rfl rfl
  have hsends : Sends s host ⟨"PUT", commentsTarget, some asked.toJson⟩ Edit.reader
      (putComment s) _ _ :=
    ⟨rfl, carries_toRequest h.goesBy h.hasStore rfl (by simp) rfl hsendable, asked.plain_toJson,
      rfl⟩
  rcases Edit.reader_cases hsendable with ⟨hmessage, hread⟩ | ⟨hblank, errors, hrefused, hread⟩
  · rw [show isBlankText message = false from hmessage, if_neg Bool.false_ne_true]
    refine told_sized hsends hread rfl ⟨?_, ?_⟩
    · intro c after _
      exact ⟨holds_json rfl (Notice.plain_toJson _) rfl (Notice.reader_toJson _), rfl⟩
    · intro fault after hended
      obtain ⟨hfault, hstore⟩ := update_fault_of_equipped h.equipped rfl hended
      obtain ⟨hrefuses, hstatus⟩ := refuses_unchanged "edited" "updating" hfault
      exact ⟨hrefuses, hstatus, hstore⟩
  · rw [if_pos (show isBlankText message = true from hblank)]
    exact told_invalid hsends hread hrefused

omit [KeyValue σ] [Viewed σ] [TakesAll σ] in
/-- A removal that is asked for gets to its handler. -/
theorem sends_removal (hhost : GoesBy s.settings host) (hstore : s.hasStore = true)
    (hash password : String) :
    Sends s host ⟨"DELETE", commentsTarget, some (Removal.toJson ⟨hash, password⟩)⟩ Removal.reader
      deleteComment ("commit_hash", .text hash) [("password", .text password)] :=
  ⟨rfl, carries_toRequest hhost hstore rfl (by simp) rfl
    (Removal.isSendable_toJson ⟨hash, password⟩ rfl rfl),
    Removal.plain_toJson ⟨hash, password⟩, rfl⟩

theorem delete_agrees (h : Ready s host site) (hash password : String) :
    told ((delete (.text hash) (.text password)).outcome (replyOf s host) site) =
      overWire site (fun _ => ⟨"Comment " ++ hash ++ " deleted."⟩)
        ((Store.delete hash password).outcome site) := by
  have hsends := sends_removal h.goesBy h.hasStore hash password
  refine told_handled hsends (Removal.reader_toJson ⟨hash, password⟩) rfl ⟨?_, ?_⟩
  · intro c after _
    exact ⟨holds_json rfl (Notice.plain_toJson _) rfl (Notice.reader_toJson _), rfl⟩
  · intro fault after hended
    obtain ⟨hfault, hstore⟩ := delete_fault_of_equipped h.equipped rfl hended
    obtain ⟨hrefuses, hstatus⟩ := refuses_unchanged "deleted" "deleting" hfault
    exact ⟨hrefuses, hstatus, hstore⟩

/-- A client whose edit is made is told so. -/
theorem update_granted (h : Ready s host site) {hash password message : String}
    (hmessage : isBlankText message = false) (hfits : fits s.settings message = true) {c : Comment}
    {updated : Site σ}
    (hupdated : (Store.update hash password message).outcome site = (.ok c, updated)) :
    (update (.text hash) (.text password) message).outcome (replyOf s host) site =
      (.ok ⟨"[" ++ hash ++ "] Comment updated successfully"⟩, updated) := by
  have hagrees := update_agrees h hash password message
  rw [if_neg (Bool.not_eq_true _ ▸ hmessage), if_neg ((fits_iff s.settings _).mp hfits),
    hupdated] at hagrees
  exact outcome_of_told hagrees

omit [Viewed σ] [TakesAll σ] in
/-- A client whose removal is made is told so. -/
theorem delete_granted (hhost : GoesBy s.settings host) (hstore : s.hasStore = true)
    {hash password : String} {c : Comment} {removed : Site σ}
    (hremoved : (Store.delete hash password).outcome site = (.ok c, removed)) :
    (delete (.text hash) (.text password)).outcome (replyOf s host) site =
      (.ok ⟨"Comment " ++ hash ++ " deleted."⟩, removed) := by
  have hsends := sends_removal hhost hstore hash password
  have hrun : (deleteComment ⟨hash, password⟩).run site =
      (some (.json 200 (Notice.toJson ⟨"Comment " ++ hash ++ " deleted."⟩)), removed) := by
    rw [deleteComment, run_map, run_answer hremoved]
    rfl
  have hreply := replyOf_handled hsends (Removal.reader_toJson ⟨hash, password⟩) hrun rfl
  exact outcome_holds hsends.isWritable hreply
    (holds_json rfl (Notice.plain_toJson _) rfl (Notice.reader_toJson _))

theorem agrees_of_ready (h : Ready s host site) : Agrees s host site where
  threads_eq _ hpost hfits := threads_agrees h hpost hfits
  threads_empty := threads_empty_refused h
  create_eq := create_agrees h
  update_eq := update_agrees h
  delete_eq := delete_agrees h

end Ready

/-! ## After any requests -/

/-- A service with a store answers requests one after the other, each with a salt
that is drawn for it. -/
def serve (settings : Settings) : List (String × Request) → Site σ → Site σ
  | [], site => site
  | (salt, r) :: rest, site => serve settings rest ((respond ⟨settings, salt, true⟩ r).run site).2

theorem serve_concat (settings : Settings) (requests : List (String × Request))
    (request : String × Request) (start : Site σ) :
    serve settings (requests ++ [request]) start =
      ((respond ⟨settings, request.1, true⟩ request.2).run (serve settings requests start)).2 := by
  induction requests generalizing start with
  | nil => rfl
  | cons first rest ih => exact ih _

/-- Whatever is asked, the store keeps a ledger of lettered comments and the clock is left
alone. -/
theorem keeps_serve [Viewed σ] [TakesAll σ] (settings : Settings)
    (requests : List (String × Request)) {site : Site σ}
    (h : ∃ l, Keeps site.store l ∧ ∀ c ∈ l.comments, Lettered c) :
    (∃ l, Keeps (serve settings requests site).store l ∧ ∀ c ∈ l.comments, Lettered c) ∧
      (serve settings requests site).supply.clock = site.supply.clock := by
  induction requests generalizing site with
  | nil => exact ⟨h, rfl⟩
  | cons request rest ih =>
    obtain ⟨salt, r⟩ := request
    obtain ⟨l, hl, hletters⟩ := h
    obtain ⟨t, ht, hturn⟩ :=
      takesTurn_respond ⟨settings, salt, true⟩ r site ⟨l, site.supply⟩ ⟨hl, rfl⟩
    obtain ⟨hkeeps, hclock⟩ := ih ⟨t.store, ht.store, lettered_turn hturn hletters⟩
    exact ⟨hkeeps, hclock.trans (clock_run _ _)⟩

theorem keeps_empty : ∃ l, Keeps Memory.empty l ∧ ∀ c ∈ l.comments, Lettered c :=
  ⟨[], keeps_nil (fun _ => rfl) (fun _ => rfl), List.forall_mem_nil _⟩

/-- A client of a service that has answered any requests agrees with the
operations on the service's store. -/
theorem agrees_of_serve {settings : Settings} {host salt : String} {supply : Supply}
    (hhost : GoesBy settings host) (hsalt : (Password.Salt.ofText? salt).isSome = true)
    (hclock : ∀ n, Time.inRange (supply.clock n) = true) (requests : List (String × Request)) :
    Agrees ⟨settings, salt, true⟩ host (serve settings requests ⟨Memory.empty, supply⟩) := by
  let start : Site Memory := ⟨Memory.empty, supply⟩
  obtain ⟨hkeeps, hsame⟩ : (∃ l, Keeps (serve settings requests start).store l ∧ ∀ c ∈ l.comments,
      Lettered c) ∧ (serve settings requests start).supply.clock = supply.clock :=
    keeps_serve settings requests keeps_empty
  exact agrees_of_ready ⟨hhost, rfl, hsalt, hkeeps, fun n => hsame ▸ hclock n⟩

/-- A service that has stored a comment, under the settings where nothing is
set. -/
theorem agrees_of_serve_stored :
    let salt := "$2b$04$abcdefghijklmnopqrstuu"
    let supply : Supply := ⟨fun _ => "0a1b2c3d", fun _ => 0, 0, 0⟩
    let stored : NewComment := ⟨"intro", none, some "secret", "Hello", none⟩
    let request := Query.toRequest ⟨"POST", commentsTarget, some stored.toJson⟩ "localhost"
    GoesBy Settings.standard "localhost" ∧ (Password.Salt.ofText? salt).isSome = true ∧
      (∀ n, Time.inRange (supply.clock n) = true) ∧
      Agrees ⟨Settings.standard, salt, true⟩ "localhost"
        (serve Settings.standard [(salt, request)] ⟨Memory.empty, supply⟩) := by
  intro salt supply stored request
  have hhost := goesBy_standard "localhost"
  have hsalt : (Password.Salt.ofText? salt).isSome = true := by decide +kernel
  have hepoch : Time.inRange 0 = true := by decide +kernel
  have hclock : ∀ n, Time.inRange (supply.clock n) = true := fun _ => hepoch
  exact ⟨hhost, hsalt, hclock, agrees_of_serve hhost hsalt hclock [(salt, request)]⟩

end CommentThreads.Client
