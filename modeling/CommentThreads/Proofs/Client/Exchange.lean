/-
CommentThreads.Proofs.Client.Exchange — how an exchange with a server ends, told
from what the server answers.

An answer that holds what was asked for is received (`outcome_holds`). An answer
with the status of an error is a fault with that status, if the client can look
at what it says (`outcome_refuses`); so it can where the service says what is
wrong in one text (`refuses_detail`) or in a list of errors
(`refuses_unprocessable`).
-/
import CommentThreads.Client.Exchange
import CommentThreads.Proofs.Record.Wire

namespace CommentThreads.Client

open CommentThreads.Http CommentThreads.Server

/-! ## Outcomes -/

section Outcome

variable {σ α β : Type} {reply : Query → σ → Reply × σ}

/-- How an exchange ends with one who answers, and how that one stands then. -/
def Exchange.outcome (reply : Query → σ → Reply × σ) (e : Exchange α) (s : σ) :
    Except Fault α × σ :=
  Dialogue.run reply (ExceptT.run e) s

/-- An exchange after another one starts where that one ended; a fault ends both. -/
theorem outcome_bind (e : Exchange α) (f : α → Exchange β) (s : σ) :
    Exchange.outcome reply (e >>= f) s =
      match e.outcome reply s with
      | (.ok x, s') => (f x).outcome reply s'
      | (.error fault, s') => (.error fault, s') := by
  simp only [Exchange.outcome, ExceptT.run_bind, Dialogue.run_bind]
  cases Dialogue.run reply (ExceptT.run e) s with
  | mk r s' => cases r <;> rfl

/-- What comes of a request that is sent: a status with bytes, unless that is an
error. -/
def sent : Reply → Except Fault (Nat × List UInt8)
  | .unreachable => .error (.refused (.text "Could not reach the comment server") none)
  | .badAddress => .error .badAddress
  | .answered status body =>
    if isError status then
      match errorDetail status body with
      | .ok detail => .error (.refused detail (some status))
      | .error fault => .error fault
    else .ok (status, body)

/-- A request without a written form is not sent. -/
theorem outcome_send_of_not (reply : Query → σ → Reply × σ) {query : Query}
    (h : query.isWritable = false) (s : σ) :
    (send query).outcome reply s = (.error .unwritable, s) := by
  rw [send, h]
  rfl

theorem outcome_send (reply : Query → σ → Reply × σ) {query : Query}
    (h : query.isWritable = true) (s : σ) :
    (send query).outcome reply s = (sent (reply query s).1, (reply query s).2) := by
  have hlift : Exchange.outcome reply (ExceptT.lift (Dialogue.send query)) s =
      (.ok (reply query s).1, (reply query s).2) := by
    change Dialogue.run reply ((Except.ok : _ → Except Fault _) <$> Dialogue.send query) s = _
    rw [map_eq_pure_bind, Dialogue.run_bind, Dialogue.run_pure]
    rfl
  rw [send, h]
  simp only [Bool.not_true, Bool.false_eq_true, if_false]
  rw [outcome_bind, hlift]
  cases (reply query s).1 with
  | unreachable => rfl
  | badAddress => rfl
  | answered status body =>
    simp only [sent]
    cases isError status with
    | false => rfl
    | true => cases errorDetail status body <;> rfl

/-- An exchange that sends one request leaves the one who answers as the answer
does, whatever is made of it. -/
theorem server_of_asking (reply : Query → σ → Reply × σ) {query : Query}
    (h : query.isWritable = true) (read : FieldReader α) (s : σ) :
    (Exchange.outcome reply (send query >>= receive read) s).2 = (reply query s).2 := by
  rw [outcome_bind, outcome_send reply h]
  cases sent (reply query s).1 with
  | error fault => rfl
  | ok answer =>
    simp only [receive]
    split <;> rfl

/-- What a reply says to one who has asked for something. -/
def heard (read : FieldReader α) (r : Reply) : Except Fault α :=
  match sent r with
  | .ok answer => (Exchange.outcome (fun _ (u : Unit) => (r, u)) (receive read answer) ()).1
  | .error fault => .error fault

theorem result_of_heard (reply : Query → σ → Reply × σ) {query : Query}
    (h : query.isWritable = true) (read : FieldReader α) (s : σ) :
    (Exchange.outcome reply (send query >>= receive read) s).1 = heard read (reply query s).1 := by
  rw [outcome_bind, outcome_send reply h, heard]
  cases sent (reply query s).1 with
  | error fault => rfl
  | ok answer =>
    simp only [receive]
    split <;> rfl

/-- What comes of one request depends on its answer alone, whoever gives it. -/
theorem result_of_asking {τ : Type} (reply : Query → σ → Reply × σ) (reply' : Query → τ → Reply × τ)
    {query : Query} (hwritable : query.isWritable = true) (read : FieldReader α) {s : σ} {s' : τ}
    (h : (reply query s).1 = (reply' query s').1) :
    (Exchange.outcome reply (send query >>= receive read) s).1 =
      (Exchange.outcome reply' (send query >>= receive read) s').1 := by
  rw [result_of_heard _ hwritable, result_of_heard _ hwritable, h]

end Outcome

/-! ## Answers -/

/-- An answer that is no error and holds what a reader asks for. -/
structure Holds {α : Type} (read : FieldReader α) (response : Response) (a : α) : Prop where
  good : isError response.status = false
  holds : ∃ v, Json.ofBytes response.body.bytes = .ok v ∧ FieldReader.record read v = .valid a

/-- An error whose answer the client can look at. -/
structure Refuses (response : Response) : Prop where
  bad : isError response.status = true
  detail : ∃ detail, errorDetail response.status response.body.bytes = .ok detail

section Answered

variable {σ α : Type} {reply : Query → σ → Reply × σ} {query : Query} {read : FieldReader α}
  {response : Response} {s s' : σ} (hwritable : query.isWritable = true)

include hwritable

theorem outcome_holds (h : reply query s = (.ofResponse response, s')) {a : α}
    (hholds : Holds read response a) :
    Exchange.outcome reply (send query >>= receive read) s = (.ok a, s') := by
  have hsend := outcome_send reply hwritable s
  obtain ⟨v, hbytes, hread⟩ := hholds.holds
  rw [h, Reply.ofResponse, sent, hholds.good, if_neg Bool.false_ne_true] at hsend
  rw [outcome_bind, hsend]
  simp only [receive, hbytes, hread]
  rfl

/-- An answer that is no error is refused all the same if nothing can be read from
it. -/
theorem outcome_unread (h : reply query s = (.ofResponse response, s'))
    (hgood : isError response.status = false) (hnone : ∀ a, ¬Holds read response a) :
    ∃ detail status, Exchange.outcome reply (send query >>= receive read) s =
      (.error (.refused detail status), s') := by
  have hsend := outcome_send reply hwritable s
  rw [h, Reply.ofResponse, sent, hgood, if_neg Bool.false_ne_true] at hsend
  rw [outcome_bind, hsend]
  simp only [receive]
  split
  · next a hread =>
    split at hread
    · cases hread
    · next v hbytes =>
      split at hread
      · next hrecord => exact absurd ⟨hgood, v, hbytes, hrecord⟩ (hnone _)
      · cases hread
  · exact ⟨_, _, rfl⟩

theorem outcome_refused (h : reply query s = (.ofResponse response, s'))
    (hbad : isError response.status = true) {detail : Json}
    (hdetail : errorDetail response.status response.body.bytes = .ok detail) :
    Exchange.outcome reply (send query >>= receive read) s =
      (.error (.refused detail (some response.status)), s') := by
  have hsend := outcome_send reply hwritable s
  rw [h, Reply.ofResponse, sent, hbad, if_pos rfl, hdetail] at hsend
  rw [outcome_bind, hsend]

theorem outcome_refuses (h : reply query s = (.ofResponse response, s'))
    (hrefuses : Refuses response) :
    ∃ detail, Exchange.outcome reply (send query >>= receive read) s =
      (.error (.refused detail (some response.status)), s') := by
  obtain ⟨detail, hdetail⟩ := hrefuses.detail
  exact ⟨detail, outcome_refused hwritable h hrefuses.bad hdetail⟩

end Answered

/-- An object that is written is held by the answer that carries it. -/
theorem holds_json {α : Type} {read : FieldReader α} {status : Nat} {entry : RawText × Json}
    {entries : List (RawText × Json)} {a : α} (hstatus : isError status = false)
    (hplain : (Json.object (entry :: entries)).Plain)
    (hsendable : (Json.object (entry :: entries)).isSendable = true)
    (hread : read (.object (entry :: entries)) = .valid a) :
    Holds read (.json status (.object (entry :: entries))) a :=
  ⟨hstatus, _, Json.ofBytes_compact hplain hsendable, hread⟩

/-- What is looked at of an answer is its detail, and the messages of one that is a list. -/
theorem errorDetail_json (status : Nat) {detail : Json} (hplain : detail.Plain)
    (hsendable : detail.isSendable = true) :
    errorDetail status (Response.json status (.object [("detail", detail)])).body.bytes = do
      let said ← match detail with
        | .list entries => Json.text <$> joinMessages entries
        | v => pure v
      return if said.isGiven then said else .text (statusText status) := by
  have hobject : (Json.object [("detail", detail)]).Plain := ⟨⟨hplain, trivial⟩, by simp⟩
  have hbytes : Json.ofBytes (Response.json status (.object [("detail", detail)])).body.bytes =
      .ok (.object [("detail", detail)]) :=
    Json.ofBytes_compact hobject (by simp [Json.isSendable, Json.entriesSendable, hsendable])
  have hfield : Json.field? "detail" (.object [("detail", detail)]) = some detail := by
    simp [Json.field?, Entries.get?]
  rw [errorDetail, hbytes]
  cases detail <;> simp only [hfield, Option.getD_some]

/-- What an answer says can be looked at, unless it is a list that cannot. -/
theorem refuses_json {status : Nat} {detail : Json} (hstatus : isError status = true)
    (hplain : detail.Plain) (hsendable : detail.isSendable = true)
    (hlist : ∀ entries, detail = .list entries → ∃ said, joinMessages entries = .ok said) :
    Refuses (.json status (.object [("detail", detail)])) := by
  refine ⟨hstatus, ?_⟩
  show ∃ said, errorDetail status (Response.json status (.object [("detail", detail)])).body.bytes =
    .ok said
  rw [errorDetail_json status hplain hsendable]
  cases detail with
  | list entries =>
    obtain ⟨said, hsaid⟩ := hlist entries rfl
    simp only [hsaid]
    exact ⟨_, rfl⟩
  | _ => exact ⟨_, rfl⟩

theorem refuses_detail {status : Nat} (hstatus : isError status = true) {message : RawText}
    (hmessage : message.isPlain = true) : Refuses (.detail status message) := by
  refine refuses_json hstatus trivial hmessage fun entries hentries => ?_
  cases hentries

/-- Every entry for an error has a message, and that is a text. -/
theorem joinMessages_entries (source : String) (errors : List FieldError) :
    joinMessages (errors.map (entryOf source)) =
      .ok (RawText.joinWith "; " (errors.map fun e => .plain (complaintText e.complaint))) := by
  have hmessages : (errors.map (entryOf source)).mapM entryMessage =
      .ok (errors.map fun e => Json.text (complaintText e.complaint)) := by
    have hentry (e : FieldError) :
        entryMessage (entryOf source e) = pure (.text (complaintText e.complaint)) := by
      simp [entryOf, entryMessage]
      rfl
    simp only [List.mapM_map, Function.comp_def, hentry, List.mapM_pure]
    rfl
  have htexts : (errors.map fun e => Json.text (complaintText e.complaint)).mapM textOnly =
      .ok (errors.map fun e => .plain (complaintText e.complaint)) := by
    have htext (t : RawText) : textOnly (.text t) = pure t := rfl
    simp only [List.mapM_map, Function.comp_def, htext, List.mapM_pure]
    rfl
  rw [joinMessages, hmessages]
  simp only [bind, Except.bind, htexts]
  rfl

theorem refuses_entries {errors : List FieldError} {source : String}
    (h : ∀ e ∈ errors, (entryOf source e).Plain)
    (hsendable : ∀ e ∈ errors, (entryOf source e).isSendable = true) :
    Refuses (unprocessable (errors.map (entryOf source))) := by
  refine refuses_json rfl (Json.plain_list fun v hv => ?_)
    (Json.isSendable_list.mpr fun v hv => ?_) fun entries hentries => ?_
  · obtain ⟨e, he, rfl⟩ := List.mem_map.mp hv
    exact h e he
  · obtain ⟨e, he, rfl⟩ := List.mem_map.mp hv
    exact hsendable e he
  · cases hentries
    exact ⟨_, joinMessages_entries source errors⟩

theorem refuses_unprocessable {errors : List FieldError} (h : ∀ e ∈ errors, RefusedText e)
    (source : String) : Refuses (unprocessable (errors.map (entryOf source))) :=
  refuses_entries (fun e he => (h e he).plain_entryOf source)
    fun e he => (h e he).isSendable_entryOf source

end CommentThreads.Client
