/-
CommentThreads.Proofs.Client.Answers — what a client makes of any answer at all.

A client asks for one of five things (`Errand`), with one request or, where its address
is none or its body cannot be written, with no request (`Errand.query?`). Whoever answers
may answer with any status and any bytes, or not at all. The result is
`concludes_of_query`: what was asked for if the answer holds it, and otherwise a refusal
with the status of the answer, unless the answer makes the client stumble (`Stumbles`).
It does so in two ways only, both in the list of errors of an answer with an error
status: an entry that is no object, and a message that is no text. Any other value in the
place of that list is taken as it is, at whatever depth it stands.
-/
import CommentThreads.Proofs.Client.Exchange

namespace CommentThreads.Client

open CommentThreads.Http

/-! ## The five errands -/

/-- What a client asks a service for. -/
inductive Errand
  | threads (post : String)
  | comment (hash : String)
  | create (post : String) (author password : Json) (message : String) (parent : Option String)
  | update (hash password : Json) (message : String)
  | delete (hash password : Json)

namespace Errand

/-- What an errand brings home. -/
def Result : Errand → Type
  | .threads _ => List Thread
  | .comment _ => Detail
  | .create .. => Receipt
  | .update .. => Notice
  | .delete .. => Notice

/-- How the answer to an errand is read. -/
def reader : (errand : Errand) → FieldReader errand.Result
  | .threads _ => Listing.reader
  | .comment _ => Detail.reader
  | .create .. => Receipt.reader
  | .update .. => Notice.reader
  | .delete .. => Notice.reader

/-- The exchange of an errand. -/
def exchange : (errand : Errand) → Exchange errand.Result
  | .threads post => Client.threads post
  | .comment hash => Client.comment hash
  | .create post author password message parent =>
    Client.create post author password message parent
  | .update hash password message => Client.update hash password message
  | .delete hash password => Client.delete hash password

/-- The request of an errand, if it can be addressed. -/
def addressed? : Errand → Option Query
  | .threads post =>
    (Target.ofField? "/comments" "post_id" post).map fun target => ⟨"GET", target, none⟩
  | .comment hash =>
    (Target.ofReference? ("/comments/".toList ++ hash.toList)).map fun target =>
      ⟨"GET", target, none⟩
  | .create post author password message parent =>
    some ⟨"POST", commentsTarget,
      some (NewComment.body post author password message (parent.map .plain))⟩
  | .update hash password message =>
    some ⟨"PUT", commentsTarget, some (Edit.body hash password message)⟩
  | .delete hash password =>
    some ⟨"DELETE", commentsTarget, some (Removal.body hash password)⟩

/-- The request that an errand sends, if it can be addressed and written. -/
def query? (errand : Errand) : Option Query := errand.addressed?.filter Query.isWritable

/-- An errand that can be addressed sends its request, if it can be written, and reads
the answer. -/
theorem exchange_of_addressed {errand : Errand} {q : Query} (h : errand.addressed? = some q) :
    errand.exchange = send q >>= receive errand.reader := by
  cases errand with
  | threads post =>
    obtain ⟨target, htarget, rfl⟩ := Option.map_eq_some_iff.mp h
    simp only [exchange, Client.threads, htarget]
    rfl
  | comment hash =>
    obtain ⟨target, htarget, rfl⟩ := Option.map_eq_some_iff.mp h
    simp only [exchange, Client.comment, htarget]
    rfl
  | create post author password message parent =>
    cases h
    rfl
  | update hash password message =>
    cases h
    rfl
  | delete hash password =>
    cases h
    rfl

end Errand

/-! ## Lists of errors -/

/-- A value that has no fields. -/
def NoObject (v : Json) : Prop := ∀ fields, v ≠ .object fields

/-- A value whose message is there and is no text. -/
def NoText (v : Json) : Prop := ∃ m, v.field? "msg" = some m ∧ ∀ s, m ≠ .text s

theorem entryMessage_eq_error_iff {v : Json} {fault : Fault} :
    entryMessage v = .error fault ↔ fault = .entryNotObject ∧ NoObject v := by
  cases v with
  | object fields =>
    constructor
    · intro h
      cases h
    · rintro ⟨-, hnone⟩
      exact absurd rfl (hnone fields)
  | _ =>
    constructor
    · intro h
      cases h
      exact ⟨rfl, fun _ => Json.noConfusion⟩
    · rintro ⟨rfl, -⟩
      rfl

theorem textOnly_eq_error_iff {m : Json} {fault : Fault} :
    textOnly m = .error fault ↔ fault = .messageNotText ∧ ∀ s, m ≠ .text s := by
  cases m with
  | text s =>
    constructor
    · intro h
      cases h
    · rintro ⟨-, hnone⟩
      exact absurd rfl (hnone s)
  | _ =>
    constructor
    · intro h
      cases h
      exact ⟨rfl, fun _ => Json.noConfusion⟩
    · rintro ⟨rfl, -⟩
      rfl

/-- The message of an entry is no text only if the entry has one that is none: what
stands for a missing message is a text. -/
theorem noText_iff {v m : Json} (h : entryMessage v = .ok m) :
    NoText v ↔ ∀ s, m ≠ .text s := by
  cases v with
  | object fields =>
    rw [entryMessage, Except.ok.injEq] at h
    cases hmessage : Json.field? "msg" (.object fields) with
    | some said =>
      rw [hmessage, Option.getD_some] at h
      subst h
      simp [NoText, hmessage]
    | none =>
      rw [hmessage, Option.getD_none] at h
      subst h
      simp [NoText, hmessage]
  | _ => cases h

/-- One value after another is looked at, up to the first that is refused. -/
theorem mapM_cases {ε α β : Type} (f : α → Except ε β) (values : List α) :
    (∃ found, values.mapM f = .ok found ∧ (∀ a ∈ values, ∃ b ∈ found, f a = .ok b) ∧
        ∀ b ∈ found, ∃ a ∈ values, f a = .ok b) ∨
      ∃ a ∈ values, ∃ e, f a = .error e ∧ values.mapM f = .error e := by
  induction values with
  | nil => exact .inl ⟨[], rfl, List.forall_mem_nil _, List.forall_mem_nil _⟩
  | cons a values ih =>
    rw [List.mapM_cons]
    cases ha : f a with
    | error e => exact .inr ⟨a, List.mem_cons_self, e, ha, rfl⟩
    | ok b =>
      rcases ih with ⟨found, hfound, hto, hfrom⟩ | ⟨a', hmem, e, ha', hfound⟩
      · refine .inl ⟨b :: found, by rw [hfound]; rfl, List.forall_mem_cons.mpr ⟨?_, fun a' h => ?_⟩,
          List.forall_mem_cons.mpr ⟨?_, fun b' h => ?_⟩⟩
        · exact ⟨b, List.mem_cons_self, ha⟩
        · obtain ⟨b', hb', hread⟩ := hto a' h
          exact ⟨b', List.mem_cons_of_mem b hb', hread⟩
        · exact ⟨a, List.mem_cons_self, ha⟩
        · obtain ⟨a', ha', hread⟩ := hfrom b' h
          exact ⟨a', List.mem_cons_of_mem a ha', hread⟩
      · exact .inr ⟨a', List.mem_cons_of_mem a hmem, e, ha', by rw [hfound]; rfl⟩

/-- Why a list of errors cannot be read. All entries are looked at before any message,
so an entry that is no object goes first wherever it stands. -/
inductive Unread (entries : List Json) : Fault → Prop
  | entry {v : Json} (mem : v ∈ entries) (entry : NoObject v) : Unread entries .entryNotObject
  | message (objects : ∀ w ∈ entries, ¬NoObject w) {v : Json} (mem : v ∈ entries)
      (message : NoText v) : Unread entries .messageNotText

theorem joinMessages_eq_error_iff {entries : List Json} {fault : Fault} :
    joinMessages entries = .error fault ↔ Unread entries fault := by
  rcases mapM_cases entryMessage entries with
    ⟨messages, hmessages, hobjects, hentries⟩ | ⟨v, hv, fault', hentry, hmessages⟩
  · have hsound : ∀ v ∈ entries, ¬NoObject v := by
      intro v hv hnone
      obtain ⟨m, -, hm⟩ := hobjects v hv
      rw [entryMessage_eq_error_iff.mpr ⟨rfl, hnone⟩] at hm
      cases hm
    rcases mapM_cases textOnly messages with
      ⟨texts, htexts, hread, -⟩ | ⟨m, hm, fault', hnone, htexts⟩
    · have hjoined : joinMessages entries = .ok (RawText.joinWith "; " texts) := by
        simp only [joinMessages, hmessages, htexts, bind, Except.bind]
        rfl
      rw [hjoined]
      constructor
      · intro h
        cases h
      · intro h
        cases h with
        | entry hv hentry => exact absurd hentry (hsound _ hv)
        | @message _ v hv hnotext =>
          obtain ⟨m, hm, hentry⟩ := hobjects v hv
          obtain ⟨text, -, htext⟩ := hread m hm
          rw [textOnly_eq_error_iff.mpr ⟨rfl, (noText_iff hentry).mp hnotext⟩] at htext
          cases htext
    · obtain ⟨rfl, hnotext⟩ := textOnly_eq_error_iff.mp hnone
      have hjoined : joinMessages entries = .error .messageNotText := by
        simp only [joinMessages, hmessages, htexts, bind, Except.bind]
      obtain ⟨v, hv, hentry⟩ := hentries m hm
      rw [hjoined, Except.error.injEq]
      constructor
      · rintro rfl
        exact .message hsound hv ((noText_iff hentry).mpr hnotext)
      · intro h
        cases h with
        | entry hv hnone => exact absurd hnone (hsound _ hv)
        | message => rfl
  · obtain ⟨rfl, hnone⟩ := entryMessage_eq_error_iff.mp hentry
    have hjoined : joinMessages entries = .error .entryNotObject := by
      simp only [joinMessages, hmessages, bind, Except.bind]
    rw [hjoined, Except.error.injEq]
    constructor
    · rintro rfl
      exact .entry hv hnone
    · intro h
      cases h with
      | entry => rfl
      | message hobjects => exact absurd hnone (hobjects v hv)

/-! ## Any answer -/

/-- The list of errors in the bytes of an answer, if it has one. -/
def errorList? (body : List UInt8) : Option (List Json) :=
  match Json.ofBytes body with
  | .ok v =>
    match v.field? "detail" with
    | some (.list entries) => some entries
    | _ => none
  | .error _ => none

/-- What an answer says can be told, unless it says it in a list of errors that cannot
be read. -/
theorem errorDetail_eq_error_iff {status : Nat} {body : List UInt8} {fault : Fault} :
    errorDetail status body = .error fault ↔
      ∃ entries, errorList? body = some entries ∧ Unread entries fault := by
  simp only [← joinMessages_eq_error_iff]
  rw [errorDetail, errorList?]
  have told (detail : Json) : Except.ok detail ≠ Except.error fault := by
    intro h
    cases h
  cases Json.ofBytes body with
  | error e => exact iff_of_false (told _) (by simp)
  | ok v =>
    dsimp only
    cases v.field? "detail" with
    | none => exact iff_of_false (told _) (by simp)
    | some detail =>
      cases detail with
      | list entries =>
        simp only [Option.getD_some, Option.some.injEq, exists_eq_left']
        cases joinMessages entries with
        | error fault' =>
          change Except.error fault' = Except.error fault ↔ _
          simp only [Except.error.injEq]
        | ok said => exact iff_of_false (told _) (by simp)
      | _ => exact iff_of_false (told _) (by simp)

/-- The status of an answer, if there is an answer. -/
def Reply.status? : Reply → Option Nat
  | .answered status _ => some status
  | _ => none

/-- An answer that is no error and holds what a reader asks for. -/
inductive Held {α : Type} (read : FieldReader α) : Reply → α → Prop
  | intro {status : Nat} {body : List UInt8} {v : Json} {a : α} (good : isError status = false)
      (json : Json.ofBytes body = .ok v) (valid : FieldReader.record read v = .valid a) :
      Held read (.answered status body) a

/-- An answer with an error status whose list of errors cannot be read. -/
inductive Stumbles : Reply → Fault → Prop
  | intro {status : Nat} {body : List UInt8} {entries : List Json} {fault : Fault}
      (bad : isError status = true) (errors : errorList? body = some entries)
      (unread : Unread entries fault) : Stumbles (.answered status body) fault

/-- What an errand comes to with a reply. -/
structure Concludes {α : Type} (read : FieldReader α) (r : Reply) (result : Except Fault α) :
    Prop where
  held : ∀ a, result = .ok a ↔ Held read r a
  stumbled : ∀ fault, Stumbles r fault → result = .error fault
  refused : (∀ a, ¬Held read r a) → (∀ fault, ¬Stumbles r fault) →
    ∃ detail, result = .error (.refused detail r.status?)

section Answered

variable {α : Type} (read : FieldReader α) {status : Nat}

/-- A reply that holds nothing and does not make the client stumble concludes with a
refusal. -/
theorem concludes_refused {r : Reply} {detail : Json}
    (hheard : heard read r = .error (.refused detail r.status?)) (hnone : ∀ a, ¬Held read r a)
    (hsound : ∀ fault, ¬Stumbles r fault) : Concludes read r (heard read r) := by
  rw [hheard]
  refine ⟨fun a => iff_of_false ?_ (hnone a), fun fault h => absurd h (hsound fault),
    fun _ _ => ⟨detail, rfl⟩⟩
  intro h
  cases h

/-- An answer with an error status holds nothing, and is refused if what it says can be
told. -/
theorem concludes_error (bad : isError status = true) (body : List UInt8) :
    Concludes read (.answered status body) (heard read (.answered status body)) := by
  have hnone : ∀ a, ¬Held read (.answered status body) a := by
    rintro a ⟨hgood, -, -⟩
    rw [bad] at hgood
    cases hgood
  have hstumbles (fault : Fault) :
      Stumbles (.answered status body) fault ↔ errorDetail status body = .error fault := by
    rw [errorDetail_eq_error_iff]
    constructor
    · rintro ⟨-, herrors, hunread⟩
      exact ⟨_, herrors, hunread⟩
    · rintro ⟨entries, herrors, hunread⟩
      exact .intro bad herrors hunread
  cases hdetail : errorDetail status body with
  | ok detail =>
    have hheard : heard read (.answered status body) = .error (.refused detail (some status)) := by
      simp only [heard, sent, bad, if_true, hdetail]
    refine concludes_refused read hheard hnone fun fault h => ?_
    rw [hstumbles, hdetail] at h
    cases h
  | error fault =>
    have hheard : heard read (.answered status body) = .error fault := by
      simp only [heard, sent, bad, if_true, hdetail]
    rw [hheard]
    refine ⟨fun a => iff_of_false ?_ (hnone a), fun fault' h => ?_,
      fun _ hno => absurd ((hstumbles fault).mpr hdetail) (hno fault)⟩
    · intro h
      cases h
    · rw [hstumbles, hdetail] at h
      cases h
      rfl

theorem held_iff (good : isError status = false) {body : List UInt8} {v : Json}
    (json : Json.ofBytes body = .ok v) {a : α} :
    Held read (.answered status body) a ↔ FieldReader.record read v = .valid a := by
  refine ⟨?_, .intro good json⟩
  rintro ⟨-, json', valid⟩
  rw [json] at json'
  cases json'
  exact valid

/-- An answer without an error status is taken for what was asked for, or refused. -/
theorem concludes_answer (good : isError status = false) (body : List UInt8) :
    Concludes read (.answered status body) (heard read (.answered status body)) := by
  have hfaultless : ∀ fault, ¬Stumbles (.answered status body) fault := by
    rintro fault ⟨hbad, -, -⟩
    rw [good] at hbad
    cases hbad
  have hrefused (hnone : ∀ a, ¬Held read (.answered status body) a)
      (h : heard read (.answered status body) =
        .error (.refused (.text "Unexpected response from the comment server") (some status))) :
      Concludes read (.answered status body) (heard read (.answered status body)) :=
    concludes_refused read h hnone hfaultless
  cases hjson : Json.ofBytes body with
  | error e =>
    refine hrefused (fun a h => ?_) ?_
    · obtain ⟨-, hjson', -⟩ := h
      rw [hjson] at hjson'
      cases hjson'
    · simp only [heard, sent, good, Bool.false_eq_true, if_false, receive, hjson]
      rfl
  | ok v =>
    cases hvalid : FieldReader.record read v with
    | invalid errors =>
      refine hrefused (fun a h => ?_) ?_
      · rw [held_iff read good hjson, hvalid] at h
        cases h
      · simp only [heard, sent, good, Bool.false_eq_true, if_false, receive, hjson, hvalid]
        rfl
    | valid a =>
      have hheard : heard read (.answered status body) = .ok a := by
        simp only [heard, sent, good, Bool.false_eq_true, if_false, receive, hjson, hvalid]
        rfl
      rw [hheard]
      refine ⟨fun a' => ?_, fun fault h => absurd h (hfaultless fault),
        fun hno _ => absurd (.intro good hjson hvalid) (hno a)⟩
      rw [held_iff read good hjson, hvalid, Except.ok.injEq, Validated.valid.injEq]

end Answered

/-- What is heard in a reply, whatever it is. -/
theorem concludes_heard {α : Type} (read : FieldReader α) {r : Reply} (h : r ≠ .badAddress) :
    Concludes read r (heard read r) := by
  cases r with
  | badAddress => exact absurd rfl h
  | unreachable =>
    refine concludes_refused read rfl (fun a h => ?_) fun fault h => ?_
    · cases h
    · cases h
  | answered status body =>
    cases hstatus : isError status with
    | true => exact concludes_error read hstatus body
    | false => exact concludes_answer read hstatus body

/-- An errand that is sent asks once, and comes to what it asked for, to a refusal with
the status of the answer, or to one of two faults where the answer's list of errors
cannot be read. -/
theorem concludes_of_query {σ : Type} (reply : Query → σ → Reply × σ) (s : σ) {errand : Errand}
    {q : Query} (hquery : errand.query? = some q) (haddress : (reply q s).1 ≠ .badAddress) :
    (errand.exchange.outcome reply s).2 = (reply q s).2 ∧
      Concludes errand.reader (reply q s).1 (errand.exchange.outcome reply s).1 := by
  obtain ⟨haddressed, hwritable⟩ := Option.filter_eq_some_iff.mp hquery
  rw [Errand.exchange_of_addressed haddressed, server_of_asking reply hwritable,
    result_of_heard reply hwritable]
  exact ⟨rfl, concludes_heard errand.reader haddress⟩

/-- An answer whose list of errors holds a text. -/
def strayEntry : Response := .json 422 (.object [("detail", .list [.text "x"])])

theorem errorList_strayEntry : errorList? strayEntry.body.bytes = some [.text "x"] := by
  have hplain : (Json.object [("detail", .list [.text "x"])]).Plain :=
    ⟨⟨⟨trivial, trivial⟩, trivial⟩, by simp⟩
  have hbytes : Json.ofBytes strayEntry.body.bytes =
      .ok (.object [("detail", .list [.text "x"])]) := Json.ofBytes_compact hplain rfl
  rw [errorList?, hbytes]
  rfl

/-- A client that asks for the threads of a post stumbles at such an answer. -/
theorem concludes_of_query_stray :
    ∃ q, (Errand.threads "p").query? = some q ∧ Reply.ofResponse strayEntry ≠ .badAddress ∧
      ((Errand.threads "p").exchange.outcome (fun _ u => (.ofResponse strayEntry, u)) ()).1 =
        .error .entryNotObject := by
  have hquery : (Errand.threads "p").query?.isSome = true := by decide
  obtain ⟨q, hq⟩ := Option.isSome_iff_exists.mp hquery
  have haddress : Reply.ofResponse strayEntry ≠ .badAddress := Reply.noConfusion
  have hconcludes := (concludes_of_query (fun _ u => (.ofResponse strayEntry, u)) () hq haddress).2
  exact ⟨q, hq, haddress, hconcludes.stumbled _
    (.intro rfl errorList_strayEntry (.entry List.mem_cons_self fun _ => Json.noConfusion))⟩

end CommentThreads.Client
