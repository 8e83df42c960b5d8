/-
CommentThreads.Proofs.Client.Passwords — what comes back from a service does not tell
which password was sent.

* `result_replyOf_create` — a new comment is answered the same whatever its password is.
* `replyOf_update`, `replyOf_delete` — an edit or a removal is answered the same, and
  leaves the same behind, if the check that it comes to has the same outcome.

The author of a new comment may be any value: where it is no text, that is complained
about in the answer, and no complaint shows the password beside it.
-/
import CommentThreads.Proofs.Client.Agreement
import CommentThreads.Proofs.Server.Verdict

namespace CommentThreads.Client

open CommentThreads.Http CommentThreads.Server CommentThreads.Store CommentThreads.Text

/-! ## Bodies -/

section Bodies

variable (method : String) (target : Target) (host : String)

/-- What the service finds in the body of a request that carries an object. -/
theorem bodyValue_toRequest {entry : RawText × Json} {entries : List (RawText × Json)}
    (hsendable : (Json.object (entry :: entries)).isSendable = true) :
    bodyValue (Query.toRequest ⟨method, target, some (.object (entry :: entries))⟩ host) =
      (Json.reread (.object (entry :: entries))).elim (.error (.answered bodyUnreadable)) .ok := by
  let v := Json.object (entry :: entries)
  let r := Query.toRequest ⟨method, target, some v⟩ host
  have hbody : r.body = (Body.json v).bytes := rfl
  have hmore : r.body.isEmpty = false := rfl
  have hsays : saysJson r = true := by
    have htype : isJsonType "application/json" = true := by decide +kernel
    simp [r, saysJson, Query.toRequest, Headers.find?, htype]
  change bodyValue r = _
  rw [bodyValue, hmore, if_neg Bool.false_ne_true, if_pos hsays, hbody, Body.bytes,
    Json.ofBytes_object hsendable, Json.outcome]
  cases Json.reread (.object (entry :: entries)) <;> rfl

variable {α : Type} {read : FieldReader α} {entries : List (RawText × Json)}

omit method target host in
theorem ofBody_valid {a : α} (h : read (.object entries) = .valid a) :
    ofBody read (.object entries) = .ok a := by
  simp only [ofBody, FieldReader.record, h]

omit method target host in
theorem ofBody_invalid {errors : List FieldError} (h : read (.object entries) = .invalid errors) :
    ofBody read (.object entries) = .error (unprocessable (errors.map (entryOf "body"))) := by
  simp only [ofBody, FieldReader.record, h]

/-- A plain object that is sent is brought. -/
theorem brings_toRequest {entry : RawText × Json} {a : α}
    (hplain : (Json.object (entry :: entries)).Plain)
    (hsendable : (Json.object (entry :: entries)).isSendable = true)
    (hread : read (.object (entry :: entries)) = .valid a) :
    Brings (Query.toRequest ⟨method, target, some (.object (entry :: entries))⟩ host) read a := by
  refine ⟨.object (entry :: entries), ?_, ofBody_valid hread⟩
  rw [bodyValue_toRequest _ _ _ hsendable, Json.reread_of_plain _ hplain, Option.elim_some]

end Bodies

/-! ## A new comment -/

section Creating

variable (post message : String) (author : Json) (parent : Option String)

/-- What a reader makes of a new comment, in terms of its password. -/
theorem reader_body_password :
    (∃ errors, ∀ password : String, NewComment.reader
      (NewComment.body post author (.text password) message (parent.map .plain)) =
        .invalid errors) ∨
    ∃ c : NewComment, ∀ password : String, NewComment.reader
      (NewComment.body post author (.text password) message (parent.map .plain)) =
        .valid { c with password := some ↑password } := by
  let apart : Json := NewComment.body post author .null message (parent.map .plain)
  have hreader (password : String) :
      NewComment.reader
          (NewComment.body post author (.text password) message (parent.map .plain)) =
        NewComment.mk <$> FieldReader.required "post_id" .nonEmptyText apart
          <*> FieldReader.optional "author" .text apart <*> .valid (some ↑password)
          <*> FieldReader.required "message" .message apart
          <*> FieldReader.optional "parent_hash" .text apart := by
    simp only [NewComment.reader, FieldReader.required, FieldReader.optional, NewComment.body,
      apart, Json.field?, Entries.get?]
    rfl
  simp only [hreader]
  generalize FieldReader.required "post_id" .nonEmptyText apart = givenPost
  generalize FieldReader.optional "author" .text apart = givenAuthor
  generalize FieldReader.required "message" .message apart = givenMessage
  generalize FieldReader.optional "parent_hash" .text apart = givenParent
  cases givenPost <;> cases givenAuthor <;> cases givenMessage <;> cases givenParent <;>
    first
    | exact .inr ⟨⟨_, _, none, _, _⟩, fun _ => rfl⟩
    | exact .inl ⟨_, fun _ => rfl⟩

/-- What is read back of a new comment differs from it in the author at most. -/
theorem reread_body (password : String) :
    Json.reread (NewComment.body post author (.text password) message (parent.map .plain)) =
      (Json.reread author).map fun author =>
        NewComment.body post author (.text password) message (parent.map .plain) := by
  have hparent :
      Json.reread (.ofText? (parent.map .plain)) = some (.ofText? (parent.map .plain)) := by
    cases parent <;> rfl
  cases hauthor : Json.reread author with
  | none => simp [NewComment.body, Json.reread, Json.rereadEntries, hauthor]
  | some read =>
    simp only [NewComment.body, Json.reread, Json.rereadEntries, hauthor, hparent, Option.bind_some,
      Option.map_some, Json.ofEntries]
    rw [Entries.putAll_of_nodup (by simp [Entries.keys])]
    rfl

variable {σ : Type} [KeyValue σ] {s : Service} {site : Site σ} {host password password' : String}

/-- The service reads a new comment alike, whatever its password is. -/
theorem readAlike_newComment (hauthor : author.isSendable = true) (method : String)
    (target : Target) (password password' : String) :
    ReadAlike NewComment.reader (fun c c' => c.password = some ↑password ∧
        c' = { c with password := some ↑password' })
      (bodyValue (Query.toRequest ⟨method, target,
        some (NewComment.body post author (.text password) message (parent.map .plain))⟩ host))
      (bodyValue (Query.toRequest ⟨method, target,
        some (NewComment.body post author (.text password') message (parent.map .plain))⟩
          host)) := by
  have hbody (password : String) : bodyValue (Query.toRequest ⟨method, target,
        some (NewComment.body post author (.text password) message (parent.map .plain))⟩ host) =
      ((Json.reread author).map fun author =>
        NewComment.body post author (.text password) message (parent.map .plain)).elim
          (.error (.answered bodyUnreadable)) .ok := by
    have hsendable : (NewComment.body post author (.text password) message
        (parent.map .plain)).isSendable = true := by
      rw [NewComment.isSendable_body, hauthor]
      rfl
    rw [← reread_body]
    exact bodyValue_toRequest method target host hsendable
  rw [hbody, hbody]
  cases Json.reread author with
  | none => exact .unreadable _
  | some author =>
    rcases reader_body_password post message author parent with ⟨errors, hinvalid⟩ | ⟨c, hvalid⟩
    · exact .refused (ofBody_invalid (hinvalid password)) (ofBody_invalid (hinvalid password'))
    · exact .read (ofBody_valid (hvalid password)) (ofBody_valid (hvalid password')) ⟨rfl, rfl⟩

/-- What is answered to a new comment does not tell its password. -/
theorem result_replyOf_create (hauthor : author.isSendable = true) (hne : password ≠ "")
    (hne' : password' ≠ "") :
    (replyOf s host ⟨"POST", commentsTarget,
        some (NewComment.body post author (.text password) message (parent.map .plain))⟩ site).1 =
      (replyOf s host ⟨"POST", commentsTarget,
        some (NewComment.body post author (.text password') message (parent.map .plain))⟩
          site).1 := by
  have hgiven : GivenAlike (some (password : RawText)) (some (password' : RawText)) := by
    simp [GivenAlike, given, RawText.nonEmpty?, hne, hne']
  refine congrArg Reply.ofResponse (result_respond_newComment password' rfl ?_)
  exact (readAlike_newComment post message author parent hauthor _ _ password password').imp
    fun _ _ h => ⟨h.2, h.1 ▸ hgiven⟩

end Creating

/-! ## An edit and a removal -/

section Changing

theorem ne_empty {password : String} (h : password ≠ "") : (password : RawText) ≠ "" := by
  simpa using h

variable {σ : Type} [KeyValue σ] {s : Service} {site : Site σ}
  {host hash password password' : String}

/-- Two edits that differ in the password are answered the same, and leave the same, if
the check has the same outcome. -/
theorem replyOf_update (hne : password ≠ "") (hne' : password' ≠ "") {message : String}
    (hmessage : isBlankText message = false)
    (hverdict : requestVerdict s (Query.toRequest ⟨"PUT", commentsTarget,
          some (Edit.body (.text hash) (.text password) message)⟩ host) site =
        requestVerdict s (Query.toRequest ⟨"PUT", commentsTarget,
          some (Edit.body (.text hash) (.text password') message)⟩ host) site) :
    replyOf s host
        ⟨"PUT", commentsTarget, some (Edit.body (.text hash) (.text password) message)⟩ site =
      replyOf s host
        ⟨"PUT", commentsTarget, some (Edit.body (.text hash) (.text password') message)⟩ site := by
  have hplain : (password : RawText).isPlain = (password' : RawText).isPlain := rfl
  have hbrings (password : String) : Brings (Query.toRequest ⟨"PUT", commentsTarget,
      some (Edit.body (.text hash) (.text password) message)⟩ host) Edit.reader
        ⟨hash, password, message⟩ := by
    let asked : Edit := ⟨hash, password, message⟩
    have hsendable : asked.toJson.isSendable = true := asked.isSendable_toJson rfl rfl rfl
    refine brings_toRequest _ _ _ asked.plain_toJson hsendable ?_
    rcases Edit.reader_cases hsendable with ⟨-, hread⟩ | ⟨hblank, -⟩
    · exact hread
    · exact absurd (hmessage.symm.trans hblank) Bool.false_ne_true
  exact congrArg (fun run => (Reply.ofResponse run.1, run.2))
    (respond_edit_congr rfl (ne_empty hne) (ne_empty hne') hplain (hbrings password)
      (hbrings password') hverdict)

/-- So are two removals. -/
theorem replyOf_delete (hne : password ≠ "") (hne' : password' ≠ "")
    (hverdict : requestVerdict s (Query.toRequest ⟨"DELETE", commentsTarget,
          some (Removal.body (.text hash) (.text password))⟩ host) site =
        requestVerdict s (Query.toRequest ⟨"DELETE", commentsTarget,
          some (Removal.body (.text hash) (.text password'))⟩ host) site) :
    replyOf s host
        ⟨"DELETE", commentsTarget, some (Removal.body (.text hash) (.text password))⟩ site =
      replyOf s host
        ⟨"DELETE", commentsTarget, some (Removal.body (.text hash) (.text password'))⟩ site := by
  have hplain : (password : RawText).isPlain = (password' : RawText).isPlain := rfl
  have hbrings (password : String) : Brings (Query.toRequest ⟨"DELETE", commentsTarget,
      some (Removal.body (.text hash) (.text password))⟩ host) Removal.reader
        ⟨hash, password⟩ := by
    let asked : Removal := ⟨hash, password⟩
    exact brings_toRequest _ _ _ asked.plain_toJson (asked.isSendable_toJson rfl rfl)
      asked.reader_toJson
  exact congrArg (fun run => (Reply.ofResponse run.1, run.2))
    (respond_removal_congr rfl (ne_empty hne) (ne_empty hne') hplain (hbrings password)
      (hbrings password') hverdict)

/-! An edit or a removal that names no comment is complained about, and the complaint
shows no password beside it. -/

theorem replyOf_update_unnamed (password password' message : String) :
    replyOf s host ⟨"PUT", commentsTarget, some (Edit.body .null (.text password) message)⟩ site =
      replyOf s host ⟨"PUT", commentsTarget, some (Edit.body .null (.text password') message)⟩
        site := by
  let request (password : String) : Request :=
    Query.toRequest ⟨"PUT", commentsTarget, some (Edit.body .null (.text password) message)⟩ host
  have hvalue (password : String) :
      bodyValue (request password) = .ok (Edit.body .null (.text password) message) := by
    have hplain : (Edit.body .null (.text password) message).Plain :=
      ⟨⟨trivial, trivial, trivial, trivial⟩, by simp⟩
    have hreread := Json.reread_of_plain _ hplain
    rw [Edit.body] at hreread
    refine (bodyValue_toRequest _ _ _ rfl).trans ?_
    rw [hreread, Option.elim_some, Edit.body]
  obtain ⟨errors, herrors⟩ : ∃ errors, ∀ password : String,
      Edit.reader (Edit.body .null (.text password) message) = .invalid errors := by
    have hmessage := FieldReader.message_under "message" message
    simp only [Edit.reader, Edit.body, FieldReader.required, Json.field?, Entries.get?]
    simp only [reduceIte, RawText.plain.injEq, String.reduceEq, hmessage]
    cases isBlankText message <;> exact ⟨_, fun _ => rfl⟩
  have hread : ReadAlike Edit.reader (fun _ _ => False) (bodyValue (request password))
      (bodyValue (request password')) := by
    rw [hvalue, hvalue]
    exact .refused (ofBody_invalid (herrors password)) (ofBody_invalid (herrors password'))
  have hsame : (respond s (request password)).run site = (respond s (request password')).run site :=
    respond_refused_congr (show "PUT" ≠ "GET" by decide) (fun _ => rfl) hread
  exact congrArg (fun run => (Reply.ofResponse run.1, run.2)) hsame

theorem replyOf_delete_unnamed (password password' : String) :
    replyOf s host ⟨"DELETE", commentsTarget, some (Removal.body .null (.text password))⟩ site =
      replyOf s host ⟨"DELETE", commentsTarget, some (Removal.body .null (.text password'))⟩
        site := by
  let request (password : String) : Request :=
    Query.toRequest ⟨"DELETE", commentsTarget, some (Removal.body .null (.text password))⟩ host
  have hvalue (password : String) :
      bodyValue (request password) = .ok (Removal.body .null (.text password)) := by
    have hplain : (Removal.body .null (.text password)).Plain :=
      ⟨⟨trivial, trivial, trivial⟩, by simp⟩
    have hreread := Json.reread_of_plain _ hplain
    rw [Removal.body] at hreread
    refine (bodyValue_toRequest _ _ _ rfl).trans ?_
    rw [hreread, Option.elim_some, Removal.body]
  have herrors (password : String) : Removal.reader (Removal.body .null (.text password)) =
      .invalid [⟨.notText, [.key "commit_hash"], .null⟩] := by
    simp only [Removal.reader, Removal.body, FieldReader.required, Json.field?, Entries.get?]
    rfl
  have hread : ReadAlike Removal.reader (fun _ _ => False) (bodyValue (request password))
      (bodyValue (request password')) := by
    rw [hvalue, hvalue]
    exact .refused (ofBody_invalid (herrors password)) (ofBody_invalid (herrors password'))
  have hsame : (respond s (request password)).run site = (respond s (request password')).run site :=
    respond_refused_congr (show "DELETE" ≠ "GET" by decide) (fun _ => rfl) hread
  exact congrArg (fun run => (Reply.ofResponse run.1, run.2)) hsame

end Changing

end CommentThreads.Client
