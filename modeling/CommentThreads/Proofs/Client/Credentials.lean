/-
CommentThreads.Proofs.Client.Credentials — the password of a comment, on its way into
the store and on its way to the check.

* `lockedWith_replyOf_create` — a request for a new comment leaves all comments as they
  were, or one more, which is locked with the hash of the password as it was sent.
* `admits_iff` — from then on the check lets through whoever comes with a password that
  this hash accepts.
* `update_denied`, `delete_denied` — what a client hears if its password is not let
  through; the service is left as it was.
-/
import CommentThreads.Proofs.Client.Passwords
import CommentThreads.Proofs.Record.Sendable
import CommentThreads.Proofs.Store.Access

namespace CommentThreads.Client

open CommentThreads.Http CommentThreads.Server CommentThreads.Store CommentThreads.Text

variable {σ : Type} [KeyValue σ] [Viewed σ]

/-! ## The lock of a new comment -/

/-- The comments are as they were, or there is one more, by an author who can be written,
locked with the hash of a password. -/
def LockedWith (salt password : String) (l : Ledger) (after : Site σ) : Prop :=
  Keeps after.store l ∨ ∃ c stored, c.author.isPlain = true ∧
    Password.hash? salt password = some stored ∧ Keeps after.store (⟨c, some stored⟩ :: l)

section Locking

variable [TakesAll σ] {site : Site σ} {l : Ledger} {password : String}

/-- Creating a comment locks it, if it comes to that. -/
theorem lockedWith_create (config : Config) (hl : Keeps site.store l) (hne : password ≠ "")
    (hsalt : (Password.Salt.ofText? config.salt).isSome = true) (post message : RawText)
    {author : Option RawText} (hauthor : ∀ name ∈ author, name.isPlain = true)
    (parent : Option RawText) :
    LockedWith config.salt password l
      ((Store.create config post message author (some (password : RawText)) parent).outcome
        site).2 := by
  have hkept := (create_refines config post message author (some (password : RawText)) parent site
    ⟨l, site.supply⟩ ⟨hl, rfl⟩).2.store
  rcases Ledger.create_cases config post message author (some (password : RawText)) parent
    ⟨l, site.supply⟩
    with ⟨fault, -, hstore⟩ | ⟨c, hnew, -, hstore⟩
  · rw [hstore] at hkept
    exact .inl hkept
  · have hgiven : given (some (password : RawText)) = some ↑password := by
      simp [given, RawText.nonEmpty?, hne]
    have hplain : ∀ text ∈ some (password : RawText), text.isPlain = true := by simp
    obtain ⟨salt, hparsed⟩ := Option.isSome_iff_exists.mp hsalt
    have hhash : Password.hash? config.salt password =
        some (Password.hashBytes salt (Password.passwordBytes password)) := by
      rw [Password.hash?_plain, hparsed, Option.map_some]
    rw [hstore, lockFor_of_accepted hsalt hplain, hgiven, Option.bind_some, hhash] at hkept
    exact .inr ⟨c, _, hnew.isPlain_author hauthor, hhash, hkept⟩

/-- The author of a new comment that is sent is a string, if there is one: what is read
as a text was sent as one. -/
theorem isPlain_author_of_brings {method : String} {target : Target} {host post message : String}
    {author : Json} (hauthor : author.isSendable = true) {parent : Option String} {c : NewComment}
    (h : Brings (Query.toRequest ⟨method, target, some (NewComment.body post author
      (.text password) message (parent.map .plain))⟩ host) NewComment.reader c) :
    ∀ name ∈ c.author, name.isPlain = true := by
  intro name hname
  obtain ⟨body, hbody, hread⟩ := h
  have hsendable : (NewComment.body post author (.text password) message
      (parent.map .plain)).isSendable = true := by
    rw [NewComment.isSendable_body, hauthor]
    rfl
  have hvalue := (bodyValue_toRequest method target host hsendable).symm.trans hbody
  change (Json.reread (NewComment.body post author (.text password) message
    (parent.map .plain))).elim _ Except.ok = .ok body at hvalue
  rw [reread_body] at hvalue
  cases hauthor_read : Json.reread author with
  | none =>
    rw [hauthor_read] at hvalue
    cases hvalue
  | some given =>
    rw [hauthor_read] at hvalue
    cases hvalue
    have hfield := NewComment.field?_author (valid_of_ofBody hread) hname
    simp only [NewComment.body, Json.field?, Entries.get?] at hfield
    rw [Json.eq_text_of_reread (hauthor_read.trans (by simpa using hfield))] at hauthor
    exact hauthor

/-- Whatever else a request for a new comment says, the comment is locked, if it comes
to that. -/
theorem lockedWith_replyOf_create (s : Service) (host : String) (hl : Keeps site.store l)
    (hne : password ≠ "") (hsalt : (Password.Salt.ofText? s.salt).isSome = true)
    (post message : String) {author : Json} (hauthor : author.isSendable = true)
    (parent : Option String) :
    LockedWith s.salt password l (replyOf s host ⟨"POST", commentsTarget,
      some (NewComment.body post author (.text password) message (parent.map .plain))⟩ site).2 := by
  let r := Query.toRequest ⟨"POST", commentsTarget,
    some (NewComment.body post author (.text password) message (parent.map .plain))⟩ host
  -- the request is compared with itself, and the relation looks at one of the sites
  let R : Site σ → Site σ → Prop := fun _ after => LockedWith s.salt password l after
  have hunchanged : R site site := .inl hl
  have hresource (resource : Resource) :
      Matches R ((atResource s r resource).run site) ((atResource s r resource).run site) := by
    cases resource with
    | comment hash => exact matches_return hunchanged _
    | comments =>
      refine matches_withBody hunchanged
        (readAlike_newComment post message author parent hauthor _ _ password password) ?_
      rintro - c _ hbrings - ⟨hpassword, rfl⟩
      refine matches_postComment hunchanged c ?_
      rw [hpassword]
      exact ⟨rfl, lockedWith_create s.config hl hne hsalt _ _
        (isPlain_author_of_brings hauthor hbrings) _⟩
  have hmatches : Matches R ((respond s r).run site) ((respond s r).run site) :=
    matches_respond_body hunchanged fun _ resource _ => hresource resource
  exact hmatches.after

end Locking

/-! ## The check -/

section Checking

variable [TakesAll σ] {site : Site σ} {l : Ledger} {c : Comment} {stored given : String}

theorem authorize_locked (c : Comment) (stored given : String) (l : Ledger) :
    Ledger.authorize c.hash given (⟨c, some stored⟩ :: l) =
      if Ledger.opens given stored then .ok c else .error (.wrongPassword c.hash) := by
  rw [Ledger.authorize, Ledger.posting?_cons, if_pos rfl]
  rfl

/-- The check lets through what the hash accepts. -/
theorem admits_iff (hl : Keeps site.store (⟨c, some stored⟩ :: l)) (given : String) :
    (∃ found, ((Store.authorize c.hash given).outcome site).1 = .ok found) ↔
      Accepts stored given := by
  rw [outcome_authorize hl, authorize_locked, ← opens_iff]
  cases Ledger.opens given stored <;> simp

/-- Nothing is done for one who is not let through. -/
theorem update_of_refused {hash message : RawText} {fault : Store.Fault} (hl : Keeps site.store l)
    (hrefused : Ledger.authorize hash given l = .error fault) :
    (Store.update hash given message).outcome site = (.error fault, site) := by
  rw [Store.update, Store.outcome_bind (outcome_authorize hl hash given), hrefused]

theorem delete_of_refused {hash : RawText} {fault : Store.Fault} (hl : Keeps site.store l)
    (hrefused : Ledger.authorize hash given l = .error fault) :
    (Store.delete hash given).outcome site = (.error fault, site) := by
  rw [Store.delete, Store.outcome_bind (outcome_authorize hl hash given), hrefused]

end Checking

/-! ## What a client hears -/

section Hearing

/-- What an answer says is why the exchange is refused. -/
theorem outcome_said {τ α : Type} {reply : Query → τ → Reply × τ} {q : Query} {read : FieldReader α}
    {before after : τ} {status : Nat} {message : String} (hwritable : q.isWritable = true)
    (h : reply q before = (.ofResponse (.detail status message), after))
    (hstatus : isError status = true) (hsaid : message ≠ "") :
    Exchange.outcome reply (send q >>= receive read) before =
      (.error (.refused (.text message) (some status)), after) := by
  have hplain : (Json.text message).Plain := trivial
  have hgiven : (Json.text message).isGiven = true := by simp [Json.isGiven, hsaid]
  have hdetail : errorDetail status (Response.detail status message).body.bytes =
      .ok (.text message) := by
    rw [Response.detail, errorDetail_json status hplain rfl]
    change (.ok (if (Json.text message).isGiven = true then _ else _) : Except Fault Json) = _
    rw [if_pos hgiven]
  exact outcome_refused hwritable h hstatus hdetail

variable {s : Service} {host hash password : String} {site : Site σ} {fault : Store.Fault}

/-- A client whose password is not let through is told so. -/
theorem update_denied (h : Ready s host site) {message : String}
    (hmessage : isBlankText message = false) (hfits : fits s.settings message = true)
    (hdenied : (Store.update hash password message).outcome site =
      (.error (.wrongPassword hash), site)) :
    (Client.update (.text hash) (.text password) message).outcome (replyOf s host) site =
      (.error (.refused (.text "Invalid password") (some 401)), site) := by
  let asked : Edit := ⟨hash, password, message⟩
  have hsendable : asked.toJson.isSendable = true := asked.isSendable_toJson rfl rfl rfl
  have hsends : Sends s host ⟨"PUT", commentsTarget, some asked.toJson⟩ Edit.reader
      (putComment s) _ _ :=
    ⟨rfl, carries_toRequest h.goesBy h.hasStore rfl (by simp) rfl hsendable, asked.plain_toJson,
      rfl⟩
  have hread : Edit.reader asked.toJson = .valid asked := by
    rcases Edit.reader_cases hsendable with ⟨-, hread⟩ | ⟨hblank, -⟩
    · exact hread
    · exact absurd (hmessage.symm.trans hblank) Bool.false_ne_true
  have hnext : (putComment s asked).run site = (some (.detail 401 "Invalid password"), site) := by
    rw [putComment, withinLimit_of_fits hfits, run_map, run_answer hdenied]
    rfl
  exact outcome_said hsendable (replyOf_handled hsends hread hnext rfl) rfl (by decide)

theorem delete_denied (h : Ready s host site)
    (hdenied : (Store.delete hash password).outcome site = (.error (.wrongPassword hash), site)) :
    (Client.delete (.text hash) (.text password)).outcome (replyOf s host) site =
      (.error (.refused (.text "Invalid password") (some 401)), site) := by
  have hsends := sends_removal h.goesBy h.hasStore hash password
  have hnext : (deleteComment ⟨hash, password⟩).run site =
      (some (.detail 401 "Invalid password"), site) := by
    rw [deleteComment, run_map, run_answer hdenied]
    rfl
  exact outcome_said rfl
    (replyOf_handled hsends (Removal.reader_toJson ⟨hash, password⟩) hnext rfl) rfl (by decide)

end Hearing

end CommentThreads.Client
