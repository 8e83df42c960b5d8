/-
CommentThreads.Proofs.Server.Records — what every stored comment is like, and when a
message is too large.

* `Proper` — what is so of every stored comment: its message is a string that says
  something, within the limit; it names a post and an author; what it answers, if
  anything, has a hash.
* `Edited` — an edit of the comment has succeeded, and its record has been there ever
  since. A comment that is removed takes its edits with it, so that one which is given
  the same hash later has none.

`records_of_serve` is the result: after any requests every record is that of a proper
comment, which shows the time of an edit exactly if it was edited; and a new comment or
an edit that can be read is answered with 413 exactly if its message is too large.
-/
import CommentThreads.Proofs.Client.Agreement
import CommentThreads.Proofs.Server.Changes
import CommentThreads.Proofs.Store.Threads
import CommentThreads.Proofs.Text.Blank

namespace CommentThreads.Server

open CommentThreads.Http CommentThreads.Store CommentThreads.Text CommentThreads.Time

/-! ## Comments that are in order -/

/-- The most bytes that a message may have. -/
def messageLimit (settings : Settings) : Int := settings.maxMessageKb * 1024

/-- A comment that says something within the limit, and names a post, an author, and
what it answers if it answers anything. -/
structure Proper (settings : Settings) (c : Comment) : Prop where
  message_eq : ∃ message : String, c.message = message ∧ strip message ≠ "" ∧
    ((utf8 message).length : Int) ≤ messageLimit settings
  post_ne : c.post ≠ ""
  author_ne : c.author ≠ ""
  parent_ne : c.parent ≠ some ("" : RawText)

theorem fits_iff_le (settings : Settings) (message : String) :
    fits settings message = true ↔ ((utf8 message).length : Int) ≤ messageLimit settings :=
  decide_eq_true_iff

/-- What a new comment answers has a hash: it was asked for by that hash, or is named by
the answer that was asked for. -/
theorem ne_empty_of_attachGiven {post : RawText} {parent : Option RawText}
    {comments : List Comment} {resolved : Option RawText}
    (h : Ledger.attachGiven post parent comments = .ok resolved) :
    resolved ≠ some ("" : RawText) := by
  unfold Ledger.attachGiven at h
  cases hgiven : given parent with
  | none =>
    rw [hgiven] at h
    cases h
    exact nofun
  | some named =>
    simp only [hgiven] at h
    cases hattach : Ledger.attach post named comments with
    | error fault =>
      rw [hattach] at h
      cases h
    | ok root =>
      rw [hattach] at h
      cases h
      rintro ⟨⟩
      obtain ⟨c, hfound, -, ⟨-, hhash⟩ | ⟨hreply, root, hroot, -, hhash⟩⟩ := attach_eq_ok hattach
      · exact (Ledger.given_eq_some_iff.mp hgiven).2
          ((Ledger.hash_of_withHash? hfound).symm.trans hhash.symm)
      · have hparent := (Ledger.hash_of_withHash? hroot).symm.trans hhash.symm
        rw [Comment.isRoot, hparent] at hreply
        cases hreply

theorem author_ne_empty {author : Option RawText} {default : String} (h : default ≠ "") :
    (given author).getD default ≠ "" := by
  cases hgiven : given author with
  | none => exact fun hempty => h (RawText.plain.inj hempty)
  | some name => exact (Ledger.given_eq_some_iff.mp hgiven).2

/-- A new comment that was asked for in order is proper. -/
theorem proper_of_isNew {settings : Settings} (hauthor : settings.defaultAuthor ≠ "") {r : Request}
    {asked : NewComment} (hbrings : Brings r NewComment.reader asked) {message : String}
    (hmessage : asked.message = message) (hfits : fits settings message = true) {supply : Supply}
    {earlier : List Comment} {c : Comment} (hnew : Ledger.IsNew settings.defaultAuthor asked.post
      asked.message asked.author asked.parent supply earlier c) : Proper settings c := by
  obtain ⟨body, -, hbody⟩ := hbrings
  obtain ⟨⟨post, hpost, hne⟩, hblank⟩ := NewComment.fit_of_reader (valid_of_ofBody hbody)
  rw [hmessage] at hblank
  constructor
  · exact ⟨message, hnew.message_eq.trans hmessage, (strip_ne_empty_iff _).mpr hblank,
      (fits_iff_le _ _).mp hfits⟩
  · rw [hnew.post_eq, hpost]
    exact fun hempty => hne (RawText.plain.inj hempty)
  · rw [hnew.author_eq]
    exact author_ne_empty hauthor
  · exact ne_empty_of_attachGiven hnew.parent_eq

/-- So is a proper comment with a message that was asked for in order. -/
theorem proper_edited {settings : Settings} {r : Request} {e : Edit}
    (hbrings : Brings r Edit.reader e) {message : String} (hmessage : e.message = message)
    (hfits : fits settings message = true) (time : DateTime) {c : Comment}
    (h : Proper settings c) : Proper settings (Ledger.edited e.message time c) := by
  obtain ⟨body, -, hbody⟩ := hbrings
  have hblank := Edit.fit_of_reader (valid_of_ofBody hbody)
  rw [hmessage] at hblank
  exact ⟨⟨message, hmessage, (strip_ne_empty_iff _).mpr hblank, (fits_iff_le _ _).mp hfits⟩,
    h.post_ne, h.author_ne, h.parent_ne⟩

/-! ## Edits that succeeded -/

/-- There is a record under a hash. -/
def Recorded (site : Site Memory) (hash : RawText) : Prop :=
  site.store.valueAt? (recordKey hash) ≠ none

/-- A request, with the salt that is drawn for it, is an edit of the comment with a hash
and succeeds. -/
def Edits (settings : Settings) (site : Site Memory) (request : String × Request)
    (hash : RawText) : Prop :=
  request.2.method = "PUT" ∧ (∃ e, Brings request.2 Edit.reader e ∧ e.hash = hash) ∧
    ((respond ⟨settings, request.1, true⟩ request.2).run site).1.status = 200

/-- One of some requests was an edit of the comment with a hash and succeeded, and since
then there has always been a record of the comment. -/
def Edited (settings : Settings) (start : Site Memory) (requests : List (String × Request))
    (hash : RawText) : Prop :=
  ∃ before request after, requests = before ++ request :: after ∧
    Edits settings (Client.serve settings before start) request hash ∧
    ∀ more, more <+: after → Recorded (Client.serve settings (before ++ request :: more) start) hash

section Edited

variable {settings : Settings} {start : Site Memory} {requests : List (String × Request)}
  {hash : RawText}

theorem recorded_of_edited (h : Edited settings start requests hash) :
    Recorded (Client.serve settings requests start) hash := by
  obtain ⟨before, request, after, rfl, -, hkept⟩ := h
  exact hkept after (List.prefix_refl after)

/-- With one more request a comment is edited if it was before or is now, and if it is
still there. -/
theorem edited_concat (request : String × Request) :
    Edited settings start (requests ++ [request]) hash ↔
      (Edited settings start requests hash ∨
        Edits settings (Client.serve settings requests start) request hash) ∧
      Recorded (Client.serve settings (requests ++ [request]) start) hash := by
  constructor
  · intro h
    refine ⟨?_, recorded_of_edited h⟩
    obtain ⟨before, edit, after, hsplit, hedits, hkept⟩ := h
    rcases List.eq_nil_or_concat after with rfl | ⟨after, last, rfl⟩
    · obtain ⟨rfl, hlast⟩ := List.append_inj' hsplit rfl
      cases hlast
      exact .inr hedits
    · rw [List.concat_eq_append, ← List.cons_append, ← List.append_assoc] at hsplit
      obtain ⟨rfl, -⟩ := List.append_inj' hsplit rfl
      refine .inl ⟨before, edit, after, rfl, hedits, fun more hmore => hkept more ?_⟩
      rw [List.concat_eq_append]
      exact hmore.trans (List.prefix_append after [last])
  · rintro ⟨⟨before, edit, after, rfl, hedits, hkept⟩ | hedits, hrecorded⟩
    · refine ⟨before, edit, after ++ [request], by simp, hedits, fun more hmore => ?_⟩
      rcases List.prefix_concat_iff.mp hmore with rfl | hmore
      · simpa using hrecorded
      · exact hkept more hmore
    · refine ⟨requests, request, [], rfl, hedits, fun more hmore => ?_⟩
      rw [List.prefix_nil.mp hmore]
      exact hrecorded

end Edited

/-! ## After any requests -/

section Requests

variable {settings : Settings} {start : Site Memory} {requests : List (String × Request)}

/-- Every comment that is kept is proper, and shows the time of an edit exactly if it was
edited. -/
def AllProper (settings : Settings) (start : Site Memory) (requests : List (String × Request))
    (comments : List Comment) : Prop :=
  ∀ c ∈ comments, Proper settings c ∧
    (c.updated = none ↔ ¬Edited settings start requests c.hash)

theorem recorded_iff {site : Site Memory} {l : Ledger} (h : Keeps site.store l) {hash : RawText} :
    Recorded site hash ↔ ∃ c ∈ l.comments, c.hash = hash := by
  have hrecord : site.store.valueAt? (recordKey hash) = _ := h.record hash
  rw [Recorded, hrecord, Ne, Option.map_eq_none_iff, Ledger.withHash?_eq_none_iff, not_not,
    List.mem_map]

theorem brings_unique {α : Type} {r : Request} {read : FieldReader α} {a b : α}
    (ha : Brings r read a) (hb : Brings r read b) : a = b := by
  obtain ⟨v, hv, ha⟩ := ha
  obtain ⟨w, hw, hb⟩ := hb
  cases hv.symm.trans hw
  exact Except.ok.inj (ha.symm.trans hb)

/-- A request that is answered keeps every comment proper, and a comment is edited with
it exactly if the request edits it. -/
theorem allProper_concat (hauthor : settings.defaultAuthor ≠ "") {t : Site Ledger}
    (ht : KeepsAt (Client.serve settings requests start) t)
    (hletters : ∀ c ∈ t.store.comments, Lettered c)
    (h : AllProper settings start requests t.store.comments) (request : String × Request) :
    ∃ t', KeepsAt (Client.serve settings (requests ++ [request]) start) t' ∧
      (∀ c ∈ t'.store.comments, Lettered c) ∧
      AllProper settings start (requests ++ [request]) t'.store.comments := by
  obtain ⟨t', ht', hchanges⟩ :=
    accounts_respond ⟨settings, request.1, true⟩ request.2 _ t ht hletters
  rw [← Client.serve_concat] at ht'
  refine ⟨t', ht', hchanges.lettered hletters, ?_⟩
  have hkept {c : Comment} (hc : c ∈ t.store.comments) (hc' : c ∈ t'.store.comments)
      (hnot : ¬Edits settings (Client.serve settings requests start) request c.hash) :
      Proper settings c ∧
        (c.updated = none ↔ ¬Edited settings start (requests ++ [request]) c.hash) := by
    obtain ⟨hproper, hupdated⟩ := h c hc
    have hrecorded := (recorded_iff ht'.store).mpr ⟨c, hc', rfl⟩
    refine ⟨hproper, ?_⟩
    rw [edited_concat, and_iff_left hrecorded, or_iff_left hnot]
    exact hupdated
  have hother {method : String} (hmethod : request.2.method = method) (hne : method ≠ "PUT")
      (hash : RawText) : ¬Edits settings (Client.serve settings requests start) request hash :=
    fun hedits => hne (hmethod.symm.trans hedits.1)
  intro c hc
  generalize hstore : t'.store = after at hchanges
  cases hchanges with
  | kept hnot =>
    refine hkept (hstore ▸ hc) hc fun hedits => ?_
    exact hnot hedits.1 hedits.2.2
  | @added asked message new lock hmethod hbrings hmessage hfits hnew =>
    have hnone := hother hmethod (by decide)
    have hmem := hc
    rw [hstore] at hmem
    rcases List.mem_cons.mp hmem with rfl | hold
    · refine ⟨proper_of_isNew hauthor hbrings hmessage hfits hnew, ?_⟩
      rw [edited_concat]
      refine iff_of_true hnew.updated_eq ?_
      rintro ⟨hedited | hedits, -⟩
      · have hfresh := Ledger.withHash?_of_drawHash (Prod.ext hnew.hash_eq rfl)
        obtain ⟨d, hd, hhash⟩ := (recorded_iff ht.store).mp (recorded_of_edited hedited)
        exact Ledger.withHash?_eq_none_iff.mp hfresh (List.mem_map.mpr ⟨d, hd, hhash⟩)
      · exact hnone _ hedits
    · exact hkept hold hc (hnone _)
  | @edited e message time hmethod hstatus hbrings hmessage hfits =>
    have hmem := hc
    rw [hstore, Ledger.comments_edit] at hmem
    obtain ⟨old, hold, rfl⟩ := List.mem_map.mp hmem
    by_cases hhash : old.hash = e.hash
    · simp only [hhash, if_true] at hc ⊢
      refine ⟨proper_edited hbrings hmessage hfits time (h old hold).1, ?_⟩
      rw [edited_concat]
      refine iff_of_false nofun
        (not_not_intro ⟨.inr ⟨hmethod, ⟨e, hbrings, hhash.symm⟩, hstatus⟩, ?_⟩)
      exact (recorded_iff ht'.store).mpr ⟨_, hc, rfl⟩
    · simp only [hhash, if_false] at hc ⊢
      refine hkept hold hc fun hedits => ?_
      obtain ⟨-, ⟨e', hbrings', hhash'⟩, -⟩ := hedits
      rw [brings_unique hbrings' hbrings] at hhash'
      exact hhash hhash'.symm
  | removed hash hmethod =>
    have hmem := hc
    rw [hstore, Ledger.comments_remove] at hmem
    exact hkept (List.mem_filter.mp hmem).1 hc (hother hmethod (by decide) _)

theorem allProper_serve (hauthor : settings.defaultAuthor ≠ "") (supply : Supply)
    (requests : List (String × Request)) :
    ∃ t, KeepsAt (Client.serve settings requests ⟨Memory.empty, supply⟩) t ∧
      (∀ c ∈ t.store.comments, Lettered c) ∧
      AllProper settings ⟨Memory.empty, supply⟩ requests t.store.comments := by
  induction requests using List.reverseRecOn with
  | nil =>
    exact ⟨⟨[], supply⟩, ⟨keeps_nil (fun _ => rfl) (fun _ => rfl), rfl⟩, List.forall_mem_nil _,
      List.forall_mem_nil _⟩
  | append_singleton requests request ih =>
    obtain ⟨t, ht, hletters, hproper⟩ := ih
    exact allProper_concat hauthor ht hletters hproper request

end Requests

/-! ## Messages that are too large -/

section Large

variable {σ : Type} [KeyValue σ] {s : Service} {r : Request} {α : Type} {read : FieldReader α}
  {next : α → Program Outcome} {site : Site σ}

/-- A request that can be read is answered with the status of what its handler gives. -/
theorem status_of_brings (h : Addressed s r) (hstore : s.hasStore = true)
    (hresource : atResource s r .comments = withBody s r read next) {a : α}
    (hbrings : Brings r read a) :
    ((respond s r).run site).1.status = statusOfOutcome ((next a).run site).1 := by
  obtain ⟨body, hbody, hread⟩ := hbrings
  have hanswer : (atResource s r .comments).run site = (next a).run site := by
    rw [hresource, withBody, hbody]
    simp only [withStore, hstore, if_true, hread, orAnswer]
  rw [respond_addressed h hanswer, status_sent_eq]

/-- A message is a string with more bytes than the limit. -/
def IsLarge (settings : Settings) (message : RawText) : Prop :=
  ∃ m : String, message = m ∧ messageLimit settings < (utf8 m).length

theorem statusOfOutcome_ne_large {a : Response} (h : a.status ≠ 413) :
    statusOfOutcome (some a) ≠ 413 := by
  rw [statusOfOutcome]
  split
  · exact h
  · decide

/-- A handler that looks at the size of a message answers 413 exactly if it is too
large. -/
theorem tooLarge_iff {operation : Action α} {good : α → Response} {bad : Fault → Response}
    {settings : Settings} (message : RawText) (hgood : ∀ a, (good a).status ≠ 413)
    (hbad : ∀ fault, (bad fault).status ≠ 413) :
    statusOfOutcome ((withinLimit settings message (answer operation good bad)).run site).1 = 413 ↔
      IsLarge settings message := by
  cases message with
  | torn m half rest =>
    refine iff_of_false (show (500 : Nat) ≠ 413 by decide) ?_
    rintro ⟨m, hm, -⟩
    cases hm
  | plain m =>
    have hlarge : IsLarge settings m ↔ ¬fits settings m = true := by
      simp [IsLarge, fits_iff_le]
    rw [withinLimit_plain, hlarge]
    split
    next hfits =>
      refine iff_of_false ?_ (not_not_intro hfits)
      rw [run_map, run_answer (Prod.eta _).symm]
      cases (operation.outcome site).1 with
      | ok a => exact statusOfOutcome_ne_large (hgood a)
      | error fault => exact statusOfOutcome_ne_large (hbad fault)
    next hlarge => exact iff_of_true rfl hlarge

theorem status_post_large_iff (h : Addressed s r) (hstore : s.hasStore = true)
    (hmethod : r.method = "POST") {asked : NewComment}
    (hbrings : Brings r NewComment.reader asked) :
    ((respond s r).run site).1.status = 413 ↔
      IsLarge s.settings asked.message := by
  have hresource : atResource s r .comments = withBody s r NewComment.reader (postComment s) := by
    simp only [atResource, hmethod]
  rw [status_of_brings h hstore hresource hbrings]
  refine tooLarge_iff asked.message (fun _ => of_decide_eq_true rfl) fun fault => ?_
  cases fault <;> exact of_decide_eq_true rfl

theorem status_put_large_iff (h : Addressed s r) (hstore : s.hasStore = true)
    (hmethod : r.method = "PUT") {e : Edit} (hbrings : Brings r Edit.reader e) :
    ((respond s r).run site).1.status = 413 ↔
      IsLarge s.settings e.message := by
  have hresource : atResource s r .comments = withBody s r Edit.reader (putComment s) := by
    simp only [atResource, hmethod]
  rw [status_of_brings h hstore hresource hbrings]
  refine tooLarge_iff e.message (fun _ => of_decide_eq_true rfl) fun fault => ?_
  cases fault <;> exact of_decide_eq_true rfl

end Large

/-! ## The result -/

/-- What is so once a service has answered some requests. Each record is that of a proper
comment, which has a time of its last edit exactly if it was edited; and a new comment or
an edit in order is refused for its size exactly if its message is over the limit. -/
structure InOrder (settings : Settings) (start : Site Memory)
    (requests : List (String × Request)) : Prop where
  records : ∀ hash record,
    (Client.serve settings requests start).store.valueAt? (recordKey hash) = some record →
      ∃ c : Comment, record = c.toJson ∧ c.hash = hash ∧ Proper settings c ∧
        (c.updated = none ↔ ¬Edited settings start requests hash)
  post_large : ∀ salt r asked, Addressed ⟨settings, salt, true⟩ r → r.method = "POST" →
    Brings r NewComment.reader asked →
      (((respond ⟨settings, salt, true⟩ r).run (Client.serve settings requests start)).1.status =
          413 ↔ IsLarge settings asked.message)
  put_large : ∀ salt r e, Addressed ⟨settings, salt, true⟩ r → r.method = "PUT" →
    Brings r Edit.reader e →
      (((respond ⟨settings, salt, true⟩ r).run (Client.serve settings requests start)).1.status =
          413 ↔ IsLarge settings e.message)

/-- Whatever a service is asked, its records are in order. -/
theorem records_of_serve {settings : Settings} (hauthor : settings.defaultAuthor ≠ "")
    (supply : Supply) (requests : List (String × Request)) :
    InOrder settings ⟨Memory.empty, supply⟩ requests where
  records hash record hrecord := by
    obtain ⟨t, ht, -, hproper⟩ := allProper_serve hauthor supply requests
    have hkept : Option.map Comment.toJson _ = some record :=
      (ht.store.record hash).symm.trans hrecord
    obtain ⟨c, hc, rfl⟩ := Option.map_eq_some_iff.mp hkept
    obtain rfl := Ledger.hash_of_withHash? hc
    exact ⟨c, rfl, rfl, hproper c (Ledger.mem_of_withHash? hc)⟩
  post_large _ _ _ h hmethod hbrings := status_post_large_iff h rfl hmethod hbrings
  put_large _ _ _ h hmethod hbrings := status_put_large_iff h rfl hmethod hbrings

/-- A comment and an answer to it, of which the first names no author, and a message of
white space only, which is not stored. -/
theorem records_of_serve_answered :
    let supply : Supply := ⟨fun n => if n = 0 then "0a1b2c3d" else "4e5f6071", fun _ => 0, 0, 0⟩
    let request (asked : NewComment) : String × Request :=
      ("$2b$04$abcdefghijklmnopqrstuu",
        Client.Query.toRequest ⟨"POST", Client.commentsTarget, some asked.toJson⟩ "localhost")
    let requests := [request ⟨"intro", none, none, "Hello", none⟩,
      request ⟨"intro", some "Ann", none, "Hi", some "0a1b2c3d"⟩,
      request ⟨"intro", none, none, "\u2003\n", none⟩]
    Settings.standard.defaultAuthor ≠ "" ∧
      Recorded (Client.serve Settings.standard requests ⟨Memory.empty, supply⟩) "4e5f6071" ∧
      InOrder Settings.standard ⟨Memory.empty, supply⟩ requests := by
  intro supply request requests
  have hauthor : Settings.standard.defaultAuthor ≠ "" := by decide
  exact ⟨hauthor, Option.isSome_iff_ne_none.mp (by decide +kernel),
    records_of_serve hauthor supply requests⟩

end CommentThreads.Server
