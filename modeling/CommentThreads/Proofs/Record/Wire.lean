/-
CommentThreads.Proofs.Record.Wire — what client and service send each other is
read as it was meant.

* `NewComment.reader_cases`, `Edit.reader_cases`, `Removal.reader_toJson` — the
  service reads the request that the client made, or refuses a text in it:
  the only things wrong with a request of the client's are an empty post and a
  blank message (`RefusedText`).
* `Receipt.reader_toJson`, `Notice.reader_toJson`, `Listing.reader_toJson` — the
  client reads the answer that the service made, as it does `Detail.reader_toJson`.
  The dates in it have to be moments of the calendar, as those of stored comments
  are.
* `NewComment.fit_of_reader`, `Edit.fit_of_reader` — what the service reads names a
  post and says something.

Everything that is sent is `Plain`, so it also survives being written as JSON, if it can
be written at all: a listing can exactly if no text in it has a lone half of a surrogate
pair (`Listing.isSendable_toJson_iff`), and so can a comment by itself.
-/
import CommentThreads.Proofs.Json.RoundTrip
import CommentThreads.Proofs.Record.Stored
import CommentThreads.Record.Change
import CommentThreads.Record.Listing
import CommentThreads.Server.Complaints

namespace CommentThreads

open Json Text Server

theorem Json.plain_ofText? (s? : Option RawText) : (Json.ofText? s?).Plain := by
  cases s? <;> exact trivial

theorem Json.plain_list {items : List Json} (h : ∀ v ∈ items, v.Plain) :
    (Json.list items).Plain := by
  induction items with
  | nil => exact trivial
  | cons v rest ih =>
    exact ⟨h v List.mem_cons_self, ih fun w hw => h w (List.mem_cons_of_mem v hw)⟩

/-- A list can be sent if its items can. -/
theorem Json.isSendable_list {items : List Json} :
    (Json.list items).isSendable = true ↔ ∀ v ∈ items, v.isSendable = true := by
  rw [Json.isSendable]
  induction items with
  | nil => simp [Json.itemsSendable]
  | cons v rest ih => simp [Json.itemsSendable, ih]

/-- An object can be sent if its keys and values can. -/
theorem Json.isSendable_object {entries : List (RawText × Json)} :
    (Json.object entries).isSendable = true ↔
      ∀ entry ∈ entries, entry.1.isPlain = true ∧ entry.2.isSendable = true := by
  rw [Json.isSendable]
  induction entries with
  | nil => simp [Json.entriesSendable]
  | cons entry rest ih => simp [Json.entriesSendable, ih]

/-! ## What is wrong with a request -/

/-- A text in a request that is refused: an empty one, or a blank message. -/
inductive RefusedText : FieldError → Prop
  | empty (key s : String) : RefusedText ⟨.tooShort 1, [.key key], .text s⟩
  | blank (key s : String) : RefusedText ⟨.blankMessage, [.key key], .text s⟩

theorem RefusedText.isSendable_entryOf {e : FieldError} (h : RefusedText e) (source : String) :
    (entryOf source e).isSendable = true := by
  cases h <;> rfl

theorem RefusedText.plain_entryOf {e : FieldError} (h : RefusedText e) (source : String) :
    (entryOf source e).Plain := by
  cases h with
  | empty key s =>
    have hone : (decimal (Int.natAbs 1)).length ≤ mostDigits := by
      rw [decimal_of_lt (by decide)]
      decide
    refine ⟨⟨trivial, ⟨trivial, trivial, trivial⟩, trivial, trivial,
      ⟨⟨hone, trivial⟩, by simp⟩, trivial⟩, ?_⟩
    simp [complaintContext]
  | blank key s =>
    refine ⟨⟨trivial, ⟨trivial, trivial, trivial⟩, trivial, trivial,
      ⟨⟨⟨trivial, List.nodup_nil⟩, trivial⟩, by simp⟩, trivial⟩, ?_⟩
    simp [complaintContext]

/-- What is said in one text can be sent exactly if the text can. -/
theorem isSendable_detail (status : Nat) (message : RawText) :
    (Http.Response.detail status message).body.isSendable = message.isPlain := by
  simp [Http.Response.detail, Http.Response.json, Http.Body.isSendable, Json.isSendable,
    Json.entriesSendable]

/-- An answer to errors can be sent if each of them can. -/
theorem isSendable_unprocessable {entries : List Json} (h : ∀ v ∈ entries, v.isSendable = true) :
    (unprocessable entries).body.isSendable = true := by
  have hlist := Json.isSendable_list.mpr h
  simp [unprocessable, Http.Response.json, Http.Body.isSendable, Json.isSendable,
    Json.entriesSendable, ← hlist]

theorem FieldReader.nonEmptyText_under (key s : String) :
    (FieldReader.nonEmptyText (.text s)).under (.key key) =
      if s = "" then .invalid [⟨.tooShort 1, [.key key], .text s⟩] else .valid (s : RawText) := by
  rw [FieldReader.nonEmptyText]
  simp only [RawText.isPlain_plain, Bool.not_true, Bool.false_eq_true, if_false,
    RawText.plain.injEq]
  split <;> rfl

/-- A text that was read has a character, and no lone half. -/
theorem FieldReader.eq_plain_of_nonEmptyText {v : Json} {t : RawText}
    (h : FieldReader.nonEmptyText v = .valid t) : ∃ s : String, t = s ∧ s ≠ "" := by
  unfold FieldReader.nonEmptyText at h
  split at h
  · next t' =>
    split at h
    · cases h
    split at h
    · cases h
    · next hplain hne =>
      cases h
      obtain ⟨s, rfl⟩ := RawText.isPlain_iff.mp (by simpa using hplain)
      exact ⟨s, rfl, fun hempty => hne (congrArg RawText.plain hempty)⟩
  · cases h

theorem FieldReader.not_blank_of_message {v : Json} {s : RawText}
    (h : FieldReader.message v = .valid s) : s.isBlank = false := by
  unfold FieldReader.message at h
  split at h
  · split at h
    · cases h
    · next hblank =>
      cases h
      simpa using hblank
  · cases h

theorem FieldReader.message_under (key s : String) :
    (FieldReader.message (.text s)).under (.key key) =
      if isBlankText s then .invalid [⟨.blankMessage, [.key key], .text s⟩]
      else .valid (s : RawText) := by
  rw [FieldReader.message, RawText.isBlank]
  split <;> rfl

/-! ## Requests -/

namespace NewComment

theorem plain_toJson (c : NewComment) : c.toJson.Plain := by
  have hparent := plain_ofText? c.parent
  have hauthor := plain_ofText? c.author
  have hpassword := plain_ofText? c.password
  refine ⟨⟨trivial, hauthor, hpassword, trivial, hparent, trivial⟩, ?_⟩
  simp

/-- What asks for a new comment in strings can be sent if the author and the password can. -/
theorem isSendable_body (post message : String) (parent : Option String) (author password : Json) :
    (body post author password message (parent.map .plain)).isSendable =
      (author.isSendable && password.isSendable) := by
  have hparent : (Json.ofText? (parent.map .plain)).isSendable = true := by cases parent <;> rfl
  simp [body, isSendable, entriesSendable, hparent]

theorem isSendable_toJson (post message : String) (author password parent : Option String) :
    (toJson ⟨post, author.map .plain, password.map .plain, message,
      parent.map .plain⟩).isSendable = true := by
  rw [toJson, isSendable_body]
  cases author <;> cases password <;> rfl

theorem fields_toJson (c : NewComment) :
    c.toJson.field? "post_id" = some (.text c.post) ∧
      c.toJson.field? "author" = some (.ofText? c.author) ∧
      c.toJson.field? "password" = some (.ofText? c.password) ∧
      c.toJson.field? "message" = some (.text c.message) ∧
      c.toJson.field? "parent_hash" = some (.ofText? c.parent) := by
  simp [toJson, body, Json.field?, Entries.get?]

theorem isPlain_of_isSendable {c : NewComment} (h : c.toJson.isSendable = true) :
    ∃ post message : String, c.post = post ∧ c.message = message := by
  simp only [toJson, body, isSendable, entriesSendable, Bool.and_eq_true] at h
  obtain ⟨post, hpost⟩ := RawText.isPlain_iff.mp h.1.2
  obtain ⟨message, hmessage⟩ := RawText.isPlain_iff.mp h.2.2.2.1.2
  exact ⟨post, message, hpost, hmessage⟩

/-- A new comment that was sent is read as it is, or its post is empty or its message
blank. -/
theorem reader_cases {c : NewComment} (h : c.toJson.isSendable = true) :
    (c.post ≠ "" ∧ c.message.isBlank = false ∧ reader c.toJson = .valid c) ∨
      ((c.post = "" ∨ c.message.isBlank = true) ∧
        ∃ errors, (∀ e ∈ errors, RefusedText e) ∧ reader c.toJson = .invalid errors) := by
  obtain ⟨hfpost, hfauthor, hfpassword, hfmessage, hfparent⟩ := fields_toJson c
  have hauthor := FieldReader.optional_of_text hfauthor
  have hpassword := FieldReader.optional_of_text hfpassword
  have hparent := FieldReader.optional_of_text hfparent
  obtain ⟨s, m, hs, hm⟩ := isPlain_of_isSendable h
  have hpost := FieldReader.nonEmptyText_under "post_id" s
  have hmessage := FieldReader.message_under "message" m
  have hempty := RefusedText.empty "post_id" s
  have hblank := RefusedText.blank "message" m
  rw [← hs] at hpost hempty
  rw [← hm] at hmessage hblank
  simp only [reader, FieldReader.required, hfpost, hfmessage, hauthor, hpassword, hparent, hpost,
    hmessage]
  have hpostIff : c.post = "" ↔ s = "" := by rw [hs, RawText.plain.injEq]
  have hmessageBlank : c.message.isBlank = isBlankText m := by rw [hm]; rfl
  by_cases hp : s = ""
  · refine .inr ⟨.inl (hpostIff.mpr hp), ?_⟩
    cases hm : isBlankText m with
    | true => exact ⟨_, List.forall_mem_cons.mpr ⟨hempty, List.forall_mem_singleton.mpr hblank⟩,
        by rw [if_pos hp]; rfl⟩
    | false => exact ⟨_, List.forall_mem_singleton.mpr hempty, by rw [if_pos hp]; rfl⟩
  · cases hm : isBlankText m with
    | true => exact .inr ⟨.inr (hmessageBlank.trans hm), _, List.forall_mem_singleton.mpr hblank,
        by rw [if_neg hp]; rfl⟩
    | false => exact .inl ⟨mt hpostIff.mp hp, hmessageBlank.trans hm, by rw [if_neg hp]; rfl⟩

/-- Whatever is sent, a comment that is read is on some post and says something. -/
theorem fit_of_reader {v : Json} {c : NewComment} (h : reader v = .valid c) :
    (∃ post : String, c.post = post ∧ post ≠ "") ∧ c.message.isBlank = false := by
  obtain ⟨_, parent, h₄, -, rfl⟩ := Validated.seq_eq_valid h
  obtain ⟨_, message, h₃, hmessage, rfl⟩ := Validated.seq_eq_valid h₄
  obtain ⟨_, password, h₂, -, rfl⟩ := Validated.seq_eq_valid h₃
  obtain ⟨_, author, h₁, -, rfl⟩ := Validated.seq_eq_valid h₂
  obtain ⟨post, hpost, rfl⟩ := Validated.map_eq_valid h₁
  obtain ⟨x, -, hpost⟩ := FieldReader.required_eq_valid hpost
  obtain ⟨y, -, hmessage⟩ := FieldReader.required_eq_valid hmessage
  exact ⟨FieldReader.eq_plain_of_nonEmptyText hpost, FieldReader.not_blank_of_message hmessage⟩

end NewComment

namespace Edit

theorem plain_toJson (e : Edit) : e.toJson.Plain := by
  refine ⟨⟨trivial, trivial, trivial, trivial⟩, ?_⟩
  simp

theorem isSendable_toJson (e : Edit) (hhash : e.hash.isPlain = true)
    (hpassword : e.password.isPlain = true) (hmessage : e.message.isPlain = true) :
    e.toJson.isSendable = true := by
  simp [toJson, body, isSendable, entriesSendable, hhash, hpassword, hmessage]

theorem fields_toJson (e : Edit) :
    e.toJson.field? "commit_hash" = some (.text e.hash) ∧
      e.toJson.field? "password" = some (.text e.password) ∧
      e.toJson.field? "message" = some (.text e.message) := by
  simp [toJson, body, Json.field?, Entries.get?]

/-- An edit that was sent is read as it is, or its message is blank. -/
theorem reader_cases {e : Edit} (h : e.toJson.isSendable = true) :
    (e.message.isBlank = false ∧ reader e.toJson = .valid e) ∨
      (e.message.isBlank = true ∧
        ∃ errors, (∀ e ∈ errors, RefusedText e) ∧ reader e.toJson = .invalid errors) := by
  obtain ⟨hfhash, hfpassword, hfmessage⟩ := fields_toJson e
  simp only [toJson, body, isSendable, entriesSendable, Bool.and_eq_true] at h
  obtain ⟨m, hm⟩ := RawText.isPlain_iff.mp h.2.2.1.2
  have hmessage := FieldReader.message_under "message" m
  have hblank := RefusedText.blank "message" m
  rw [← hm] at hmessage hblank
  have hmessageBlank : e.message.isBlank = isBlankText m := by rw [hm]; rfl
  simp only [reader, FieldReader.required, hfhash, hfpassword, hfmessage, hmessage, hmessageBlank]
  cases isBlankText m with
  | true => exact .inr ⟨rfl, _, List.forall_mem_singleton.mpr hblank, rfl⟩
  | false => exact .inl ⟨rfl, rfl⟩

theorem fit_of_reader {v : Json} {e : Edit} (h : reader v = .valid e) :
    e.message.isBlank = false := by
  obtain ⟨_, message, h₂, hmessage, rfl⟩ := Validated.seq_eq_valid h
  obtain ⟨_, password, h₁, -, rfl⟩ := Validated.seq_eq_valid h₂
  obtain ⟨hash, -, rfl⟩ := Validated.map_eq_valid h₁
  obtain ⟨x, -, hmessage⟩ := FieldReader.required_eq_valid hmessage
  exact FieldReader.not_blank_of_message hmessage

end Edit

namespace Removal

theorem plain_toJson (r : Removal) : r.toJson.Plain := by
  refine ⟨⟨trivial, trivial, trivial⟩, ?_⟩
  simp

theorem isSendable_toJson (r : Removal) (hhash : r.hash.isPlain = true)
    (hpassword : r.password.isPlain = true) : r.toJson.isSendable = true := by
  simp [toJson, body, isSendable, entriesSendable, hhash, hpassword]

theorem reader_toJson (r : Removal) : reader r.toJson = .valid r := by
  simp only [reader, FieldReader.required, toJson, body, Json.field?, Entries.get?]
  rfl

end Removal

/-! ## Answers -/

namespace Receipt

theorem plain_toJson (r : Receipt) : r.toJson.Plain := by
  refine ⟨⟨trivial, trivial, trivial, trivial⟩, ?_⟩
  simp

theorem reader_toJson (r : Receipt) : reader r.toJson = .valid r := by
  simp [reader, FieldReader.required, toJson, Json.field?, Entries.get?]
  rfl

end Receipt

namespace Notice

theorem plain_toJson (n : Notice) : n.toJson.Plain := by
  refine ⟨⟨trivial, trivial⟩, ?_⟩
  simp

theorem isSendable_toJson (n : Notice) : n.toJson.isSendable = n.message.isPlain := by
  simp [toJson, Json.isSendable, Json.entriesSendable]

theorem reader_toJson (n : Notice) : reader n.toJson = .valid n := by
  simp only [reader, FieldReader.required, toJson, Json.field?, Entries.get?]
  rfl

end Notice

theorem FieldReader.items_map {α : Type} {read : FieldReader α} {write : α → Json} {as : List α}
    (h : ∀ a ∈ as, read (write a) = .valid a) (place : Nat) :
    items read place (as.map write) = .valid as := by
  induction as generalizing place with
  | nil => rfl
  | cons a rest ih =>
    rw [List.map_cons, items, h a List.mem_cons_self,
      ih (fun b hb => h b (List.mem_cons_of_mem a hb))]
    rfl

namespace Summary

theorem plain_toJson (s : Summary) : s.toJson.Plain := by
  refine ⟨⟨trivial, trivial, trivial, trivial, trivial⟩, ?_⟩
  simp [entries]

/-- What stands behind the entries does not hide them. -/
theorem fields_entries (s : Summary) (more : List (RawText × Json)) :
    Json.field? "hash" (.object (s.entries ++ more)) = some (.text s.hash) ∧
      Json.field? "author" (.object (s.entries ++ more)) = some (.text s.author) ∧
      Json.field? "date" (.object (s.entries ++ more)) = some (.text s.date.stamp) ∧
      Json.field? "message" (.object (s.entries ++ more)) = some (.text s.message) := by
  simp [entries, Json.field?, Entries.get?]

theorem reader_entries {s : Summary} (h : s.date.IsMoment) (more : List (RawText × Json)) :
    reader (.object (s.entries ++ more)) = .valid s := by
  obtain ⟨hhash, hauthor, hdate, hmessage⟩ := fields_entries s more
  simp only [reader, FieldReader.required, hhash, hauthor, hdate, hmessage,
    FieldReader.date_stamp h]
  rfl

theorem reader_toJson {s : Summary} (h : s.date.IsMoment) :
    FieldReader.record reader s.toJson = .valid s := by
  have hread := reader_entries h []
  rw [List.append_nil] at hread
  rw [toJson, FieldReader.record, hread]

/-- A comment in a list has a written form exactly if its hash, its author and its
message have. -/
def Encodable (s : Summary) : Prop :=
  s.hash.isPlain = true ∧ s.author.isPlain = true ∧ s.message.isPlain = true

theorem isSendable_entries (s : Summary) (more : List (RawText × Json)) :
    Json.entriesSendable (s.entries ++ more) = true ↔
      s.Encodable ∧ Json.entriesSendable more = true := by
  simp only [entries, List.cons_append, List.nil_append, Json.entriesSendable, Json.isSendable,
    RawText.isPlain_plain, Bool.true_and, Bool.and_eq_true, Encodable]
  tauto

theorem isSendable_toJson_iff (s : Summary) : s.toJson.isSendable = true ↔ s.Encodable := by
  have hentries := s.isSendable_entries []
  rw [List.append_nil] at hentries
  rw [toJson, Json.isSendable, hentries]
  simp [Json.entriesSendable]

end Summary

namespace Thread

theorem isSendable_toJson_iff (t : Thread) :
    t.toJson.isSendable = true ↔ ∀ s ∈ t.root :: t.replies, s.Encodable := by
  rw [toJson, Json.isSendable, Summary.isSendable_entries, List.forall_mem_cons]
  refine and_congr_right fun _ => ?_
  simp only [Json.entriesSendable, RawText.isPlain_plain, Bool.true_and, Bool.and_true,
    Json.isSendable_list, List.forall_mem_map, Summary.isSendable_toJson_iff]

/-- The dates in a thread are moments of the calendar. -/
structure Dated (t : Thread) : Prop where
  root : t.root.date.IsMoment
  replies : ∀ s ∈ t.replies, s.date.IsMoment

theorem plain_toJson (t : Thread) : t.toJson.Plain := by
  have hreplies : (Json.list (t.replies.map Summary.toJson)).Plain := by
    refine plain_list fun v hv => ?_
    obtain ⟨s, -, rfl⟩ := List.mem_map.mp hv
    exact s.plain_toJson
  refine ⟨⟨trivial, trivial, trivial, trivial, hreplies, trivial⟩, ?_⟩
  simp [Summary.entries]

theorem reader_toJson {t : Thread} (h : t.Dated) :
    FieldReader.record reader t.toJson = .valid t := by
  have hroot := Summary.reader_entries h.root [("replies", .list (t.replies.map Summary.toJson))]
  have hreplies : FieldReader.withDefault "replies" (.listOf (.record Summary.reader)) []
      t.toJson = .valid t.replies := by
    have hfield : t.toJson.field? "replies" = some (.list (t.replies.map Summary.toJson)) := by
      simp [toJson, Summary.entries, Json.field?, Entries.get?]
    have hitems := FieldReader.items_map (fun s hs => Summary.reader_toJson (h.replies s hs)) 0
    simp only [FieldReader.withDefault, hfield, FieldReader.listOf, hitems, Validated.under]
  have hrecord : FieldReader.record reader t.toJson = reader t.toJson := by
    rw [toJson, FieldReader.record]
  rw [hrecord, reader, hreplies, toJson, hroot]
  rfl

end Thread

namespace Listing

theorem plain_toJson (ts : List Thread) : (toJson ts).Plain := by
  have hthreads : (Json.list (ts.map Thread.toJson)).Plain := by
    refine plain_list fun v hv => ?_
    obtain ⟨t, -, rfl⟩ := List.mem_map.mp hv
    exact t.plain_toJson
  refine ⟨⟨hthreads, trivial⟩, ?_⟩
  simp

theorem isSendable_toJson_iff (ts : List Thread) :
    (toJson ts).isSendable = true ↔ ∀ s ∈ Thread.comments ts, s.Encodable := by
  rw [toJson, Json.isSendable]
  simp only [Json.entriesSendable, RawText.isPlain_plain, Bool.true_and, Bool.and_true,
    Json.isSendable_list, List.forall_mem_map, Thread.isSendable_toJson_iff, Thread.comments,
    List.forall_mem_flatMap]

theorem reader_toJson {ts : List Thread} (h : ∀ t ∈ ts, t.Dated) :
    reader (toJson ts) = .valid ts := by
  have hfield : (toJson ts).field? "commits" = some (.list (ts.map Thread.toJson)) := by
    simp [toJson, Json.field?, Entries.get?]
  have hitems := FieldReader.items_map (fun t ht => Thread.reader_toJson (h t ht)) 0
  simp only [reader, FieldReader.required, hfield, FieldReader.listOf, hitems, Validated.under]

end Listing

namespace Detail

theorem fields_toJson (d : Detail) :
    d.toJson.field? "post_id" = some (.text d.post) ∧
      d.toJson.field? "parent_hash" = some (.ofText? d.parent) ∧
      d.toJson.field? "updated_at" = some (Comment.stampOrNull d.updated) := by
  simp [toJson, Summary.entries, Json.field?, Entries.get?]

/-- A comment by itself can be written if all its texts can. -/
theorem isSendable_toJson_iff (d : Detail) :
    d.toJson.isSendable = true ↔
      d.summary.Encodable ∧ d.post.isPlain = true ∧ ∀ parent ∈ d.parent, parent.isPlain = true := by
  have hparent : (Json.ofText? d.parent).isSendable = true ↔
      ∀ parent ∈ d.parent, parent.isPlain = true := by
    cases d.parent <;> simp [Json.ofText?, Json.isSendable]
  have hupdated : (Comment.stampOrNull d.updated).isSendable = true := by
    cases d.updated <;> rfl
  rw [toJson, Json.isSendable, Summary.isSendable_entries]
  simp only [Json.entriesSendable, Json.isSendable, RawText.isPlain_plain, Bool.true_and,
    Bool.and_true, Bool.and_eq_true, hparent, hupdated]

theorem plain_toJson (d : Detail) : d.toJson.Plain := by
  have hupdated : (Comment.stampOrNull d.updated).Plain := by
    cases d.updated <;> exact trivial
  refine ⟨⟨trivial, trivial, trivial, trivial, trivial, plain_ofText? d.parent, hupdated,
    trivial⟩, ?_⟩
  simp [Summary.entries]

theorem reader_toJson {d : Detail} (h : d.summary.date.IsMoment)
    (hupdated : ∀ t ∈ d.updated, t.IsMoment) : reader d.toJson = .valid d := by
  obtain ⟨hpost, hparent, htime⟩ := fields_toJson d
  have hsummary := Summary.reader_entries h [("post_id", .text d.post),
    ("parent_hash", .ofText? d.parent), ("updated_at", Comment.stampOrNull d.updated)]
  have hread : FieldReader.optional "updated_at" .date d.toJson = .valid d.updated :=
    FieldReader.optional_date htime hupdated
  rw [reader, hread, FieldReader.optional_of_text hparent, FieldReader.required, hpost, toJson,
    hsummary]
  rfl

/-- A listing is not taken for a comment: it names no hash. -/
theorem reader_listing (ts : List Thread) (d : Detail) : reader (Listing.toJson ts) ≠ .valid d := by
  intro h
  obtain ⟨_, _, h₃, -, -⟩ := Validated.seq_eq_valid h
  obtain ⟨_, _, h₂, -, -⟩ := Validated.seq_eq_valid h₃
  obtain ⟨_, _, h₁, -, -⟩ := Validated.seq_eq_valid h₂
  obtain ⟨summary, hsummary, -⟩ := Validated.map_eq_valid h₁
  obtain ⟨_, _, h₃, -, -⟩ := Validated.seq_eq_valid hsummary
  obtain ⟨_, _, h₂, -, -⟩ := Validated.seq_eq_valid h₃
  obtain ⟨_, _, h₁, -, -⟩ := Validated.seq_eq_valid h₂
  obtain ⟨hash, hhash, -⟩ := Validated.map_eq_valid h₁
  obtain ⟨x, hfield, -⟩ := FieldReader.required_eq_valid hhash
  simp [Listing.toJson, Json.field?, Entries.get?] at hfield

end Detail

end CommentThreads
