/-
CommentThreads.Proofs.Record.Stored — a stored comment is read back.

`reader_toJson`: the record of a comment whose times are moments of the
calendar reads back as that comment, whatever stands ready for a hash or a
time of creation that the record might lack. `IsRecord.reads`: for any record
these decide nothing but what they stand in for.
-/
import CommentThreads.Proofs.Time.Stamp
import CommentThreads.Record.Comment

namespace CommentThreads

open Time

/-- A moment of the calendar as a clock of universal time shows it. -/
def Time.DateTime.IsMoment (d : DateTime) : Prop :=
  ∃ micros, inRange micros = true ∧ d = .utc micros

namespace Validated

/-- A value was read, without any error. -/
def IsValid {α : Type} (v : Validated α) : Prop := ∃ a, v = .valid a

theorem not_isValid_invalid {α : Type} (errors : List FieldError) :
    ¬(Validated.invalid errors : Validated α).IsValid := by
  rintro ⟨a, ha⟩
  cases ha

theorem isValid_map {α β : Type} (f : α → β) (v : Validated α) : (f <$> v).IsValid ↔ v.IsValid := by
  cases v with
  | valid a => exact ⟨fun _ => ⟨a, rfl⟩, fun _ => ⟨f a, rfl⟩⟩
  | invalid errors => exact iff_of_false (not_isValid_invalid errors) (not_isValid_invalid errors)

theorem isValid_seq {α β : Type} (f : Validated (α → β)) (v : Validated α) :
    (f <*> v).IsValid ↔ f.IsValid ∧ v.IsValid := by
  cases f with
  | valid g =>
    have hmap : Validated.valid g <*> v = g <$> v := rfl
    rw [hmap, isValid_map]
    exact ⟨fun h => ⟨⟨g, rfl⟩, h⟩, fun h => h.2⟩
  | invalid errors =>
    refine iff_of_false ?_ fun h => not_isValid_invalid errors h.1
    cases v with
    | valid a => exact not_isValid_invalid errors
    | invalid more => exact not_isValid_invalid (errors ++ more)

/-- A value that was read by applying a function was read in two parts. -/
theorem seq_eq_valid {α β : Type} {f : Validated (α → β)} {v : Validated α} {b : β}
    (h : f <*> v = .valid b) : ∃ g a, f = .valid g ∧ v = .valid a ∧ b = g a := by
  cases f with
  | valid g =>
    cases v with
    | valid a =>
      cases h
      exact ⟨g, a, rfl, rfl, rfl⟩
    | invalid errors => cases h
  | invalid errors => cases v <;> cases h

theorem map_eq_valid {α β : Type} {f : α → β} {v : Validated α} {b : β}
    (h : f <$> v = .valid b) : ∃ a, v = .valid a ∧ b = f a := by
  cases v with
  | valid a =>
    cases h
    exact ⟨a, rfl, rfl⟩
  | invalid errors => cases h

end Validated

namespace FieldReader

/-- A key that was read is there, with a value that was read. -/
theorem required_eq_valid {α : Type} {key : String} {read : FieldReader α} {v : Json} {a : α}
    (h : required key read v = .valid a) : ∃ x, v.field? key = some x ∧ read x = .valid a := by
  unfold required at h
  split at h
  · next x hx =>
    cases hread : read x with
    | valid b =>
      rw [hread] at h
      cases h
      exact ⟨x, hx, hread⟩
    | invalid errors =>
      rw [hread] at h
      cases h
  · cases h

/-- Whether a key that may be missing can be read does not depend on what
stands in for it. -/
theorem isValid_withDefault {α : Type} (key : String) (read : FieldReader α) (v : Json)
    (default other : α) :
    (withDefault key read default v).IsValid ↔ (withDefault key read other v).IsValid := by
  unfold withDefault
  split
  · exact Iff.rfl
  · exact ⟨fun _ => ⟨other, rfl⟩, fun _ => ⟨default, rfl⟩⟩

theorem date_stamp {d : DateTime} (h : d.IsMoment) : date (.text d.stamp) = .valid d := by
  obtain ⟨micros, hrange, rfl⟩ := h
  rw [date, DateTime.ofJson_stamp hrange]

theorem optional_of_text {key : String} {v : Json} {s? : Option RawText}
    (h : v.field? key = some (.ofText? s?)) : optional key text v = .valid s? := by
  cases s? with
  | none => simp only [optional, h, Json.ofText?]
  | some s =>
    simp only [optional, h, Json.ofText?]
    rfl

/-- A moment that is written, or none, is read back. -/
theorem optional_date {key : String} {v : Json} {d? : Option DateTime}
    (h : v.field? key = some (Comment.stampOrNull d?)) (hmoment : ∀ d ∈ d?, d.IsMoment) :
    optional key date v = .valid d? := by
  cases d? with
  | none => simp only [optional, h, Comment.stampOrNull]
  | some d =>
    simp only [optional, h, Comment.stampOrNull, date_stamp (hmoment d rfl)]
    rfl

end FieldReader

namespace Comment

/-- A comment whose times are moments of the calendar. -/
structure Dated (c : Comment) : Prop where
  created : c.created.IsMoment
  updated : ∀ d ∈ c.updated, d.IsMoment

/-- What a record holds at the keys that every comment has. -/
theorem fields_toJson (c : Comment) :
    c.toJson.field? "commit_hash" = some (.text c.hash) ∧
      c.toJson.field? "post_id" = some (.text c.post) ∧
      c.toJson.field? "author" = some (.text c.author) ∧
      c.toJson.field? "message" = some (.text c.message) ∧
      c.toJson.field? "parent_hash" = some (.ofText? c.parent) ∧
      c.toJson.field? "created_at" = some (.text c.created.stamp) ∧
      c.toJson.field? "updated_at" = some (stampOrNull c.updated) := by
  simp [toJson, Json.field?, Entries.get?]

/-! ## Reading a record back -/

/-- The record of a comment reads back as the comment. -/
theorem reader_toJson {c : Comment} (h : c.Dated) (hash : RawText) (created : DateTime) :
    reader hash created c.toJson = .valid c := by
  obtain ⟨hhash, hpost, hauthor, hmessage, hparent, hcreated, hupdated⟩ := fields_toJson c
  have htext (s : RawText) : FieldReader.text (.text s) = .valid s := rfl
  have htime : FieldReader.optional "updated_at" .date c.toJson = .valid c.updated :=
    FieldReader.optional_date hupdated h.updated
  simp only [reader, FieldReader.required, FieldReader.withDefault, hhash, hpost, hauthor,
    hmessage, hcreated, FieldReader.optional_of_text hparent, htime, htext,
    FieldReader.date_stamp h.created]
  rfl

/-! ## Records that can be read -/

/-- A record that a comment can be read from. -/
def IsRecord (v : Json) : Prop :=
  (∃ entries, v = .object entries) ∧ ∃ hash created, (reader hash created v).IsValid

/-- What stands ready for a missing hash or time does not decide whether a
record can be read. -/
theorem IsRecord.reads {v : Json} (h : IsRecord v) (hash : RawText) (created : DateTime) :
    (reader hash created v).IsValid := by
  obtain ⟨-, hash', created', hread⟩ := h
  unfold reader at hread ⊢
  simp only [Validated.isValid_seq, Validated.isValid_map] at hread ⊢
  rw [FieldReader.isValid_withDefault "commit_hash" .text v hash hash',
    FieldReader.isValid_withDefault "created_at" .date v created created']
  exact hread

end Comment

end CommentThreads
