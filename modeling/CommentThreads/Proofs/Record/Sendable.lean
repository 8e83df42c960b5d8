/-
CommentThreads.Proofs.Record.Sendable — what is read from a value that can be sent.

Whatever a reader makes of such a value can be sent as well. What it finds wrong shows
parts of the value (`FieldReader.Fair`), with one lemma for each way of building a reader;
so it is of the three bodies that change comments. And the texts of what is read are parts
of the value too, so they are strings (`NewComment.plain_of_reader`, `Edit.plain_of_reader`,
`Removal.plain_of_reader`).
-/
import CommentThreads.Proofs.Record.Wire

namespace CommentThreads

open Server

/-! ## What is found wrong -/

namespace Validated

variable {α β : Type}

/-- What was found wrong can be sent. -/
def Fair (v : Validated α) : Prop := ∀ e ∈ v.errors, e.found.isSendable = true

theorem fair_valid (a : α) : (valid a).Fair := List.forall_mem_nil _

theorem fair_fail {complaint : Complaint} {found : Json} (h : found.isSendable = true) :
    (fail complaint found : Validated α).Fair := List.forall_mem_singleton.mpr h

theorem fair_under {v : Validated α} (h : v.Fair) (step : Step) : (v.under step).Fair := by
  cases v with
  | valid a => exact h
  | invalid errors =>
    intro e he
    obtain ⟨inner, hinner, rfl⟩ := List.mem_map.mp he
    exact h inner hinner

theorem fair_map (f : α → β) {v : Validated α} (h : v.Fair) : (f <$> v).Fair := by
  cases v with
  | valid a => exact fair_valid (f a)
  | invalid errors => exact h

theorem fair_seq {f : Validated (α → β)} {v : Validated α} (hf : f.Fair) (hv : v.Fair) :
    (f <*> v).Fair := by
  cases f with
  | valid g =>
    cases v with
    | valid a => exact fair_valid (g a)
    | invalid errors => exact hv
  | invalid errors =>
    cases v with
    | valid a => exact hf
    | invalid more => exact fun e he => (List.mem_append.mp he).elim (hf e) (hv e)

end Validated

/-- What stands at a key of a value that can be sent can be sent. -/
theorem Json.isSendable_of_field? {key : String} {v x : Json} (hv : v.isSendable = true)
    (h : v.field? key = some x) : x.isSendable = true := by
  cases v with
  | object entries =>
    exact (Json.isSendable_object.mp hv _ (Entries.mem_of_get? h)).2
  | _ => cases h

namespace FieldReader

variable {α : Type} {read : FieldReader α}

/-- A reader is fair to every value that can be sent. -/
def Fair (read : FieldReader α) : Prop := ∀ v : Json, v.isSendable = true → (read v).Fair

theorem fair_text : Fair text := by
  intro v hv
  cases v with
  | text t => exact Validated.fair_valid t
  | _ => exact Validated.fair_fail hv

theorem fair_nonEmptyText : Fair nonEmptyText := by
  intro v hv
  cases v with
  | text t =>
    rw [nonEmptyText]
    split
    · exact Validated.fair_fail hv
    · split
      · exact Validated.fair_fail hv
      · exact Validated.fair_valid t
  | _ => exact Validated.fair_fail hv

theorem fair_message : Fair message := by
  intro v hv
  cases v with
  | text t =>
    rw [message]
    split
    · exact Validated.fair_fail hv
    · exact Validated.fair_valid t
  | _ => exact Validated.fair_fail hv

theorem fair_required (h : Fair read) (key : String) : Fair (required key read) := by
  intro v hv
  unfold required
  split
  · next x hx => exact Validated.fair_under (h x (Json.isSendable_of_field? hv hx)) _
  · exact List.forall_mem_singleton.mpr hv

theorem fair_optional (h : Fair read) (key : String) : Fair (optional key read) := by
  intro v hv
  unfold optional
  split
  · exact Validated.fair_valid none
  · next x _ hx =>
    exact Validated.fair_map some (Validated.fair_under (h x (Json.isSendable_of_field? hv hx)) _)
  · exact Validated.fair_valid none

theorem fair_record (h : Fair read) : Fair (record read) := by
  intro v hv
  cases v with
  | object entries => exact h _ hv
  | _ => exact Validated.fair_fail hv

end FieldReader

open Validated FieldReader

theorem NewComment.fair_reader : NewComment.reader.Fair := fun v hv =>
  fair_seq (fair_seq (fair_seq (fair_seq
    (fair_map _ (fair_required fair_nonEmptyText _ v hv))
    (fair_optional fair_text _ v hv)) (fair_optional fair_text _ v hv))
    (fair_required fair_message _ v hv)) (fair_optional fair_text _ v hv)

theorem Edit.fair_reader : Edit.reader.Fair := fun v hv =>
  fair_seq (fair_seq (fair_map _ (fair_required fair_text _ v hv))
    (fair_required fair_text _ v hv)) (fair_required fair_message _ v hv)

theorem Removal.fair_reader : Removal.reader.Fair := fun v hv =>
  fair_seq (fair_map _ (fair_required fair_text _ v hv)) (fair_required fair_text _ v hv)

/-- An entry can be sent if what it shows can. -/
theorem Server.isSendable_entryOf (source : String) (e : FieldError) :
    (entryOf source e).isSendable = e.found.isSendable := by
  have hpath : Json.itemsSendable (e.path.map stepJson) = true := by
    induction e.path with
    | nil => rfl
    | cons step rest ih => cases step <;> simpa [Json.itemsSendable, stepJson, Json.isSendable]
  cases hcomplaint : e.complaint <;>
    simp [entryOf, hcomplaint, complaintContext, Json.isSendable, Json.itemsSendable,
      Json.entriesSendable, hpath]

/-! ## What is read -/

section Texts

variable {key : String} {v : Json} {t : RawText}

theorem FieldReader.eq_of_text (h : FieldReader.text v = .valid t) : v = .text t := by
  cases v with
  | text s =>
    cases h
    rfl
  | _ => cases h

theorem FieldReader.eq_of_message (h : FieldReader.message v = .valid t) : v = .text t := by
  cases v with
  | text s =>
    rw [FieldReader.message] at h
    split at h
    · cases h
    · cases h
      rfl
  | _ => cases h

/-- A text that had to be there is a string. -/
theorem FieldReader.isPlain_of_required {read : FieldReader RawText}
    (hread : ∀ x, read x = .valid t → x = .text t) (hv : v.isSendable = true)
    (h : FieldReader.required key read v = .valid t) : t.isPlain = true := by
  obtain ⟨x, hx, hvalid⟩ := FieldReader.required_eq_valid h
  have hsendable := Json.isSendable_of_field? hv hx
  rw [hread x hvalid] at hsendable
  exact hsendable

/-- A text that may be left out stands where it is read. -/
theorem FieldReader.field?_of_optional (h : FieldReader.optional key .text v = .valid (some t)) :
    v.field? key = some (.text t) := by
  unfold FieldReader.optional at h
  split at h
  · cases h
  · next x _ hx =>
    cases x with
    | text s =>
      cases h
      exact hx
    | _ => cases h
  · cases h

/-- So it is a string, if it is there. -/
theorem FieldReader.isPlain_of_optional {t? : Option RawText} (hv : v.isSendable = true)
    (h : FieldReader.optional key .text v = .valid t?) : ∀ text ∈ t?, text.isPlain = true := by
  rintro text ⟨⟩
  exact Json.isSendable_of_field? hv (FieldReader.field?_of_optional h)

end Texts

/-- All texts of a new comment are strings. -/
structure NewComment.Plain (c : NewComment) : Prop where
  author : ∀ text ∈ c.author, text.isPlain = true
  password : ∀ text ∈ c.password, text.isPlain = true
  message : c.message.isPlain = true
  parent : ∀ text ∈ c.parent, text.isPlain = true

theorem NewComment.plain_of_reader {v : Json} {c : NewComment} (hv : v.isSendable = true)
    (h : reader v = .valid c) : c.Plain := by
  obtain ⟨_, parent, h₄, hparent, rfl⟩ := Validated.seq_eq_valid h
  obtain ⟨_, message, h₃, hmessage, rfl⟩ := Validated.seq_eq_valid h₄
  obtain ⟨_, password, h₂, hpassword, rfl⟩ := Validated.seq_eq_valid h₃
  obtain ⟨_, author, h₁, hauthor, rfl⟩ := Validated.seq_eq_valid h₂
  obtain ⟨post, -, rfl⟩ := Validated.map_eq_valid h₁
  exact ⟨isPlain_of_optional hv hauthor, isPlain_of_optional hv hpassword,
    isPlain_of_required (fun _ => eq_of_message) hv hmessage, isPlain_of_optional hv hparent⟩

/-- An author that is read stands in the body. -/
theorem NewComment.field?_author {v : Json} {c : NewComment} (h : reader v = .valid c)
    {author : RawText} (hauthor : c.author = some author) :
    v.field? "author" = some (.text author) := by
  obtain ⟨_, parent, h₄, -, rfl⟩ := Validated.seq_eq_valid h
  obtain ⟨_, message, h₃, -, rfl⟩ := Validated.seq_eq_valid h₄
  obtain ⟨_, password, h₂, -, rfl⟩ := Validated.seq_eq_valid h₃
  obtain ⟨_, _, h₁, hread, rfl⟩ := Validated.seq_eq_valid h₂
  obtain ⟨post, -, rfl⟩ := Validated.map_eq_valid h₁
  cases hauthor
  exact field?_of_optional hread

/-- All texts of an edit are strings. -/
structure Edit.Plain (e : Edit) : Prop where
  hash : e.hash.isPlain = true
  password : e.password.isPlain = true
  message : e.message.isPlain = true

theorem Edit.plain_of_reader {v : Json} {e : Edit} (hv : v.isSendable = true)
    (h : reader v = .valid e) : e.Plain := by
  obtain ⟨_, message, h₂, hmessage, rfl⟩ := Validated.seq_eq_valid h
  obtain ⟨_, password, h₁, hpassword, rfl⟩ := Validated.seq_eq_valid h₂
  obtain ⟨hash, hhash, rfl⟩ := Validated.map_eq_valid h₁
  exact ⟨isPlain_of_required (fun _ => eq_of_text) hv hhash,
    isPlain_of_required (fun _ => eq_of_text) hv hpassword,
    isPlain_of_required (fun _ => eq_of_message) hv hmessage⟩

/-- All texts of a removal are strings. -/
structure Removal.Plain (r : Removal) : Prop where
  hash : r.hash.isPlain = true
  password : r.password.isPlain = true

theorem Removal.plain_of_reader {v : Json} {r : Removal} (hv : v.isSendable = true)
    (h : reader v = .valid r) : r.Plain := by
  obtain ⟨_, password, h₁, hpassword, rfl⟩ := Validated.seq_eq_valid h
  obtain ⟨hash, hhash, rfl⟩ := Validated.map_eq_valid h₁
  exact ⟨isPlain_of_required (fun _ => eq_of_text) hv hhash,
    isPlain_of_required (fun _ => eq_of_text) hv hpassword⟩

end CommentThreads
