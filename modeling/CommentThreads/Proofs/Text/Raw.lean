/-
CommentThreads.Proofs.Text.Raw — a text is its points, and no more.

A text is put together again from its points (`ofPoints_points`), and points are those of
the text that they make (`points_ofPoints`), so two texts with the same points are one.
What is plain is so in all its parts (`isPlain_append`).
-/
import CommentThreads.Text.Raw

namespace CommentThreads.RawText

@[simp] theorem points_plain (s : String) : (plain s).points = s.toList.map .char := rfl

@[simp] theorem points_append (t u : RawText) : (t ++ u).points = t.points ++ u.points := by
  induction t with
  | plain s => cases u <;> simp [points]
  | torn s half rest ih => simp [points, ih]

/-! ## There and back -/

theorem points_ofPointsAfter (before : List Char) (ps : List Point) :
    (ofPointsAfter before ps).points = before.reverse.map .char ++ ps := by
  induction ps generalizing before with
  | nil => simp [ofPointsAfter]
  | cons p rest ih => cases p <;> simp [ofPointsAfter, points, ih]

@[simp] theorem points_ofPoints (ps : List Point) : (ofPoints ps).points = ps :=
  points_ofPointsAfter [] ps

/-- Characters in front of other points go to those right before them. -/
theorem ofPointsAfter_chars (before cs : List Char) (rest : List Point) :
    ofPointsAfter before (cs.map .char ++ rest) = ofPointsAfter (cs.reverse ++ before) rest := by
  induction cs generalizing before with
  | nil => rfl
  | cons c cs ih => simp [ofPointsAfter, ih]

@[simp] theorem ofPoints_points (t : RawText) : ofPoints t.points = t := by
  induction t with
  | plain s =>
    rw [points, ← List.append_nil (s.toList.map _), ofPoints, ofPointsAfter_chars]
    simp [ofPointsAfter]
  | torn s half rest ih =>
    rw [points, ofPoints, ofPointsAfter_chars, ofPointsAfter, ← ofPoints, ih]
    simp

theorem points_injective {t u : RawText} (h : t.points = u.points) : t = u := by
  rw [← ofPoints_points t, h, ofPoints_points]

theorem points_inj {t u : RawText} : t.points = u.points ↔ t = u :=
  ⟨points_injective, congrArg points⟩

@[simp] theorem ofPoints_chars (cs : List Char) :
    ofPoints (cs.map .char) = plain (String.ofList cs) :=
  points_injective (by simp)

@[simp] theorem empty_append (t : RawText) : plain "" ++ t = t := points_injective (by simp)

theorem ofPoints_append (t : RawText) (ps : List Point) :
    ofPoints (t.points ++ ps) = t ++ ofPoints ps :=
  points_injective (by simp)

theorem points_eq_nil_iff (t : RawText) : t.points = [] ↔ t = plain "" := by
  constructor
  · exact fun h => points_injective h
  · rintro rfl
    rfl

/-! ## Plain texts -/

@[simp] theorem isPlain_append (t u : RawText) : (t ++ u).isPlain = (t.isPlain && u.isPlain) := by
  induction t with
  | plain s => cases u <;> rfl
  | torn s half rest ih => rfl

/-- An optional text is a string, if it is plain where there is one. -/
theorem exists_eq_map_plain {t : Option RawText} (h : ∀ u ∈ t, u.isPlain = true) :
    ∃ s : Option String, t = s.map plain := by
  cases t with
  | none => exact ⟨none, rfl⟩
  | some u =>
    obtain ⟨s, rfl⟩ := isPlain_iff.mp (h u rfl)
    exact ⟨some s, rfl⟩

/-- A text is plain if its points are characters. -/
theorem isPlain_iff_points (t : RawText) : t.isPlain = true ↔ ∀ p ∈ t.points, ∃ c, p = .char c := by
  cases t with
  | plain s => simp
  | torn s half rest =>
    simp only [isPlain_torn, Bool.false_eq_true, false_iff]
    intro h
    obtain ⟨c, hc⟩ := h (.half half) (List.mem_append_right _ List.mem_cons_self)
    cases hc

end CommentThreads.RawText
