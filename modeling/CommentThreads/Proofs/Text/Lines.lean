/-
CommentThreads.Proofs.Text.Lines — what cutting a text at a character
gives back.

A piece that does not hold the character is cut off whole
(`splitAt_append`), and a text without it is one piece
(`splitAt_of_not_mem`). Only the empty text has no lines (`lines_eq_nil_iff`), and no
line holds a character that ends one (`not_mem_of_mem_lines`).
-/
import CommentThreads.Proofs.Text.Raw
import CommentThreads.Text.Lines

namespace CommentThreads.Text

section Pieces

variable {α : Type} [DecidableEq α] {sep : α}

theorem splitAt_of_not_mem {s : List α} (h : sep ∉ s) : splitAt sep s = [s] := by
  induction s with
  | nil => rfl
  | cons c rest ih =>
    rw [List.mem_cons, not_or] at h
    rw [splitAt, if_neg (Ne.symm h.1), ih h.2, consFirst]

theorem splitAt_append {piece : List α} (h : sep ∉ piece) (rest : List α) :
    splitAt sep (piece ++ sep :: rest) = piece :: splitAt sep rest := by
  induction piece with
  | nil => rw [List.nil_append, splitAt, if_pos rfl]
  | cons c piece ih =>
    rw [List.mem_cons, not_or] at h
    rw [List.cons_append, splitAt, if_neg (Ne.symm h.1), ih h.2, consFirst]

theorem consFirst_ne_nil {α : Type} (c : α) (pieces : List (List α)) : consFirst c pieces ≠ [] := by
  cases pieces <;> simp [consFirst]

theorem splitAt_ne_nil (sep : α) (s : List α) : splitAt sep s ≠ [] := by
  cases s with
  | nil => exact List.cons_ne_nil _ _
  | cons c rest =>
    rw [splitAt]
    split
    · exact List.cons_ne_nil _ _
    · exact consFirst_ne_nil _ _

/-- No piece holds the character that was cut at. -/
theorem not_mem_of_mem_splitAt {s piece : List α} (h : piece ∈ splitAt sep s) :
    sep ∉ piece := by
  induction s generalizing piece with
  | nil =>
    rw [List.mem_singleton.mp h]
    exact List.not_mem_nil
  | cons c rest ih =>
    rw [splitAt] at h
    split at h
    next =>
      rcases List.mem_cons.mp h with rfl | h
      · exact List.not_mem_nil
      · exact ih h
    next hc =>
      cases hpieces : splitAt sep rest with
      | nil => exact absurd hpieces (splitAt_ne_nil sep rest)
      | cons first others =>
        rw [hpieces] at h ih
        rcases List.mem_cons.mp h with rfl | h
        · rw [List.mem_cons, not_or]
          exact ⟨Ne.symm hc, ih List.mem_cons_self⟩
        · exact ih (List.mem_cons_of_mem first h)

/-- What stands before the first piece becomes part of it. -/
theorem splitAt_prepend {start : List α} (h : sep ∉ start) (s : List α) :
    splitAt sep (start ++ s) = (start ++ (splitAt sep s).headD []) :: (splitAt sep s).tail := by
  induction start with
  | nil =>
    cases hpieces : splitAt sep s with
    | nil => exact absurd hpieces (splitAt_ne_nil sep s)
    | cons first others => rw [List.nil_append, List.nil_append, hpieces]; rfl
  | cons c start ih =>
    rw [List.mem_cons, not_or] at h
    rw [List.cons_append, splitAt, if_neg (Ne.symm h.1), ih h.2, consFirst, List.cons_append]

end Pieces

theorem mem_consFirst {α : Type} {c : α} {line : List α} {others : List (List α)}
    (h : line ∈ consFirst c others) :
    line = [c] ∨ (∃ first ∈ others, line = c :: first) ∨ line ∈ others := by
  cases others with
  | nil => exact .inl (List.mem_singleton.mp h)
  | cons first rest =>
    rcases List.mem_cons.mp h with rfl | hrest
    · exact .inr (.inl ⟨first, List.mem_cons_self, rfl⟩)
    · exact .inr (.inr (List.mem_cons_of_mem _ hrest))

/-- No line holds a character that ends one. -/
theorem not_mem_of_mem_splitLines {sep : Point} (hsep : endsLine sep = true)
    {s line : List Point} (h : line ∈ splitLines s) : sep ∉ line := by
  induction s using splitLines.induct generalizing line with
  | case1 => cases h
  | case2 rest ih =>
    rw [splitLines] at h
    rcases List.mem_cons.mp h with rfl | hrest
    · exact List.not_mem_nil
    · exact ih hrest
  | case3 c rest hpair hbreak ih =>
    rw [splitLines, if_pos hbreak] at h
    · rcases List.mem_cons.mp h with rfl | hrest
      · exact List.not_mem_nil
      · exact ih hrest
    · exact hpair
  | case4 c rest hpair hbreak ih =>
    have hc : sep ≠ c := by
      rintro rfl
      exact hbreak hsep
    rw [splitLines, if_neg hbreak] at h
    · rcases mem_consFirst h with rfl | ⟨first, hfirst, rfl⟩ | hrest
      · rw [List.mem_singleton]
        exact hc
      · rw [List.mem_cons, not_or]
        exact ⟨hc, ih hfirst⟩
      · exact ih hrest
    · exact hpair

theorem splitLines_eq_nil_iff (s : List Point) : splitLines s = [] ↔ s = [] := by
  constructor
  · intro h
    unfold splitLines at h
    split at h
    · rfl
    · cases h
    · split at h
      · cases h
      · exact absurd h (consFirst_ne_nil _ _)
  · rintro rfl
    rfl

end CommentThreads.Text

namespace CommentThreads.RawText

open CommentThreads.Text

theorem not_mem_of_mem_lines {sep : Char} (hsep : isLineBreak sep = true) {s line : RawText}
    (h : line ∈ s.lines) : .char sep ∉ line.points := by
  obtain ⟨ps, hps, rfl⟩ := List.mem_map.mp h
  rw [points_ofPoints]
  have hends : endsLine (.char sep) = true := hsep
  exact not_mem_of_mem_splitLines hends hps

theorem lines_eq_nil_iff (s : RawText) : s.lines = [] ↔ s = plain "" := by
  rw [lines, List.map_eq_nil_iff, splitLines_eq_nil_iff, points_eq_nil_iff]

/-- A text without the character that it is cut at is one piece. -/
theorem pieces_of_not_mem {sep : Char} {t : RawText} (h : .char sep ∉ t.points) :
    t.pieces sep = [t] := by
  rw [pieces, splitAt_of_not_mem h, List.map_singleton, ofPoints_points]

end CommentThreads.RawText
