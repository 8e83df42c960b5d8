/-
CommentThreads.Proofs.Text.Blank — what is left of a text without the white
space at its ends.

A text that neither begins nor ends with white space is left as it is
(`trim_of_ends`), and so is what was trimmed once (`strip_strip`). Nothing is left
exactly of a blank text (`strip_eq_empty_iff`). White space around a text makes no
difference (`strip_surrounded`), and between two texts that are not blank nothing is
trimmed (`trim_between`).
-/
import Mathlib.Data.List.TakeWhile
import CommentThreads.Text.Blank

namespace CommentThreads.Text

/-- The text neither begins nor ends with white space. -/
structure Bare (s : List Char) : Prop where
  first : ∀ c ∈ s.head?, isBlank c = false
  last : ∀ c ∈ s.getLast?, isBlank c = false

theorem dropWhile_of_head {p : Char → Bool} {s : List Char} (h : ∀ c ∈ s.head?, p c = false) :
    s.dropWhile p = s := by
  cases s with
  | nil => rfl
  | cons c rest => rw [List.dropWhile_cons_of_neg (by simp [h c rfl])]

theorem head_dropWhile (p : Char → Bool) (s : List Char) :
    ∀ c ∈ (s.dropWhile p).head?, p c = false := by
  induction s with
  | nil => simp
  | cons c rest ih =>
    cases hc : p c with
    | true => rwa [List.dropWhile_cons_of_pos hc]
    | false =>
      rw [List.dropWhile_cons_of_neg (by simp [hc])]
      rintro _ ⟨⟩
      exact hc

theorem trim_of_ends {s : List Char} (h : Bare s) : trim s = s := by
  have hlast : ∀ c ∈ s.reverse.head?, isBlank c = false := by
    rw [List.head?_reverse]
    exact h.last
  rw [trim, trimStart, dropWhile_of_head h.first, trimEnd, dropWhile_of_head hlast,
    List.reverse_reverse]

theorem bare_trim (s : List Char) : Bare (trim s) := by
  have hfirst := head_dropWhile isBlank s
  have hsuffix : (trimStart s).reverse.dropWhile isBlank <:+ (trimStart s).reverse :=
    List.dropWhile_suffix isBlank
  have hbegins : trim s <+: trimStart s := by
    rw [← List.reverse_suffix, trim, trimEnd, List.reverse_reverse]
    exact hsuffix
  constructor
  · obtain ⟨rest, hrest⟩ := hbegins
    intro c hc
    refine hfirst c ?_
    change c ∈ (trimStart s).head?
    rw [← hrest, List.head?_append, Option.mem_def.mp hc]
    rfl
  · rw [trim, trimEnd, List.getLast?_reverse]
    exact head_dropWhile isBlank _

theorem strip_strip (s : String) : strip (strip s) = strip s := by
  simp only [strip, String.toList_ofList, trim_of_ends (bare_trim s.toList)]

theorem all_dropWhile (p : Char → Bool) (s : List Char) : (s.dropWhile p).all p = s.all p := by
  induction s with
  | nil => rfl
  | cons c rest ih =>
    cases hc : p c with
    | true => rw [List.dropWhile_cons_of_pos hc, ih, List.all_cons, hc, Bool.true_and]
    | false => rw [List.dropWhile_cons_of_neg (by simp [hc])]

theorem trim_eq_nil_iff (s : List Char) : trim s = [] ↔ s.all isBlank = true := by
  rw [trim, trimEnd, List.reverse_eq_nil_iff, List.dropWhile_eq_nil_iff, ← List.all_eq_true,
    List.all_reverse, trimStart, all_dropWhile]

theorem strip_eq_empty_iff (s : String) : strip s = "" ↔ isBlankText s = true := by
  rw [isBlankText, ← trim_eq_nil_iff, strip, String.ofList_eq_empty_iff]

theorem strip_ne_empty_iff (s : String) : strip s ≠ "" ↔ isBlankText s = false := by
  rw [Ne, strip_eq_empty_iff, Bool.not_eq_true]

theorem isBlankText_strip (s : String) : isBlankText (strip s) = isBlankText s := by
  rw [Bool.eq_iff_iff, ← strip_eq_empty_iff, strip_strip, strip_eq_empty_iff]

/-! ## White space at the ends -/

section Ends

variable {gap s t : List Char}

theorem trimStart_append_of_blank (h : gap.all isBlank = true) (s : List Char) :
    trimStart (gap ++ s) = trimStart s :=
  List.dropWhile_append_of_pos fun c hc => List.all_eq_true.mp h c hc

theorem trimStart_append (h : s.all isBlank = false) (t : List Char) :
    trimStart (s ++ t) = trimStart s ++ t := by
  have hne : (s.dropWhile isBlank).isEmpty = false := by
    rw [List.isEmpty_eq_false_iff, Ne, List.dropWhile_eq_nil_iff, ← List.all_eq_true, h]
    exact Bool.false_ne_true
  rw [trimStart, List.dropWhile_append, hne, if_neg Bool.false_ne_true, trimStart]

theorem trimEnd_eq (s : List Char) : trimEnd s = (trimStart s.reverse).reverse := rfl

theorem trimEnd_append_of_blank (h : gap.all isBlank = true) (s : List Char) :
    trimEnd (s ++ gap) = trimEnd s := by
  rw [trimEnd_eq, List.reverse_append, trimStart_append_of_blank (by rwa [List.all_reverse]),
    ← trimEnd_eq]

theorem trimEnd_append (h : t.all isBlank = false) (s : List Char) :
    trimEnd (s ++ t) = s ++ trimEnd t := by
  rw [trimEnd_eq, List.reverse_append, trimStart_append (by rwa [List.all_reverse]),
    List.reverse_append, List.reverse_reverse, ← trimEnd_eq]

theorem trim_append_of_blank (h : gap.all isBlank = true) (s : List Char) :
    trim (gap ++ s) = trim s := by
  rw [trim, trimStart_append_of_blank h, trim]

theorem trim_of_append_blank (h : gap.all isBlank = true) (s : List Char) :
    trim (s ++ gap) = trim s := by
  cases hs : s.all isBlank with
  | true =>
    have hall : (s ++ gap).all isBlank = true := by rw [List.all_append, hs, h, Bool.and_self]
    rw [(trim_eq_nil_iff _).mpr hall, (trim_eq_nil_iff _).mpr hs]
  | false => rw [trim, trimStart_append hs, trimEnd_append_of_blank h, trim]

/-- Between two texts that are not blank nothing is trimmed. -/
theorem trim_between (hs : s.all isBlank = false) (ht : t.all isBlank = false)
    (middle : List Char) : trim (s ++ (middle ++ t)) = trimStart s ++ (middle ++ trimEnd t) := by
  rw [trim, trimStart_append hs, ← List.append_assoc, trimEnd_append ht, List.append_assoc]

end Ends

theorem strip_surrounded {before after : String} (hbefore : isBlankText before = true)
    (hafter : isBlankText after = true) (s : String) : strip (before ++ s ++ after) = strip s := by
  rw [strip, String.toList_append, trim_of_append_blank hafter, String.toList_append,
    trim_append_of_blank hbefore, strip]

end CommentThreads.Text
