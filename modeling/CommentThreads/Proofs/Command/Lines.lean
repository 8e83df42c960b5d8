/-
CommentThreads.Proofs.Command.Lines — what is so of every line.

White space is stripped off a line before the line is cut, and both have the same notion
of it. So a line that is not blank has a first token (`tokens_ne_nil`), and asks for
something. White space around a line says nothing, even where it stands behind a mark
without a partner. White space outside of marks separates, whatever it consists of
(`ofLine?_respaced`).

`regular` is the result: a line asks for nothing exactly if it is blank, its spacing does
not matter, and what it asks for is well formed.
-/
import CommentThreads.Proofs.Command.Cuts
import CommentThreads.Proofs.Command.Parser

namespace CommentThreads.Command

open CommentThreads.Text

/-! ## A first token -/

/-- A token that has begun is finished, whatever follows. -/
theorem tokensFrom_some_ne_nil (quoted : Bool) (current : List Char) (rest : List Char) :
    tokensFrom quoted (some current) rest ≠ [] := by
  induction rest generalizing quoted current with
  | nil => exact List.cons_ne_nil _ _
  | cons c rest ih =>
    rw [tokensFrom]
    split
    · exact ih _ _
    · split
      · exact List.cons_ne_nil _ _
      · exact ih _ _

theorem tokens_ne_nil {line : String} (h : isBlankText line = false) :
    tokens (strip line) ≠ [] := by
  have hbare := (bare_trim line.toList).first
  rw [Ne, tokens, List.map_eq_nil_iff, strip, String.toList_ofList]
  cases hchars : trim line.toList with
  | nil =>
    have hblank := (trim_eq_nil_iff _).mp hchars
    rw [isBlankText, hblank] at h
    cases h
  | cons c rest =>
    rw [hchars] at hbare
    rw [tokensFrom, hbare c rfl, Bool.false_and, if_neg Bool.false_ne_true]
    split
    · exact tokensFrom_some_ne_nil _ _ _
    · exact tokensFrom_some_ne_nil _ _ _

theorem ofTokens?_eq_none_iff (words : List String) : ofTokens? words = none ↔ words = [] := by
  constructor
  · intro h
    unfold ofTokens? at h
    split at h
    · rfl
    all_goals cases h
  · rintro rfl
    rfl

/-- Only a blank line asks for nothing. -/
theorem ofLine?_eq_none_iff (line : String) : ofLine? line = none ↔ isBlankText line = true := by
  rw [ofLine?, ofTokens?_eq_none_iff]
  constructor
  · intro h
    by_contra hblank
    exact tokens_ne_nil (Bool.not_eq_true _ ▸ hblank) h
  · intro h
    rw [(strip_eq_empty_iff line).mpr h]
    rfl

/-! ## Spacing -/

/-- White space between two words. -/
def IsGap (gap : String) : Prop := isBlankText gap = true ∧ gap ≠ ""

/-- White space outside of marks ends the token under way, if there is one. -/
theorem tokensFrom_between {gap : List Char} (h : gap.all isBlank = true) (hne : gap ≠ [])
    (current : Current) (rest : List Char) :
    tokensFrom false current (gap ++ rest) = current.finish ++ tokensFrom false none rest := by
  cases current with
  | none => exact tokensFrom_gap h rest
  | some token =>
    have hended := tokensFrom_ended h hne token.reverse rest
    rw [List.reverse_reverse] at hended
    exact hended

/-- What begins alike goes on alike, if it does so with any token under way. -/
theorem tokensFrom_congr {before read rest rest' : List Char}
    (h : ∀ current, tokensFrom (!outsideMarks (before ++ read)) current rest =
      tokensFrom (!outsideMarks (before ++ read)) current rest') (current : Current) :
    tokensFrom (!outsideMarks before) current (read ++ rest) =
      tokensFrom (!outsideMarks before) current (read ++ rest') := by
  induction read generalizing before current with
  | nil => simpa using h current
  | cons c read ih =>
    have hnext := @ih (before ++ [c]) (by simpa using h)
    rw [outsideMarks_concat] at hnext
    rw [List.cons_append, List.cons_append, tokensFrom, tokensFrom]
    by_cases hmark : c = '"'
    · rw [if_pos hmark] at hnext
      rw [if_pos hmark, if_pos hmark, hnext]
    · rw [if_neg hmark] at hnext
      rw [if_neg hmark, if_neg hmark, hnext, hnext]

section Gaps

variable {start gap gap' rest : List Char}

/-- Outside of marks one gap is as good as another. -/
theorem tokensFrom_respaced (hout : outsideMarks start = true) (hgap : gap.all isBlank = true)
    (hne : gap ≠ []) (hgap' : gap'.all isBlank = true) (hne' : gap' ≠ []) :
    tokensFrom false none (start ++ (gap ++ rest)) =
      tokensFrom false none (start ++ (gap' ++ rest)) := by
  have hsame (current : Current) : tokensFrom (!outsideMarks ([] ++ start)) current (gap ++ rest) =
      tokensFrom (!outsideMarks ([] ++ start)) current (gap' ++ rest) := by
    rw [List.nil_append, hout, Bool.not_true, tokensFrom_between hgap hne,
      tokensFrom_between hgap' hne']
  exact tokensFrom_congr hsame none

/-- The white space at the beginning of a line holds no marks. -/
theorem outsideMarks_trimStart (s : List Char) : outsideMarks (trimStart s) = outsideMarks s := by
  induction s with
  | nil => rfl
  | cons c s ih =>
    cases hc : isBlank c with
    | true =>
      have hmark : c ≠ '"' := by
        rintro rfl
        exact absurd hc (by decide)
      rw [trimStart, List.dropWhile_cons_of_pos hc, ← trimStart, ih, outsideMarks, outsideMarks,
        List.count_cons_of_ne hmark]
    | false => rw [trimStart, List.dropWhile_cons_of_neg (by simp [hc])]

end Gaps

/-- A gap at either end of a line is stripped off; any other one stays, and is cut at. -/
theorem ofLine?_respaced {start gap gap' rest : String} (hout : outsideMarks start.toList = true)
    (hgap : IsGap gap) (hgap' : IsGap gap') :
    ofLine? (start ++ gap ++ rest) = ofLine? (start ++ gap' ++ rest) := by
  have hends {gap : String} (hgap : IsGap gap) :
      (isBlankText start = true → strip (start ++ gap ++ rest) = strip rest) ∧
        (isBlankText rest = true → strip (start ++ gap ++ rest) = strip start) := by
    have hblank := hgap.1
    constructor
    · intro hstart
      have hbefore : isBlankText (start ++ gap) = true := by
        rw [isBlankText, String.toList_append, List.all_append, ← isBlankText, ← isBlankText,
          hstart, hblank, Bool.and_self]
      simpa using strip_surrounded hbefore (show isBlankText "" = true from rfl) rest
    · intro hrest
      have hafter : isBlankText (gap ++ rest) = true := by
        rw [isBlankText, String.toList_append, List.all_append, ← isBlankText, ← isBlankText,
          hrest, hblank, Bool.and_self]
      simpa [String.append_assoc] using
        strip_surrounded (show isBlankText "" = true from rfl) hafter start
  cases hstart : isBlankText start with
  | true => rw [ofLine?, ofLine?, (hends hgap).1 hstart, (hends hgap').1 hstart]
  | false =>
    cases hrest : isBlankText rest with
    | true => rw [ofLine?, ofLine?, (hends hgap).2 hrest, (hends hgap').2 hrest]
    | false =>
      have hbetween (gap : String) : (strip (start ++ gap ++ rest)).toList =
          trimStart start.toList ++ (gap.toList ++ trimEnd rest.toList) := by
        rw [strip, String.toList_ofList, String.toList_append, String.toList_append,
          List.append_assoc, trim_between hstart hrest]
      rw [← outsideMarks_trimStart] at hout
      rw [ofLine?, ofLine?, tokens, tokens, hbetween, hbetween,
        tokensFrom_respaced hout hgap.1 (by simpa using hgap.2) hgap'.1 (by simpa using hgap'.2)]

/-! ## Well-formed commands -/

/-- A draft in which nothing that is given is empty, but for the message. -/
structure Filled (draft : Draft) : Prop where
  author_ne : draft.author ≠ some ""
  password_ne : draft.password ≠ some ""
  parent_ne : draft.parent ≠ some ""

theorem nonEmpty?_ne (s : String) : nonEmpty? s ≠ some "" := by
  unfold nonEmpty?
  split
  · exact nofun
  · next hne =>
    rintro ⟨⟩
    exact hne rfl

theorem filled_empty : Filled .empty := ⟨nofun, nofun, nofun⟩

theorem filled_addFlag {draft : Draft} (h : Filled draft) (word : String) :
    Filled (addFlag draft word) := by
  unfold addFlag
  split
  · exact ⟨nonEmpty?_ne _, h.password_ne, h.parent_ne⟩
  · exact ⟨h.author_ne, nonEmpty?_ne _, h.parent_ne⟩
  · exact ⟨h.author_ne, h.password_ne, nonEmpty?_ne _⟩
  · exact h

theorem filled_addFlags {draft : Draft} (h : Filled draft) (words : List String) :
    Filled (addFlags draft words) := by
  induction draft, words using addFlags.induct with
  | case1 draft => exact h
  | case2 draft word => exact filled_addFlag h word
  | case3 draft next rest ih =>
    rw [addFlags, if_pos rfl]
    exact ih ⟨h.author_ne, h.password_ne, h.parent_ne⟩
  | case4 draft word next rest hword ih =>
    rw [addFlags, if_neg hword]
    exact ih (filled_addFlag h word)

/-- A command that can be carried out as it stands: nothing that has to be given is empty,
and a name that is to be configured is stripped. -/
def WellFormed : Command → Prop
  | .rebase hash | .reset hash => hash ≠ ""
  | .config key value => key = "user.name" ∧ ∀ name ∈ value, name ≠ "" ∧ strip name = name
  | .commit draft => Filled draft
  | _ => True

theorem wellFormed_of_askable {command : Command} (h : Askable command) : command.WellFormed := by
  cases h with
  | commit words => exact filled_addFlags filled_empty words
  | rebase hne => exact hne
  | reset hne => exact hne
  | showConfig hkey => exact ⟨List.mem_singleton.mp hkey, nofun⟩
  | @setConfig key value hkey hvalue =>
    refine ⟨List.mem_singleton.mp hkey, ?_⟩
    rintro _ ⟨⟩
    exact ⟨hvalue, strip_strip value⟩
  | _ => trivial

/-! ## Every line -/

/-- What is so of a line: it has a first token unless it is blank, and asks for nothing
exactly if it is; what it asks for does not depend on the white space around it and on
that between its words; and the command is well formed. -/
structure Regular (line : String) : Prop where
  begins : isBlankText line = false → tokens (strip line) ≠ []
  none_iff : ofLine? line = none ↔ isBlankText line = true
  surrounded : ∀ before after, isBlankText before = true → isBlankText after = true →
    ofLine? (before ++ line ++ after) = ofLine? line
  respaced : ∀ start gap rest gap', line = start ++ gap ++ rest → outsideMarks start.toList = true →
    IsGap gap → IsGap gap' → ofLine? (start ++ gap' ++ rest) = ofLine? line
  wellFormed : ∀ command, ofLine? line = some command → command.WellFormed

theorem regular (line : String) : Regular line where
  begins := tokens_ne_nil
  none_iff := ofLine?_eq_none_iff line
  surrounded before after hbefore hafter := by
    rw [ofLine?, strip_surrounded hbefore hafter, ofLine?]
  respaced start gap rest gap' hline hout hgap hgap' := by
    rw [hline]
    exact ofLine?_respaced hout hgap' hgap
  wellFormed command h := wellFormed_of_askable (askable_of_ofLine? h)

/-- The white space behind a mark without a partner is stripped off all the same. -/
example : ofLine? "\u2003git\tcommit -m \"a  b \n" =
    some (.commit ⟨none, none, some "a  b", none⟩) := by decide +kernel

end CommentThreads.Command
