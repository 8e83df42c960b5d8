/-
CommentThreads.Proofs.Command.Cuts — what the tokens of a line are, told from the line
as a whole.

A place of a line is outside of marks if an even number of marks stand before it. The line
is cut at the white space that stands outside of marks. The pieces in which nothing stands
are dropped, and the marks are taken out of the others (`cutTokens`).

`tokens_of_cuts` is the result: reading from left to right, with a token under way, gives
just these tokens; and any tokens without marks are read back if each one is written
between marks, with white space of any kind between them.
-/
import CommentThreads.Proofs.Command.Tokens

namespace CommentThreads.Command

open CommentThreads.Text

/-! ## The cuts -/

/-- What stands behind these characters is outside of marks: they hold an even number. -/
def outsideMarks (before : List Char) : Bool := before.count '"' % 2 = 0

/-- A character of a line at its place is white space outside of marks. -/
def isCut (line : List Char) (c : Char × Nat) : Bool :=
  isBlank c.1 && outsideMarks (line.take c.2)

/-- The pieces of a line between its cuts. -/
def cutPieces (line : List Char) : List (List Char) :=
  (line.zipIdx.splitOnP (isCut line)).map (List.map Prod.fst)

/-- A piece without its marks. -/
def unmarked (piece : List Char) : List Char := piece.filter (· ≠ '"')

/-- The tokens that pieces make. -/
def tokensOfPieces (pieces : List (List Char)) : List (List Char) :=
  (pieces.filter (· ≠ [])).map unmarked

/-- The tokens of a line, told from its cuts. -/
def cutTokens (line : String) : List String :=
  (tokensOfPieces (cutPieces line.toList)).map String.ofList

/-! ## A token under way -/

/-- The token under way with a piece behind it. A piece with nothing in it does not even
begin a token. -/
def Current.continued (current : Current) (piece : List Char) : Current :=
  if piece = [] then current else current.extend (unmarked piece)

/-- The tokens of pieces of which the first one goes on with the token under way. -/
def Current.gather (current : Current) : List (List Char) → List (List Char)
  | [] => current.finish
  | piece :: rest => (current.continued piece).finish ++ tokensOfPieces rest

theorem outsideMarks_concat (read : List Char) (c : Char) :
    outsideMarks (read ++ [c]) = if c = '"' then !outsideMarks read else outsideMarks read := by
  rw [outsideMarks, outsideMarks, List.count_append, List.count_singleton]
  by_cases hmark : c = '"'
  · rw [if_pos hmark, if_pos (beq_iff_eq.mpr hmark), ← decide_not]
    exact decide_eq_decide.mpr (by omega)
  · rw [if_neg hmark, if_neg fun hsame => hmark (beq_iff_eq.mp hsame), Nat.add_zero]

theorem tokensOfPieces_cons (piece : List Char) (rest : List (List Char)) :
    tokensOfPieces (piece :: rest) =
      (if piece = [] then [] else [unmarked piece]) ++ tokensOfPieces rest := by
  by_cases hpiece : piece = []
  · simp [tokensOfPieces, hpiece]
  · simp [tokensOfPieces, hpiece]

/-- Where no token is under way, pieces make the tokens that they are. -/
theorem gather_none (pieces : List (List Char)) :
    Current.gather none pieces = tokensOfPieces pieces := by
  cases pieces with
  | nil => rfl
  | cons piece rest =>
    rw [Current.gather, tokensOfPieces_cons, Current.continued]
    split
    · rfl
    · simp [Current.extend, Current.finish]

/-- A character in front of the first piece belongs to the token under way. -/
theorem gather_modifyHead (current : Current) (c : Char) {pieces : List (List Char)}
    (h : pieces ≠ []) :
    current.gather (pieces.modifyHead (c :: ·)) = Current.gather
      (if c = '"' then some (current.getD []) else current.push c) pieces := by
  obtain ⟨piece, rest, rfl⟩ := List.exists_cons_of_ne_nil h
  have hcontinued : current.continued (c :: piece) = Current.continued
      (if c = '"' then some (current.getD []) else current.push c) piece := by
    by_cases hmark : c = '"' <;> by_cases hpiece : piece = [] <;>
      simp [Current.continued, Current.extend, Current.push, unmarked, hmark, hpiece]
  rw [List.modifyHead_cons, Current.gather, Current.gather, hcontinued]

/-- The pieces of the rest of a line, of which some has been read. -/
def piecesBehind (read rest : List Char) : List (List Char) :=
  ((rest.zipIdx read.length).splitOnP (isCut (read ++ rest))).map (List.map Prod.fst)

theorem piecesBehind_ne_nil (read rest : List Char) : piecesBehind read rest ≠ [] := by
  rw [piecesBehind, Ne, List.map_eq_nil_iff]
  exact List.splitOnP_ne_nil _ _

theorem piecesBehind_cons (read : List Char) (c : Char) (rest : List Char) :
    piecesBehind read (c :: rest) =
      if isBlank c && outsideMarks read then [] :: piecesBehind (read ++ [c]) rest
      else (piecesBehind (read ++ [c]) rest).modifyHead (c :: ·) := by
  have hcut : isCut (read ++ c :: rest) (c, read.length) = (isBlank c && outsideMarks read) := by
    rw [isCut, List.take_left]
  have hrest : piecesBehind (read ++ [c]) rest =
      ((rest.zipIdx (read.length + 1)).splitOnP (isCut (read ++ c :: rest))).map
        (List.map Prod.fst) := by
    rw [piecesBehind, List.length_append, List.length_singleton, List.append_assoc,
      List.singleton_append]
  rw [hrest, piecesBehind, List.zipIdx_cons, List.splitOnP_cons_eq_if_modifyHead, hcut]
  split
  · rfl
  · cases (rest.zipIdx (read.length + 1)).splitOnP (isCut (read ++ c :: rest)) <;> rfl

/-- Whatever has been read, and whatever token is under way, the rest of a line makes the
tokens that its cuts say. -/
theorem tokensFrom_eq_gather (read : List Char) (current : Current) (rest : List Char) :
    tokensFrom (!outsideMarks read) current rest = current.gather (piecesBehind read rest) := by
  induction rest generalizing read current with
  | nil => simp [tokensFrom, piecesBehind, Current.gather, Current.continued, tokensOfPieces]
  | cons c rest ih =>
    have hne := piecesBehind_ne_nil (read ++ [c]) rest
    have hrest := ih (read ++ [c])
    rw [outsideMarks_concat] at hrest
    rw [tokensFrom, piecesBehind_cons, Bool.not_not]
    by_cases hmark : c = '"'
    · have hblank : isBlank c = false := by
        rw [hmark]
        decide
      rw [if_pos hmark, Bool.not_not] at hrest
      rw [if_pos hmark, hblank, Bool.false_and, if_neg Bool.false_ne_true,
        gather_modifyHead _ _ hne, if_pos hmark, hrest]
    · rw [if_neg hmark] at hrest
      rw [if_neg hmark]
      split
      · rw [hrest, gather_none]
        rfl
      · rw [gather_modifyHead _ _ hne, if_neg hmark, hrest]

theorem tokens_eq_cutTokens (line : String) : tokens line = cutTokens line := by
  have hstart : (!outsideMarks []) = false := rfl
  rw [tokens, ← hstart, tokensFrom_eq_gather, gather_none]
  rfl

/-! ## Tokens between marks -/

/-- Tokens written one behind the other, each between marks and behind a gap of its own. -/
def written : List (String × String) → String
  | [] => ""
  | (gap, token) :: rest => gap ++ "\"" ++ token ++ "\"" ++ written rest

example : written [(" ", "git"), ("\t", ""), ("  ", "a b")] = " \"git\"\t\"\"  \"a b\"" := by decide

theorem toList_written_cons (gap token : String) (rest : List (String × String)) (after : String) :
    (written ((gap, token) :: rest) ++ after).toList =
      gap.toList ++ '"' :: (token.toList ++ '"' :: (written rest ++ after).toList) := by
  have hmark : ("\"" : String).toList = ['"'] := rfl
  simp [written, hmark]

section Written

variable {gap token : List Char}

/-- White space in front of a token. -/
theorem tokensFrom_gap (h : gap.all isBlank = true) (rest : List Char) :
    tokensFrom false none (gap ++ rest) = tokensFrom false none rest := by
  induction gap with
  | nil => rfl
  | cons c gap ih =>
    rw [List.all_cons, Bool.and_eq_true] at h
    have hmark : c ≠ '"' := by
      rintro rfl
      exact absurd h.1 (by decide)
    rw [List.cons_append, tokensFrom, if_neg hmark, h.1, Bool.not_false, Bool.and_true,
      if_pos rfl, ih h.2]
    rfl

/-- White space behind a token ends it. -/
theorem tokensFrom_ended (h : gap.all isBlank = true) (hne : gap ≠ []) (token rest : List Char) :
    tokensFrom false (some token.reverse) (gap ++ rest) =
      token :: tokensFrom false none rest := by
  obtain ⟨c, gap, rfl⟩ := List.exists_cons_of_ne_nil hne
  rw [List.all_cons, Bool.and_eq_true] at h
  have hmark : c ≠ '"' := by
    rintro rfl
    exact absurd h.1 (by decide)
  rw [List.cons_append, tokensFrom, if_neg hmark, h.1, Bool.not_false, Bool.and_true, if_pos rfl,
    tokensFrom_gap h.2]
  simp [Current.finish]

/-- What stands between marks is the token under way behind them. -/
theorem tokensFrom_marked (h : '"' ∉ token) (rest : List Char) :
    tokensFrom false none ('"' :: (token ++ '"' :: rest)) =
      tokensFrom false (some token.reverse) rest := by
  rw [tokensFrom, if_pos rfl, Bool.not_false, tokensFrom_quoted h]
  simp [Current.extend]

/-- The tokens of what is written, behind a token that has been read. -/
theorem tokensFrom_written {items : List (String × String)} {after : String}
    (hitems : ∀ item ∈ items, isBlankText item.1 = true ∧ '"' ∉ item.2.toList)
    (hgaps : ∀ item ∈ items, item.1 ≠ "") (hafter : isBlankText after = true)
    (token : List Char) :
    tokensFrom false (some token.reverse) (written items ++ after).toList =
      token :: items.map (·.2.toList) := by
  induction items generalizing token with
  | nil =>
    rw [written, String.empty_append]
    by_cases hne : after = ""
    · subst hne
      simp [tokensFrom, Current.finish]
    · have hend := tokensFrom_ended hafter (by simpa using hne) token []
      rw [List.append_nil] at hend
      rw [hend]
      rfl
  | cons item items ih =>
    obtain ⟨⟨hblank, hmark⟩, hitems⟩ := List.forall_mem_cons.mp hitems
    obtain ⟨hgap, hgaps⟩ := List.forall_mem_cons.mp hgaps
    rw [toList_written_cons, tokensFrom_ended hblank (by simpa using hgap),
      tokensFrom_marked hmark, ih hitems hgaps, List.map_cons]

end Written

/-- The tokens of a line are what its cuts say. So tokens without marks, empty ones and
ones with white space included, are read back as they are written between marks. -/
theorem tokens_of_cuts :
    (∀ line, tokens line = cutTokens line) ∧
      ∀ (items : List (String × String)) (after : String),
        (∀ item ∈ items, isBlankText item.1 = true ∧ '"' ∉ item.2.toList) →
          (∀ item ∈ items.tail, item.1 ≠ "") → isBlankText after = true →
            tokens (written items ++ after) = items.map Prod.snd := by
  refine ⟨tokens_eq_cutTokens, fun items after hitems hgaps hafter => ?_⟩
  have hread : tokensFrom false none (written items ++ after).toList =
      items.map (·.2.toList) := by
    cases items with
    | nil =>
      have hend := tokensFrom_gap hafter []
      rw [List.append_nil] at hend
      rw [written, String.empty_append, hend]
      rfl
    | cons item items =>
      obtain ⟨⟨hblank, hmark⟩, hitems⟩ := List.forall_mem_cons.mp hitems
      rw [toList_written_cons, tokensFrom_gap hblank, tokensFrom_marked hmark,
        tokensFrom_written hitems hgaps hafter, List.map_cons]
  rw [tokens, hread]
  simp

/-- An empty token, one with white space in it and one like a flag are read back. -/
theorem tokens_of_cuts_odd :
    let items := [("\t", ""), ("\u2003", " a\nb "), (" \x1c", "--author=Ann"), ("\n", "'")]
    (∀ item ∈ items, isBlankText item.1 = true ∧ '"' ∉ item.2.toList) ∧
      (∀ item ∈ items.tail, item.1 ≠ "") ∧ isBlankText "  " = true ∧
      tokens (written items ++ "  ") = ["", " a\nb ", "--author=Ann", "'"] := by
  intro items
  have hitems : ∀ item ∈ items, isBlankText item.1 = true ∧ '"' ∉ item.2.toList := by decide
  have hgaps : ∀ item ∈ items.tail, item.1 ≠ "" := by decide
  have hafter : isBlankText "  " = true := by decide
  exact ⟨hitems, hgaps, hafter, tokens_of_cuts.2 items "  " hitems hgaps hafter⟩

end CommentThreads.Command
