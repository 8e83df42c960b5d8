/-
CommentThreads.Proofs.Http.Target — references that reach a server as the path they
are written as.

A reference is cut at its marks, encoded, and rid of its dot segments, and the server
decodes it. A text that holds no marks, no control characters, no dot segments
and no percent sign with two digits behind it comes through all of this unchanged
(`ofReference?_verbatim`, `decodedPath_verbatim`). Behind a question mark such a path
ends, and a query begins (`ofReference?_query`).
-/
import Mathlib.Data.List.TakeWhile
import CommentThreads.Proofs.Text.Lines
import CommentThreads.Proofs.Text.Percent
import CommentThreads.Server.Route

namespace CommentThreads.Http.Target

open CommentThreads.Server CommentThreads.Text

/-! ## Segments -/

theorem joinSegments_cons (segment : List Char) {rest : List (List Char)} (h : rest ≠ []) :
    joinSegments (segment :: rest) = segment ++ '/' :: joinSegments rest := by
  cases rest with
  | nil => exact absurd rfl h
  | cons next rest => rfl

theorem joinSegments_splitAt (s : List Char) : joinSegments (splitAt '/' s) = s := by
  induction s with
  | nil => rfl
  | cons c s ih =>
    rw [splitAt]
    split
    next hc => rw [joinSegments_cons _ (splitAt_ne_nil '/' s), ih, hc, List.nil_append]
    next =>
      cases hpieces : splitAt '/' s with
      | nil => exact absurd hpieces (splitAt_ne_nil '/' s)
      | cons first rest =>
        rw [hpieces] at ih
        cases rest with
        | nil =>
          rw [← ih]
          rfl
        | cons next rest =>
          rw [← ih]
          rfl

theorem splitAt_joinSegments {segments : List (List Char)} (hne : segments ≠ [])
    (h : ∀ segment ∈ segments, '/' ∉ segment) : splitAt '/' (joinSegments segments) = segments := by
  induction segments with
  | nil => exact absurd rfl hne
  | cons segment rest ih =>
    have hsegment := h segment List.mem_cons_self
    cases rest with
    | nil => exact splitAt_of_not_mem hsegment
    | cons next rest =>
      have hrest := ih (List.cons_ne_nil next rest) fun s hs =>
        h s (List.mem_cons_of_mem segment hs)
      rw [joinSegments_cons segment (List.cons_ne_nil next rest), splitAt_append hsegment, hrest]

/-- A segment that is resolved instead of kept. -/
def IsDots (segment : List Char) : Prop := segment = ['.'] ∨ segment = ['.', '.']

instance (segment : List Char) : Decidable (IsDots segment) :=
  inferInstanceAs (Decidable (_ ∨ _))

theorem resolveDots_of_not_isDots {segments : List (List Char)} (kept : List (List Char))
    (h : ∀ segment ∈ segments, ¬IsDots segment) :
    resolveDots kept segments = kept.reverse ++ segments := by
  induction segments generalizing kept with
  | nil => exact (List.append_nil _).symm
  | cons segment rest ih =>
    obtain ⟨hone, htwo⟩ := not_or.mp (h segment List.mem_cons_self)
    rw [resolveDots, if_neg hone, if_neg htwo,
      ih _ fun s hs => h s (List.mem_cons_of_mem segment hs)]
    simp

theorem percentEncode_joinSegments {safe : Char → Bool} (hslash : safe '/' = true)
    (segments : List (List Char)) :
    percentEncode safe (joinSegments segments) =
      joinSegments (segments.map (percentEncode safe)) := by
  induction segments with
  | nil => rfl
  | cons segment rest ih =>
    cases rest with
    | nil => rfl
    | cons next rest =>
      have hne : (next :: rest).map (percentEncode safe) ≠ [] := List.cons_ne_nil _ _
      rw [joinSegments_cons segment (List.cons_ne_nil next rest), percentEncode_append,
        percentEncode_cons_of_safe hslash, ih]
      exact (joinSegments_cons _ hne).symm

/-- Encoding makes no slashes. -/
theorem slash_not_mem_percentEncode {safe : Char → Bool} {segment : List Char}
    (h : '/' ∉ segment) : '/' ∉ percentEncode safe segment := by
  intro hmem
  rcases mem_percentEncode hmem with ⟨hmem, -⟩ | hsign | ⟨n, hn, hdigit⟩
  · exact h hmem
  · exact absurd hsign (by decide)
  · have hall : ∀ n < 16, '/' ≠ capitalHexChar n := by decide
    exact hall n hn hdigit

/-- Encoding makes no dot segments. -/
theorem not_isDots_percentEncode {safe : Char → Bool} {segment : List Char}
    (h : ¬IsDots segment) : ¬IsDots (percentEncode safe segment) := by
  intro hdots
  have hsign : '%' ∉ percentEncode safe segment := by
    rcases hdots with hone | htwo
    · rw [hone]
      decide
    · rw [htwo]
      decide
  rw [eq_of_sign_not_mem hsign] at hdots
  exact h hdots

/-- A path without dot segments is left as it is encoded. -/
theorem normalize_percentEncode {safe : Char → Bool} (hslash : safe '/' = true) {path : List Char}
    (h : ∀ segment ∈ splitAt '/' path, ¬IsDots segment) :
    normalize (percentEncode safe path) = percentEncode safe path := by
  have hencoded : percentEncode safe path =
      joinSegments ((splitAt '/' path).map (percentEncode safe)) := by
    rw [← percentEncode_joinSegments hslash, joinSegments_splitAt]
  have hne : (splitAt '/' path).map (percentEncode safe) ≠ [] :=
    fun hnil => splitAt_ne_nil '/' path (List.map_eq_nil_iff.mp hnil)
  have hslashes : ∀ segment ∈ (splitAt '/' path).map (percentEncode safe), '/' ∉ segment := by
    intro segment hsegment
    obtain ⟨piece, hpiece, rfl⟩ := List.mem_map.mp hsegment
    exact slash_not_mem_percentEncode (not_mem_of_mem_splitAt hpiece)
  have hdots : ∀ segment ∈ (splitAt '/' path).map (percentEncode safe), ¬IsDots segment := by
    intro segment hsegment
    obtain ⟨piece, hpiece, rfl⟩ := List.mem_map.mp hsegment
    exact not_isDots_percentEncode (h piece hpiece)
  rw [hencoded, normalize, splitAt_joinSegments hne hslashes, resolveDots_of_not_isDots _ hdots]
  rfl

/-! ## References -/

/-- A path that is read as it is written. -/
structure Verbatim (path : List Char) : Prop where
  controls : ∀ c ∈ path, isControl c = false
  query : '?' ∉ path
  fragment : '#' ∉ path
  escapes : hasEscape path = false
  dots : ∀ segment ∈ splitAt '/' path, ¬IsDots segment
  fits : (percentEncode isPathChar path).length ≤ mostChars

theorem keepsAscii_isPathChar : KeepsAscii isPathChar := by
  intro c hc
  simp only [isPathChar, isQueryChar, isVisibleAscii, Bool.and_eq_true, decide_eq_true_eq] at hc
  exact Nat.lt_of_le_of_lt hc.1.1.2 (by decide)

/-- A path from the root on: one slash, and then another character. -/
def Rooted (path : List Char) : Prop := ∃ c rest, c ≠ '/' ∧ path = '/' :: c :: rest

theorem Rooted.ne_nil {path : List Char} (h : Rooted path) : path ≠ [] := by
  obtain ⟨c, rest, -, rfl⟩ := h
  exact List.cons_ne_nil _ _

theorem Rooted.percentEncode {path : List Char} (h : Rooted path) :
    '/' :: (percentEncode isPathChar path).dropWhile (· = '/') = percentEncode isPathChar path := by
  obtain ⟨c, rest, hc, rfl⟩ := h
  rw [percentEncode_cons_of_safe (show isPathChar '/' = true by decide)]
  by_cases hsafe : isPathChar c = true
  · rw [percentEncode_cons_of_safe hsafe]
    simp [hc]
  · obtain ⟨tail, htail⟩ := percentEncode_cons_of_not_safe hsafe rest
    rw [htail]
    simp

theorem any_isControl_eq_false {s : List Char} (h : ∀ c ∈ s, isControl c = false) :
    s.any isControl = false := by
  rw [List.any_eq_false]
  intro c hc
  rw [h c hc]
  decide

/-- All of a text stands before a mark that it does not hold. -/
theorem takeWhile_of_not_mem {mark : Char} {s : List Char} (h : mark ∉ s) :
    s.takeWhile (· ≠ mark) = s := by
  rw [List.takeWhile_eq_self_iff]
  exact fun c hc => decide_eq_true fun heq => h (heq ▸ hc)

/-- Its target is the path, encoded. -/
theorem ofReference?_verbatim {path : List Char} (hroot : Rooted path) (h : Verbatim path) :
    ofReference? path = some ⟨percentEncode isPathChar path, none⟩ := by
  have hnone : path.contains '?' = false := by
    rw [List.contains_eq_mem, decide_eq_false_iff_not]
    exact h.query
  have hlength : path.length ≤ mostChars := (length_le_percentEncode _ _).trans h.fits
  simp only [ofReference?, any_isControl_eq_false h.controls, takeWhile_of_not_mem h.fragment,
    takeWhile_of_not_mem h.query, hnone, hroot.percentEncode,
    normalize_percentEncode (show isPathChar '/' = true by decide) h.dots]
  simp [hlength, h.fits]

/-- What may stand behind a question mark. -/
structure IsQuery (path rest : List Char) : Prop where
  controls : ∀ c ∈ rest, isControl c = false
  fragment : '#' ∉ rest
  fits : (path ++ '?' :: rest).length ≤ mostChars
  encoded_fits : (percentEncode isQueryChar rest).length ≤ mostChars

/-- A question mark ends the path. -/
theorem ofReference?_query {path rest : List Char} (hroot : Rooted path) (h : Verbatim path)
    (hrest : IsQuery path rest) :
    ofReference? (path ++ '?' :: rest) =
      some ⟨percentEncode isPathChar path, some (percentEncode isQueryChar rest)⟩ := by
  have hcontrol : ∀ c ∈ path ++ '?' :: rest, isControl c = false := by
    intro c hc
    rcases List.mem_append.mp hc with hc | hc
    · exact h.controls c hc
    · rcases List.mem_cons.mp hc with rfl | hc
      · decide
      · exact hrest.controls c hc
  have hfragment : '#' ∉ path ++ '?' :: rest := by
    simp [h.fragment, hrest.fragment]
  have hbefore := List.takeWhile_eq_self_iff.mp (takeWhile_of_not_mem h.query)
  have hpath : (path ++ '?' :: rest).takeWhile (· ≠ '?') = path := by
    rw [List.takeWhile_append_of_pos hbefore]
    simp
  have hquery : (path ++ '?' :: rest).dropWhile (· ≠ '?') = '?' :: rest := by
    rw [List.dropWhile_append_of_pos hbefore]
    simp
  have hsome : (path ++ '?' :: rest).contains '?' = true := by simp
  have hlength := hrest.fits
  rw [List.length_append, List.length_cons] at hlength
  simp only [ofReference?, any_isControl_eq_false hcontrol, takeWhile_of_not_mem hfragment, hpath,
    hquery, hsome, hroot.percentEncode,
    normalize_percentEncode (show isPathChar '/' = true by decide) h.dots]
  simp [hlength, h.fits, hrest.encoded_fits]

/-- The server reads the path that was written. -/
theorem decodedPath_verbatim {path : List Char} (hroot : Rooted path) (h : Verbatim path)
    (query : Option (List Char)) :
    decodedPath ⟨percentEncode isPathChar path, query⟩ = path := by
  rw [decodedPath, percentDecode_percentEncode keepsAscii_isPathChar fun _ => h.escapes]
  exact if_neg hroot.ne_nil

/-! ## Fields -/

/-- A value that is as long as an address may be fits into none. -/
theorem ofField?_of_long {value : String} (h : mostChars ≤ value.toList.length)
    (path key : String) : ofField? path key value = none := by
  have hvalue := length_le_formEncode value.toList
  have hlong : mostChars < (formEncode key.toList ++ '=' :: formEncode value.toList).length := by
    rw [List.length_append, List.length_cons]
    omega
  exact if_pos hlong

end CommentThreads.Http.Target
