/-
CommentThreads.Proofs.Json.Numerals — the text of any binary number is read as a number.

Such a text has a point or an exponent in it (`Fractional`), so the reader takes all of
it for one numeral and stops at the mark behind it (`numeral?_numeral`). Which number it
reads is not said: `plainValue_real` says that it is one, and the same whatever comes
behind.
-/
import CommentThreads.Proofs.Json.Scalars
import Mathlib.Data.List.DropRight

namespace CommentThreads.Json

open CommentThreads.Text CommentThreads.Number CommentThreads.Number.Binary64

/-! ## Numerals with a fraction or an exponent -/

/-- Digits of which the first is no zero, unless it is the only one. -/
structure WholeDigits (whole : List Char) : Prop where
  digits : ∀ c ∈ whole, isDigit c = true
  leading : whole = ['0'] ∨ ∃ c rest, whole = c :: rest ∧ c ≠ '0'

/-- A sign and digits behind the mark of an exponent, or nothing. -/
def ExponentDigits (exponent : List Char) : Prop :=
  exponent = [] ∨ ∃ sign digits, exponent = sign :: digits ∧ (sign = '+' ∨ sign = '-') ∧
    digits ≠ [] ∧ ∀ c ∈ digits, isDigit c = true

theorem WholeDigits.exists_cons {whole : List Char} (h : WholeDigits whole) :
    ∃ c digits, whole = c :: digits ∧ isDigit c = true := by
  obtain ⟨c, digits, rfl⟩ : ∃ c digits, whole = c :: digits := by
    rcases h.leading with rfl | ⟨c, digits, rfl, -⟩
    · exact ⟨_, _, rfl⟩
    · exact ⟨_, _, rfl⟩
  exact ⟨c, digits, rfl, h.digits c List.mem_cons_self⟩

/-- The fraction behind its point. -/
def pointed (fraction : List Char) : List Char :=
  if fraction.isEmpty then [] else '.' :: fraction

/-- The exponent behind its mark. -/
def marked (exponent : List Char) : List Char :=
  if exponent.isEmpty then [] else 'e' :: exponent

theorem length_pointed (fraction : List Char) :
    (pointed fraction).length = if fraction.isEmpty then 0 else fraction.length + 1 := by
  unfold pointed
  split <;> rfl

theorem length_marked (exponent : List Char) :
    (marked exponent).length = if exponent.isEmpty then 0 else exponent.length + 1 := by
  unfold marked
  split <;> rfl

section Parts

variable {whole fraction exponent rest : List Char}

theorem head_marked (hrest : Ends rest) {c : Char} (hc : c ∈ (marked exponent ++ rest).head?) :
    c = 'e' ∨ c = ',' ∨ c = ']' ∨ c = '}' ∨ c = '\n' := by
  unfold marked at hc
  split at hc
  · exact .inr (hrest c hc)
  · exact .inl (Option.some.inj hc).symm

theorem noDigit_marked (hrest : Ends rest) : NoDigit (marked exponent ++ rest) := by
  intro c hc
  rcases head_marked hrest hc with rfl | rfl | rfl | rfl | rfl <;> decide

theorem noDigit_pointed (hrest : Ends rest) :
    NoDigit (pointed fraction ++ (marked exponent ++ rest)) := by
  intro c hc
  unfold pointed at hc
  split at hc
  · exact noDigit_marked hrest c hc
  · rw [← Option.some.inj hc]
    decide

/-- The digits before the point are all that is taken for them. -/
theorem whole_of_digits (hwhole : WholeDigits whole) (hrest : NoDigit rest) :
    (if (whole ++ rest).head? = some '0' then ['0'] else (whole ++ rest).takeWhile isDigit) =
      whole := by
  rcases hwhole.leading with rfl | ⟨c, digits, rfl, hne⟩
  · rfl
  · rw [if_neg (by simpa using hne), takeWhile_isDigit_append hwhole.digits hrest]

/-- So are the digits behind it. -/
theorem fraction_of_pointed (hfraction : ∀ c ∈ fraction, isDigit c = true) (hrest : Ends rest) :
    (if (pointed fraction ++ (marked exponent ++ rest)).head? = some '.' then
        ((pointed fraction ++ (marked exponent ++ rest)).drop 1).takeWhile isDigit
      else []) = fraction := by
  cases fraction with
  | nil =>
    have hhead : (marked exponent ++ rest).head? ≠ some '.' := by
      intro hpoint
      rcases head_marked hrest hpoint with h | h | h | h | h <;> cases h
    exact if_neg hhead
  | cons c digits =>
    exact (if_pos rfl).trans (takeWhile_isDigit_append hfraction (noDigit_marked hrest))

theorem drop_pointed (fraction rest : List Char) :
    (if fraction.isEmpty then pointed fraction ++ rest
      else (pointed fraction ++ rest).drop (fraction.length + 1)) = rest := by
  unfold pointed
  split
  · rfl
  · rw [List.cons_append, List.drop_succ_cons, List.drop_left]

/-- The exponent of a text that goes on at the mark for one. -/
def exponentAt (s : List Char) : List Char :=
  let mark := s.head? = some 'e' || s.head? = some 'E'
  let sign := if mark then (s.drop 1).takeWhile (fun c => c = '+' || c = '-') else []
  let sign := sign.take 1
  let digits := if mark then (s.drop (1 + sign.length)).takeWhile isDigit else []
  if digits.isEmpty then [] else sign ++ digits

theorem exponentAt_marked (hexponent : ExponentDigits exponent) (hrest : Ends rest) :
    exponentAt (marked exponent ++ rest) = exponent := by
  rcases hexponent with rfl | ⟨sign, digits, rfl, hsign, hne, hdigits⟩
  · have he : rest.head? ≠ some 'e' := head_ne_of_ends hrest (by decide)
    have hE : rest.head? ≠ some 'E' := head_ne_of_ends hrest (by decide)
    simp [exponentAt, marked, he, hE]
  · obtain ⟨d, more, rfl⟩ := List.exists_cons_of_ne_nil hne
    have hd := hdigits d List.mem_cons_self
    have hnosign : (d = '+' || d = '-') = false := by
      rw [Bool.or_eq_false_iff, decide_eq_false_iff_not, decide_eq_false_iff_not]
      constructor
      · rintro rfl
        exact absurd hd (by decide)
      · rintro rfl
        exact absurd hd (by decide)
    have htake : ((d :: more) ++ rest).takeWhile isDigit = d :: more :=
      takeWhile_isDigit_append hdigits (noDigit_of_ends hrest)
    have hsigned : (sign = '+' || sign = '-') = true := by
      simpa only [Bool.or_eq_true, decide_eq_true_eq] using hsign
    simp only [List.cons_append] at htake
    simp only [exponentAt, marked, List.isEmpty_cons, Bool.false_eq_true, if_false,
      List.cons_append, List.head?_cons, decide_true, Bool.true_or, if_true,
      List.drop_succ_cons, List.drop_zero, List.takeWhile_cons, hsigned, hnosign,
      List.take_succ_cons, List.take_zero, List.length_singleton, htake]
    rfl

/-- A numeral is read to its end, and no further. -/
theorem numeral?_numeral (hwhole : WholeDigits whole)
    (hfraction : ∀ c ∈ fraction, isDigit c = true) (hexponent : ExponentDigits exponent)
    (hrest : Ends rest) :
    numeral? (whole ++ (pointed fraction ++ (marked exponent ++ rest))) =
      some (⟨false, whole, fraction, exponent⟩,
        whole.length + (pointed fraction).length + (marked exponent).length) ∧
    numeral? ('-' :: (whole ++ (pointed fraction ++ (marked exponent ++ rest)))) =
      some (⟨true, whole, fraction, exponent⟩,
        1 + whole.length + (pointed fraction).length + (marked exponent).length) := by
  obtain ⟨c, digits, hcons, hc⟩ := hwhole.exists_cons
  have hne : whole.isEmpty = false := by rw [hcons]; rfl
  have hsign : (whole ++ (pointed fraction ++ (marked exponent ++ rest))).head? ≠ some '-' := by
    rw [hcons]
    intro hminus
    rw [Option.some.inj hminus] at hc
    cases hc
  have hafter : NoDigit (pointed fraction ++ (marked exponent ++ rest)) := noDigit_pointed hrest
  have hwholeAt := whole_of_digits hwhole hafter
  have htail := exponentAt_marked hexponent hrest
  unfold exponentAt at htail
  constructor
  · unfold numeral?
    simp only [hsign, decide_false, Bool.false_eq_true, if_false, hwholeAt, hne, List.drop_left,
      fraction_of_pointed hfraction hrest, drop_pointed, htail, Nat.zero_add]
    rw [length_pointed, length_marked]
  · unfold numeral?
    simp only [List.head?_cons, decide_true, if_true, List.drop_succ_cons, List.drop_zero, hwholeAt,
      hne, Bool.false_eq_true, if_false, List.drop_left, fraction_of_pointed hfraction hrest,
      drop_pointed, htail]
    rw [length_pointed, length_marked]

end Parts

/-! ## Numbers that are no integers -/

/-- The text of a number without a sign, with a point or an exponent in it. -/
def Fractional (s : List Char) : Prop :=
  ∃ whole fraction exponent, s = whole ++ (pointed fraction ++ marked exponent) ∧
    WholeDigits whole ∧ (∀ c ∈ fraction, isDigit c = true) ∧ ExponentDigits exponent ∧
    (fraction ≠ [] ∨ exponent ≠ [])

theorem plainValue_of_numeral {pos size : Nat} {s rest : List Char} {n : Numeral} {v : Json}
    (hwords : (words.findSome? fun (word, v) => (Cursor.word? ⟨pos, s⟩ word).map (v, ·)) = none)
    (hn : numeral? s = some (n, size)) (hv : n.value = .ok v) (hrest : s.drop size = rest) :
    Reads (plainValue ⟨pos, s⟩) v rest := by
  refine ⟨pos + size, ?_⟩
  rw [plainValue, hwords]
  simp only [hn, hv, Except.map, Cursor.advance, hrest]

/-- Such a text is read as one number, up to the mark behind it. -/
theorem plainValue_fractional {s : List Char} (hs : Fractional s) ( negative : Bool) :
    ∃ x, ∀ pos rest, Ends rest →
      Reads (plainValue ⟨pos, (if negative then ['-'] else []) ++ s ++ rest⟩) (.real x) rest := by
  obtain ⟨whole, fraction, exponent, rfl, hwhole, hfraction, hexponent, hfractional⟩ := hs
  refine ⟨.ofDecimal negative (ofDigits (whole ++ fraction))
    (exponentOf exponent - fraction.length), fun pos rest hrest => ?_⟩
  obtain ⟨c, digits, hcons, hc⟩ := hwhole.exists_cons
  have hvalue : Numeral.value ⟨negative, whole, fraction, exponent⟩ =
      .ok (.real (.ofDecimal negative (ofDigits (whole ++ fraction))
        (exponentOf exponent - fraction.length))) := by
    have hparts : (fraction.isEmpty && exponent.isEmpty) = false := by
      rw [Bool.and_eq_false_iff, List.isEmpty_eq_false_iff, List.isEmpty_eq_false_iff]
      exact hfractional
    rw [Numeral.value]
    simp only [hparts, Bool.false_eq_true, if_false]
  obtain ⟨hplain, hminus⟩ := numeral?_numeral hwhole hfraction hexponent hrest
  have htext : whole ++ (pointed fraction ++ marked exponent) ++ rest =
      whole ++ (pointed fraction ++ (marked exponent ++ rest)) := by
    simp only [List.append_assoc]
  have hdrop : (whole ++ (pointed fraction ++ (marked exponent ++ rest))).drop
      (whole.length + (pointed fraction).length + (marked exponent).length) = rest := by
    rw [Nat.add_assoc, ← List.drop_drop, List.drop_left, ← List.drop_drop, List.drop_left,
      List.drop_left]
  have hwords := words_of_digit hc pos (digits ++ (pointed fraction ++ (marked exponent ++ rest)))
  rw [← List.cons_append, ← hcons] at hwords
  cases negative with
  | false =>
    rw [if_neg Bool.false_ne_true, List.nil_append, htext]
    exact plainValue_of_numeral hwords.1 hplain hvalue hdrop
  | true =>
    rw [if_pos rfl, List.singleton_append, List.cons_append, htext]
    refine plainValue_of_numeral hwords.2 hminus hvalue ?_
    rw [Nat.add_assoc, Nat.add_assoc, Nat.add_comm 1, List.drop_succ_cons, ← Nat.add_assoc, hdrop]

/-! ## The text of a binary number -/

/-- Digits that begin with no zero. -/
structure Significant (digits : List Char) : Prop where
  all : ∀ c ∈ digits, isDigit c = true
  leading : ∃ c rest, digits = c :: rest ∧ c ≠ '0'

theorem Significant.wholeDigits_append {digits : List Char} (h : Significant digits)
    {zeros : List Char} (hzeros : ∀ c ∈ zeros, isDigit c = true) :
    WholeDigits (digits ++ zeros) where
  digits c hc := (List.mem_append.mp hc).elim (h.all c) (hzeros c)
  leading := by
    obtain ⟨c, rest, rfl, hc⟩ := h.leading
    exact .inr ⟨c, rest ++ zeros, rfl, hc⟩

theorem Significant.wholeDigits {digits : List Char} (h : Significant digits) :
    WholeDigits digits where
  digits := h.all
  leading := .inr h.leading

theorem significant_take {digits : List Char} (h : Significant digits) {n : Nat} (hn : n ≠ 0) :
    Significant (digits.take n) where
  all c hc := h.all c (List.mem_of_mem_take hc)
  leading := by
    obtain ⟨c, rest, rfl, hc⟩ := h.leading
    obtain ⟨n, rfl⟩ := Nat.exists_eq_succ_of_ne_zero hn
    exact ⟨c, rest.take n, rfl, hc⟩

theorem digits_replicate (n : Nat) : ∀ c ∈ List.replicate n '0', isDigit c = true := by
  intro c hc
  rw [List.eq_of_mem_replicate hc]
  rfl

theorem digits_zero : ∀ c ∈ ['0'], isDigit c = true := List.forall_mem_singleton.mpr rfl

/-- Dropping the zeros at the end leaves the digits at the front. -/
theorem significant_dropZeros {n : Nat} (hn : n ≠ 0) : Significant (dropZeros (decimal n)).1 := by
  obtain ⟨c, rest, hcons, hc⟩ := exists_decimal_eq_cons n
  have hkept : (dropZeros (decimal n)).1 = (decimal n).rdropWhile (· = '0') := rfl
  have hinitial := List.rdropWhile_prefix (· = '0') (decimal n)
  have hne : (decimal n).rdropWhile (· = '0') ≠ [] := by
    rw [Ne, List.rdropWhile_eq_nil_iff]
    intro hall
    have hzero := hall c (by rw [hcons]; exact List.mem_cons_self)
    exact hc hn (of_decide_eq_true hzero)
  obtain ⟨d, more, hd⟩ := List.exists_cons_of_ne_nil hne
  rw [hkept]
  constructor
  · exact fun c hc => all_isDigit_decimal n c (hinitial.subset hc)
  · refine ⟨d, more, hd, ?_⟩
    rw [hd, hcons, List.cons_prefix_cons] at hinitial
    rw [hinitial.1]
    exact hc hn

theorem fractional_positional {digits : List Char} (h : Significant digits) (place : Int) :
    Fractional (positional digits place) := by
  obtain ⟨c, rest, hcons, -⟩ := h.leading
  unfold positional
  split
  · refine ⟨['0'], List.replicate place.natAbs '0' ++ digits, [], ?_, ⟨?_, .inl rfl⟩, ?_, .inl rfl,
      .inl ?_⟩
    · simp [pointed, marked, hcons]
    · exact digits_zero
    · exact fun c hc => (List.mem_append.mp hc).elim (digits_replicate _ c) (h.all c)
    · simp [hcons]
  · next hplace =>
    dsimp only
    split
    · exact ⟨_, ['0'], [], rfl, h.wholeDigits_append (digits_replicate _), digits_zero, .inl rfl,
        .inl (List.cons_ne_nil _ _)⟩
    · next hlength =>
      have hwhole := (significant_take h (n := place.toNat) (by omega)).wholeDigits
      have hfraction : digits.drop place.toNat ≠ [] := by
        rw [Ne, List.drop_eq_nil_iff]
        exact hlength
      refine ⟨_, digits.drop place.toNat, [], ?_, hwhole, ?_, .inl rfl, .inl hfraction⟩
      · simp [pointed, marked, hfraction]
      · exact fun c hc => h.all c (List.mem_of_mem_drop hc)

theorem exponentDigits_exponentText (e : Int) : ExponentDigits (exponentText e) := by
  have hdigits := all_isDigit_decimal e.natAbs
  refine .inr ⟨_, _, rfl, ?_, ?_, ?_⟩
  · split
    · exact .inr rfl
    · exact .inl rfl
  · obtain ⟨c, rest, hcons, -⟩ := exists_decimal_eq_cons e.natAbs
    split
    · exact List.cons_ne_nil _ _
    · rw [hcons]
      exact List.cons_ne_nil _ _
  · split
    · exact List.forall_mem_cons.mpr ⟨rfl, hdigits⟩
    · exact hdigits

theorem fractional_scientific {digits : List Char} (h : Significant digits) (place : Int) :
    Fractional (scientific digits place) := by
  have hwhole := (significant_take h (n := 1) (by decide)).wholeDigits
  refine ⟨_, digits.drop 1, exponentText (place - 1), ?_, hwhole, ?_,
    exponentDigits_exponentText _, .inr ?_⟩
  · simp [scientific, pointed, marked, exponentText]
  · exact fun c hc => h.all c (List.mem_of_mem_drop hc)
  · exact List.cons_ne_nil _ _

/-- What reads back as a number other than zero is not zero. -/
theorem digitsOnGrid?_ne_zero {mantissa n : Nat} {exponent power : Int} (h : mantissa ≠ 0)
    (hn : digitsOnGrid? mantissa exponent power = some n) : n ≠ 0 := by
  have hzero : ofDecimal false 0 power ≠ .finite false mantissa exponent := by
    intro hfinite
    injection hfinite with _ hmantissa
    exact h hmantissa.symm
  rintro rfl
  unfold digitsOnGrid? at hn
  dsimp only at hn
  split at hn
  · next hbelow _ =>
    split at hn
    · rw [Option.some.inj hn] at hbelow
      exact hzero (of_decide_eq_true hbelow)
    · exact Nat.succ_ne_zero _ (Option.some.inj hn)
  · next hbelow _ =>
    rw [Option.some.inj hn] at hbelow
    exact hzero (of_decide_eq_true hbelow)
  · exact Nat.succ_ne_zero _ (Option.some.inj hn)
  · cases hn

/-- The digits that are found for such a number are not zero. -/
theorem shortest_ne_zero {mantissa : Nat} (h : mantissa ≠ 0) (exponent : Int) :
    (shortest mantissa exponent).1 ≠ 0 ∨ shortest mantissa exponent = (0, 0) := by
  unfold shortest
  dsimp only
  cases hfound : (List.range 17).findSome? _ with
  | none => exact .inr rfl
  | some found =>
    obtain ⟨n, -, hgrid⟩ := List.exists_of_findSome?_eq_some hfound
    obtain ⟨digits, hdigits, rfl⟩ := Option.map_eq_some_iff.mp hgrid
    exact .inl (digitsOnGrid?_ne_zero h hdigits)

theorem fractional_sizeText (mantissa : Nat) (exponent : Int) :
    Fractional (sizeText mantissa exponent) := by
  have hzero : Fractional ['0', '.', '0'] :=
    ⟨['0'], ['0'], [], rfl, ⟨digits_zero, .inl rfl⟩, digits_zero, .inl rfl,
      .inl (List.cons_ne_nil _ _)⟩
  unfold sizeText
  split
  · exact hzero
  · next hmantissa =>
    rcases shortest_ne_zero hmantissa exponent with hvalue | hnone
    · have hdigits := significant_dropZeros hvalue
      dsimp only
      split
      · exact fractional_positional hdigits _
      · exact fractional_scientific hdigits _
    · have hdecimal : decimal 0 = ['0'] := decimal_of_lt (by decide)
      rw [hnone]
      dsimp only
      rw [hdecimal]
      exact hzero

/-- The text of a number begins with a digit, a sign or a word. -/
theorem exists_text_eq_cons (x : Binary64) : ∃ c rest, x.text "Infinity" "NaN" = c :: rest ∧
    (isDigit c = true ∨ c = '-' ∨ c = 'I' ∨ c = 'N') := by
  cases x with
  | finite negative mantissa exponent =>
    cases negative with
    | false =>
      obtain ⟨whole, fraction, exponent, htext, hwhole, -⟩ :=
        fractional_sizeText mantissa exponent
      obtain ⟨c, digits, rfl, hc⟩ := hwhole.exists_cons
      exact ⟨c, _, htext, .inl hc⟩
    | true => exact ⟨'-', _, rfl, .inr (.inl rfl)⟩
  | infinite negative =>
    cases negative with
    | false => exact ⟨'I', _, rfl, .inr (.inr (.inl rfl))⟩
    | true => exact ⟨'-', _, rfl, .inr (.inl rfl)⟩
  | undefined => exact ⟨'N', _, rfl, .inr (.inr (.inr rfl))⟩

/-- Whatever a binary number is, its text is read as one, up to the mark behind it. -/
theorem plainValue_real (x : Binary64) : ∃ y, ∀ pos rest, Ends rest →
    Reads (plainValue ⟨pos, x.text "Infinity" "NaN" ++ rest⟩) (.real y) rest := by
  cases x with
  | finite negative mantissa exponent =>
    exact plainValue_fractional (fractional_sizeText mantissa exponent) negative
  | infinite negative =>
    refine ⟨.infinite negative, fun pos rest _ => ?_⟩
    cases negative with
    | false => exact ⟨pos + 8, rfl⟩
    | true => exact ⟨pos + 9, rfl⟩
  | undefined => exact ⟨.undefined, fun pos rest _ => ⟨pos + 3, rfl⟩⟩

end CommentThreads.Json
