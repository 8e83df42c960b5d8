/-
CommentThreads.Proofs.Json.Scalars — strings and integers are read as they are written.

The reader is followed over a written piece in front of a rest that it leaves (`Reads`);
where it stands in the text only matters to errors, and is not said.
`readsBack_of_spelled` is what it reads of a string, whichever way its points are spelled
(`Spelled`), and `plainValue_signedDecimal` of an integer.

A first half of a surrogate pair is kept back until it is seen what follows (`alone`), so
a string whose halves are alone (`Alone`) is read as it was written, and no other one is.
-/
import CommentThreads.Json.Bytes
import CommentThreads.Json.Printer
import CommentThreads.Proofs.Text.Digits
import CommentThreads.Proofs.Text.Raw
import CommentThreads.Proofs.Text.Utf8
import Mathlib.Data.List.Chain

namespace CommentThreads.Json

open CommentThreads.Text CommentThreads.Number

/-- A reader gives a value and leaves a rest. -/
def Reads {α : Type} (r : Read α) (a : α) (rest : List Char) : Prop :=
  ∃ pos, r = .ok (a, ⟨pos, rest⟩)

/-! ## Strings -/

/-- What stands for a half is read as the half. -/
theorem lone_unit (half : Half) : lone half.unit = .half half := by
  have hoffset : 0xD800 + half.val - 0xD800 = half.val := Nat.add_sub_cancel_left _ _
  rw [lone, Half.ofUnit, Half.unit, hoffset]
  exact congrArg Point.half (Fin.ofNat_val_eq_self half)

theorem unit_ofUnit {unit : Nat} (h : isHighUnit unit = true ∨ isLowUnit unit = true) :
    (Half.ofUnit unit).unit = unit := by
  simp only [isHighUnit, isLowUnit, Bool.and_eq_true, decide_eq_true_eq] at h
  have hsmall : unit - 0xD800 < 0x800 := by omega
  simp only [Half.ofUnit, Half.unit, Fin.ofNat, Nat.mod_eq_of_lt hsmall]
  omega

theorem prepend_nil (r : Read (List Point)) : prepend [] r = r := by
  cases r <;> rfl

theorem prepend_prepend (ps qs : List Point) (r : Read (List Point)) :
    prepend ps (prepend qs r) = prepend (ps ++ qs) r := by
  cases r with
  | error e => rfl
  | ok read => simp [prepend, Except.map]

theorem stringBody_plain (opening : Nat) (high : Option Nat) (pos : Nat) {c : Char}
    (hquote : c ≠ '"') (hslash : c ≠ '\\') (hcontrol : ¬c.toNat < 0x20) (rest : List Char) :
    stringBody noHalves opening high pos (c :: rest) =
      prepend (alone high ++ [.char c]) (stringBody noHalves opening none (pos + 1) rest) := by
  rw [stringBody.eq_def]
  simp only [hquote, hslash, hcontrol, if_false]
  rfl

theorem stringBody_escape (opening : Nat) (high : Option Nat) (pos : Nat) {e c : Char}
    (he : e ≠ 'u') (hc : escaped? e = some c) (rest : List Char) :
    stringBody noHalves opening high pos ('\\' :: e :: rest) =
      prepend (alone high ++ [.char c]) (stringBody noHalves opening none (pos + 2) rest) := by
  have hslash : '\\' ≠ '"' := by decide
  rw [stringBody.eq_def]
  simp only [hslash, if_false, if_true, he, hc]

/-- An escape of four digits is read as its unit. -/
theorem stringBody_unitEscape (opening : Nat) (high : Option Nat) (pos : Nat) {n : Nat}
    (hn : n < 0x10000) {rest : List Char} (hrest : rest ≠ []) :
    stringBody noHalves opening high pos (unitEscape n ++ rest) =
      match high with
      | some h =>
        if isLowUnit n then
          prepend [.char (joinUnits h n)] (stringBody noHalves opening none (pos + 6) rest)
        else if isHighUnit n then
          prepend [lone h] (stringBody noHalves opening (some n) (pos + 6) rest)
        else
          prepend [lone h, .char (Char.ofNat n)] (stringBody noHalves opening none (pos + 6) rest)
      | none =>
        if isHighUnit n then stringBody noHalves opening (some n) (pos + 6) rest
        else if isLowUnit n then
          prepend [lone n] (stringBody noHalves opening none (pos + 6) rest)
        else
          prepend [.char (Char.ofNat n)] (stringBody noHalves opening none (pos + 6) rest) := by
  have hdigits : ofHexDigits? (hex 4 n) = some n := by
    have hsize : twoTo (4 * 4) = 0x10000 := rfl
    rw [ofHexDigits?_hex, hsize, Nat.mod_eq_of_lt hn]
  have hslash : '\\' ≠ '"' := by decide
  have hmore : rest.isEmpty = false := List.isEmpty_eq_false_iff.mpr hrest
  simp only [hex, List.nil_append, List.cons_append] at hdigits
  simp only [unitEscape, hex, List.nil_append, List.cons_append]
  rw [stringBody.eq_def]
  cases high with
  | none => simp only [hslash, if_false, if_true, hmore, hdigits, Bool.false_eq_true]
  | some h => simp only [hslash, if_false, if_true, hmore, hdigits, Bool.false_eq_true]

/-- A character that is one unit is no half of a pair. -/
theorem units_of_char (c : Char) : isHighUnit c.toNat = false ∧ isLowUnit c.toNat = false := by
  have hvalid : c.toNat < 0xD800 ∨ 0xDFFF < c.toNat ∧ c.toNat < 0x110000 := c.valid
  simp only [isHighUnit, isLowUnit, Bool.and_eq_false_iff, decide_eq_false_iff_not]
  omega

theorem stringBody_unitChar (opening : Nat) (high : Option Nat) (pos : Nat) {c : Char}
    (hc : c.toNat < 0x10000) {rest : List Char} (hrest : rest ≠ []) :
    stringBody noHalves opening high pos (unitEscape c.toNat ++ rest) =
      prepend (alone high ++ [.char c]) (stringBody noHalves opening none (pos + 6) rest) := by
  obtain ⟨hhigh, hlow⟩ := units_of_char c
  rw [stringBody_unitEscape opening high pos hc hrest]
  cases high <;> simp [hhigh, hlow, alone, Char.ofNat_toNat]

/-- The two halves of a pair are read as the character that they stand for. -/
theorem stringBody_pairChar (opening : Nat) (high : Option Nat) (pos : Nat) {c : Char}
    (hc : ¬c.toNat < 0x10000) {rest : List Char} (hrest : rest ≠ []) :
    stringBody noHalves opening high pos
        (unitEscape (0xD800 + (c.toNat - 0x10000) / 0x400) ++
          (unitEscape (0xDC00 + (c.toNat - 0x10000) % 0x400) ++ rest)) =
      prepend (alone high ++ [.char c]) (stringBody noHalves opening none (pos + 12) rest) := by
  have hvalid : c.toNat < 0xD800 ∨ 0xDFFF < c.toNat ∧ c.toNat < 0x110000 := c.valid
  have hhigh : isHighUnit (0xD800 + (c.toNat - 0x10000) / 0x400) = true := by
    simp only [isHighUnit, Bool.and_eq_true, decide_eq_true_eq]
    omega
  have hnot : isLowUnit (0xD800 + (c.toNat - 0x10000) / 0x400) = false := by
    simp only [isLowUnit, Bool.and_eq_false_iff, decide_eq_false_iff_not]
    omega
  have hlow : isLowUnit (0xDC00 + (c.toNat - 0x10000) % 0x400) = true := by
    simp only [isLowUnit, Bool.and_eq_true, decide_eq_true_eq]
    omega
  have hjoin : joinUnits (0xD800 + (c.toNat - 0x10000) / 0x400)
      (0xDC00 + (c.toNat - 0x10000) % 0x400) = c := by
    have hn : 0x10000 + (0xD800 + (c.toNat - 0x10000) / 0x400 - 0xD800) * 0x400 +
        (0xDC00 + (c.toNat - 0x10000) % 0x400 - 0xDC00) = c.toNat := by omega
    rw [joinUnits, hn, Char.ofNat_toNat]
  have hmore : unitEscape (0xDC00 + (c.toNat - 0x10000) % 0x400) ++ rest ≠ [] := by
    simp [unitEscape]
  have hsecond := stringBody_unitEscape opening (some (0xD800 + (c.toNat - 0x10000) / 0x400))
    (pos + 6) (n := 0xDC00 + (c.toNat - 0x10000) % 0x400) (by omega) hrest
  simp only [hlow, if_true, hjoin] at hsecond
  rw [stringBody_unitEscape opening high pos (by omega) hmore]
  cases high with
  | none => simp only [hhigh, if_true, hsecond, alone, List.nil_append]
  | some h =>
    simp only [hhigh, hnot, if_true, if_false, Bool.false_eq_true, hsecond, prepend_prepend]
    rfl

/-- A half that does not end a pair is kept back, or stands alone. -/
theorem stringBody_half (opening : Nat) (high : Option Nat) (pos : Nat) (half : Half)
    (h : ∀ first ∈ high, isLowUnit half.unit = false) {rest : List Char} (hrest : rest ≠ []) :
    stringBody noHalves opening high pos (unitEscape half.unit ++ rest) =
      if isHighUnit half.unit then
        prepend (alone high) (stringBody noHalves opening (some half.unit) (pos + 6) rest)
      else
        prepend (alone high ++ [.half half]) (stringBody noHalves opening none (pos + 6) rest) := by
  have hnumber : half.unit = 0xD800 + half.val := rfl
  have hsize := half.isLt
  have hunit : half.unit < 0x10000 := by omega
  have hkinds (h : isHighUnit half.unit = false) : isLowUnit half.unit = true := by
    simp only [isHighUnit, Bool.and_eq_false_iff, decide_eq_false_iff_not] at h
    simp only [isLowUnit, Bool.and_eq_true, decide_eq_true_eq]
    omega
  rw [stringBody_unitEscape opening high pos hunit hrest]
  cases high with
  | none =>
    cases hhigh : isHighUnit half.unit with
    | true => simp [alone, prepend_nil]
    | false => simp [alone, hkinds hhigh, lone_unit]
  | some first =>
    have hlow := h first rfl
    cases hhigh : isHighUnit half.unit with
    | true => simp [alone, hlow]
    | false => exact absurd (hkinds hhigh) (by simp [hlow])

theorem shortEscape?_eq_some {c : Char} {w : List Char} (h : shortEscape? c = some w) :
    ∃ e, w = ['\\', e] ∧ e ≠ 'u' ∧ escaped? e = some c := by
  unfold shortEscape? at h
  split at h
  · next hc => cases h; exact ⟨'"', rfl, by decide, by rw [hc]; rfl⟩
  split at h
  · next hc => cases h; exact ⟨'\\', rfl, by decide, by rw [hc]; rfl⟩
  split at h
  · next hc => cases h; exact ⟨'n', rfl, by decide, by rw [hc]; rfl⟩
  split at h
  · next hc => cases h; exact ⟨'r', rfl, by decide, by rw [hc]; rfl⟩
  split at h
  · next hc => cases h; exact ⟨'t', rfl, by decide, by rw [hc]; rfl⟩
  split at h
  · next hc => cases h; exact ⟨'f', rfl, by decide, by rw [hc]; rfl⟩
  split at h
  · next hc => cases h; exact ⟨'b', rfl, by decide, by rw [hc]; rfl⟩
  · cases h

/-- Points next to each other that stay two: no first half of a pair in front of a
second one. -/
def Alone : Point → Point → Prop
  | .half a, .half b => isHighUnit a.unit = true → isLowUnit b.unit = false
  | _, _ => True

/-- What is kept back of a string before and behind a point. -/
inductive Holds : Option Nat → Point → Option Nat → List Point → Prop
  | char (high : Option Nat) (c : Char) : Holds high (.char c) none (alone high ++ [.char c])
  | first (high : Option Nat) {half : Half} (h : isHighUnit half.unit = true) :
    Holds high (.half half) (some half.unit) (alone high)
  | second (high : Option Nat) {half : Half} (h : isHighUnit half.unit = false) :
    Holds high (.half half) none (alone high ++ [.half half])

theorem Holds.isHighUnit {high next : Option Nat} {p : Point} {given : List Point}
    (h : Holds high p next given) : ∀ unit ∈ next, Json.isHighUnit unit = true := by
  cases h with
  | first hfirst => exact fun unit hunit => Option.some.inj hunit ▸ hfirst
  | _ => exact nofun

theorem Holds.append_eq {high next : Option Nat} {p : Point} {given : List Point}
    (h : Holds high p next given) : given ++ alone next = alone high ++ [p] := by
  cases h with
  | char => simp [alone]
  | first => simp [alone, lone_unit]
  | second => simp [alone]

/-- A point is spelled so that it is read as itself, behind anything that it does not
belong to. -/
def Spelled (point : Point → List Char) (p : Point) : Prop :=
  ∀ (opening : Nat) (high : Option Nat) (pos : Nat) {rest : List Char}, rest ≠ [] →
    (∀ unit ∈ high, isHighUnit unit = true) → (alone high ++ [p]).IsChain Alone →
      ∃ next pos' given, Holds high p next given ∧
      stringBody noHalves opening high pos (point p ++ rest) =
        prepend given (stringBody noHalves opening next pos' rest)

/-- Both forms of text share the short escapes. -/
theorem spelled_of_long (long : Char → List Char) (c : Char)
    (h : c ≠ '"' → c ≠ '\\' → ∀ (opening : Nat) (high : Option Nat) (pos : Nat)
      {rest : List Char}, rest ≠ [] →
      ∃ pos', stringBody noHalves opening high pos (long c ++ rest) =
        prepend (alone high ++ [.char c]) (stringBody noHalves opening none pos' rest))
    {point : Point → List Char} (hpoint : point (.char c) = (shortEscape? c).getD (long c)) :
    Spelled point (.char c) := by
  intro opening high pos rest hrest _ _
  suffices hread : ∃ pos', stringBody noHalves opening high pos (point (.char c) ++ rest) =
      prepend (alone high ++ [.char c]) (stringBody noHalves opening none pos' rest) by
    obtain ⟨pos', hread⟩ := hread
    exact ⟨none, pos', _, .char high c, hread⟩
  rw [hpoint]
  cases hshort : shortEscape? c with
  | some w =>
    obtain ⟨e, rfl, he, hc⟩ := shortEscape?_eq_some hshort
    exact ⟨_, stringBody_escape opening high pos he hc rest⟩
  | none =>
    have hquote : c ≠ '"' := by
      rintro rfl
      cases hshort
    have hslash : c ≠ '\\' := by
      rintro rfl
      cases hshort
    exact h hquote hslash opening high pos hrest

theorem spelled_wirePoint (c : Char) : Spelled wirePoint (.char c) := by
  refine spelled_of_long (fun c => if c.toNat < 0x20 then unitEscape c.toNat else [c]) c
    (fun hquote hslash opening high pos rest hrest => ?_) rfl
  split
  · next hcontrol => exact ⟨_, stringBody_unitChar opening high pos (by omega) hrest⟩
  · next hcontrol => exact ⟨_, stringBody_plain opening high pos hquote hslash hcontrol rest⟩

theorem spelled_filePoint (p : Point) : Spelled filePoint p := by
  cases p with
  | char c =>
    refine spelled_of_long (fun c =>
      if 0x20 ≤ c.toNat && c.toNat < 0x7F then [c]
      else if c.toNat < 0x10000 then unitEscape c.toNat
      else unitEscape (0xD800 + (c.toNat - 0x10000) / 0x400) ++
        unitEscape (0xDC00 + (c.toNat - 0x10000) % 0x400)) c
      (fun hquote hslash opening high pos rest hrest => ?_) rfl
    split
    · next hvisible =>
      simp only [Bool.and_eq_true, decide_eq_true_eq] at hvisible
      exact ⟨_, stringBody_plain opening high pos hquote hslash (by omega) rest⟩
    split
    · next hunit => exact ⟨_, stringBody_unitChar opening high pos hunit hrest⟩
    · next hpair =>
      rw [List.append_assoc]
      exact ⟨_, stringBody_pairChar opening high pos hpair hrest⟩
  | half half =>
    intro opening high pos rest hrest hhigh hchain
    have hbehind : ∀ first ∈ high, isLowUnit half.unit = false := by
      rintro first rfl
      have hfirst := hhigh first rfl
      rw [alone, List.singleton_append, List.isChain_pair] at hchain
      exact hchain (by rwa [unit_ofUnit (.inl hfirst)])
    have hread := stringBody_half opening high pos half hbehind hrest
    cases hkind : isHighUnit half.unit with
    | true => exact ⟨_, _, _, .first high hkind, by rw [filePoint, hread, if_pos hkind]⟩
    | false => exact ⟨_, _, _, .second high hkind, by rw [filePoint, hread, hkind]; rfl⟩

/-- A string of points each of which is spelled is read as it was, behind what was kept
back before it. -/
theorem stringBody_spelled {point : Point → List Char} {ps : List Point}
    (h : ∀ p ∈ ps, Spelled point p) (opening : Nat) (high : Option Nat) (pos : Nat)
    (hhigh : ∀ unit ∈ high, isHighUnit unit = true) (hchain : (alone high ++ ps).IsChain Alone)
    (rest : List Char) :
    Reads (stringBody noHalves opening high pos (ps.flatMap point ++ '"' :: rest))
      (alone high ++ ps) rest := by
  induction ps generalizing high pos with
  | nil =>
    refine ⟨pos + 1, ?_⟩
    rw [List.flatMap_nil, List.nil_append, stringBody.eq_def, List.append_nil]
    rfl
  | cons p ps ih =>
    have hmore : ps.flatMap point ++ '"' :: rest ≠ [] := by simp
    have hsplit : alone high ++ p :: ps = (alone high ++ [p]) ++ ps := by simp
    obtain ⟨next, pos', given, hholds, hread⟩ := h p List.mem_cons_self opening high pos hmore
      hhigh (hsplit ▸ hchain).left_of_append
    rw [hsplit, ← hholds.append_eq, List.append_assoc] at hchain
    obtain ⟨end', hend⟩ := ih (fun q hq => h q (List.mem_cons_of_mem p hq)) next pos'
      hholds.isHighUnit hchain.right_of_append
    refine ⟨end', ?_⟩
    rw [List.flatMap_cons, List.append_assoc, hread, hend, hsplit, ← hholds.append_eq,
      List.append_assoc]
    rfl

/-- What is written of a text between marks is read as the text. -/
def ReadsBack (point : Point → List Char) (t : RawText) : Prop :=
  ∀ (pos : Nat) (rest : List Char),
    Reads (stringAfterMark noHalves ⟨pos, t.points.flatMap point ++ '"' :: rest⟩) t rest

theorem readsBack_of_spelled {point : Point → List Char} {t : RawText}
    (h : ∀ p ∈ t.points, Spelled point p) (halone : t.points.IsChain Alone) :
    ReadsBack point t := by
  intro pos rest
  obtain ⟨end', hend⟩ := stringBody_spelled h (pos - 1) none pos nofun halone rest
  refine ⟨end', ?_⟩
  rw [stringAfterMark, hend]
  simp only [Except.map, alone, List.nil_append, RawText.ofPoints_points]

/-- The halves of a text stay alone where it is written and read. -/
def HalvesAlone (t : RawText) : Prop := t.points.IsChain Alone

theorem halvesAlone_of_isPlain {t : RawText} (h : t.isPlain = true) : HalvesAlone t := by
  obtain ⟨s, rfl⟩ := RawText.isPlain_iff.mp h
  rw [HalvesAlone, RawText.points_plain, List.isChain_map]
  exact List.isChain_iff_getElem.mpr fun _ _ => trivial

theorem readsBack_wire {t : RawText} (h : t.isPlain = true) : ReadsBack wirePoint t := by
  refine readsBack_of_spelled (fun p hp => ?_) (halvesAlone_of_isPlain h)
  obtain ⟨c, rfl⟩ := (RawText.isPlain_iff_points t).mp h p hp
  exact spelled_wirePoint c

theorem readsBack_file {t : RawText} (h : HalvesAlone t) : ReadsBack filePoint t :=
  readsBack_of_spelled (fun p _ => spelled_filePoint p) h

/-! ## Words and numbers -/

/-- What may stand behind a value: its end, a mark that goes on after it, or the next
line. -/
def Ends (rest : List Char) : Prop := ∀ c ∈ rest.head?, c = ',' ∨ c = ']' ∨ c = '}' ∨ c = '\n'

/-- The rest of a text does not go on with a digit. -/
def NoDigit (rest : List Char) : Prop := ∀ c ∈ rest.head?, isDigit c = false

theorem noDigit_of_ends {rest : List Char} (h : Ends rest) : NoDigit rest := by
  intro c hc
  rcases h c hc with rfl | rfl | rfl | rfl <;> decide

theorem takeWhile_isDigit_append {digits rest : List Char}
    (hdigits : ∀ c ∈ digits, isDigit c = true) (hrest : NoDigit rest) :
    (digits ++ rest).takeWhile isDigit = digits := by
  rw [List.takeWhile_append_of_pos hdigits]
  cases rest with
  | nil => rw [List.takeWhile_nil, List.append_nil]
  | cons c rest =>
    rw [List.takeWhile_cons, hrest c rfl]
    exact List.append_nil digits

theorem head_ne_of_ends {rest : List Char} (h : Ends rest) {c : Char}
    (hc : c ≠ ',' ∧ c ≠ ']' ∧ c ≠ '}' ∧ c ≠ '\n') : rest.head? ≠ some c := by
  intro hhead
  rcases h c hhead with rfl | rfl | rfl | rfl
  · exact hc.1 rfl
  · exact hc.2.1 rfl
  · exact hc.2.2.1 rfl
  · exact hc.2.2.2 rfl

theorem exists_decimal_eq_digit (n : Nat) :
    ∃ c digits, decimal n = c :: digits ∧ ∀ x, isDigit x = false → c ≠ x := by
  obtain ⟨c, digits, hn, -⟩ := exists_decimal_eq_cons n
  have hc := all_isDigit_decimal n c (by rw [hn]; exact List.mem_cons_self)
  refine ⟨c, digits, hn, ?_⟩
  rintro x hx rfl
  exact Bool.false_ne_true (hx.symm.trans hc)

theorem whole_decimal (n : Nat) {rest : List Char} (hrest : Ends rest) :
    (if (decimal n ++ rest).head? = some '0' then ['0']
      else (decimal n ++ rest).takeWhile isDigit) = decimal n := by
  rw [takeWhile_isDigit_append (all_isDigit_decimal n) (noDigit_of_ends hrest)]
  split
  · next hhead =>
    obtain ⟨c, digits, hn, hzero⟩ := exists_decimal_eq_cons n
    rw [hn, List.cons_append, List.head?_cons] at hhead
    have hnone : n = 0 := Decidable.byContradiction fun hne => hzero hne (Option.some.inj hhead)
    rw [hnone, decimal_of_lt (by decide)]
    rfl
  · rfl

theorem numeral?_decimal (n : Nat) {rest : List Char} (hrest : Ends rest) :
    numeral? (decimal n ++ rest) = some (⟨false, decimal n, [], []⟩, (decimal n).length) ∧
      numeral? ('-' :: decimal n ++ rest) =
        some (⟨true, decimal n, [], []⟩, (decimal n).length + 1) := by
  obtain ⟨c, digits, hn, hdigit⟩ := exists_decimal_eq_digit n
  have hne : (decimal n).isEmpty = false := by rw [hn]; rfl
  have hhead : (decimal n ++ rest).head? ≠ some '-' := by
    rw [hn, List.cons_append, List.head?_cons]
    exact fun h => hdigit '-' rfl (Option.some.inj h)
  have hpoint : rest.head? ≠ some '.' := head_ne_of_ends hrest (by decide)
  have he : rest.head? ≠ some 'e' := head_ne_of_ends hrest (by decide)
  have hE : rest.head? ≠ some 'E' := head_ne_of_ends hrest (by decide)
  have hwhole := whole_decimal n hrest
  constructor
  · unfold numeral?
    simp only [hhead, hwhole, hne, hpoint, he, hE, List.drop_left, decide_false, if_false,
      Bool.false_eq_true, Bool.or_false, List.isEmpty_nil, if_true, Nat.zero_add, Nat.add_zero]
  · unfold numeral?
    simp only [List.cons_append, List.head?_cons, List.drop_succ_cons, List.drop_zero, hwhole, hne,
      hpoint, he, hE, List.drop_left, decide_true, decide_false, if_false, Bool.false_eq_true,
      Bool.or_false, List.isEmpty_nil, if_true, Nat.add_zero, Nat.add_comm 1]

theorem value_decimal (negative : Bool) (n : Nat) (h : (decimal n).length ≤ mostDigits) :
    Numeral.value ⟨negative, decimal n, [], []⟩ = .ok (.int (if negative then -n else n)) := by
  rw [Numeral.value]
  simp only [List.isEmpty_nil, Bool.and_self, if_true, Nat.not_lt.mpr h, if_false,
    ofDigits_decimal]

theorem word?_of_ne {word : String} {x c : Char} {more : List Char}
    (hword : word.toList = x :: more) (hne : x ≠ c) (pos : Nat) (rest : List Char) :
    Cursor.word? ⟨pos, c :: rest⟩ word = none := by
  have hnot : word.toList.isPrefixOf (c :: rest) = false := by
    rw [hword, List.isPrefixOf_cons_cons, beq_eq_false_iff_ne.mpr hne, Bool.false_and]
  rw [Cursor.word?]
  simp only [hnot, Bool.false_eq_true, if_false]

/-- No word begins with a digit, or with a minus sign before one. -/
theorem words_of_digit {c : Char} (hc : isDigit c = true) (pos : Nat) (rest : List Char) :
    (words.findSome? fun (word, v) => (Cursor.word? ⟨pos, c :: rest⟩ word).map (v, ·)) = none ∧
      (words.findSome? fun (word, v) =>
        (Cursor.word? ⟨pos, '-' :: c :: rest⟩ word).map (v, ·)) = none := by
  have hne {x : Char} (hx : isDigit x = false) : x ≠ c := by
    rintro rfl
    exact Bool.false_ne_true (hx.symm.trans hc)
  constructor
  · have hword (word : String) {x : Char} {more : List Char} (hword : word.toList = x :: more)
        (hx : isDigit x = false) : Cursor.word? ⟨pos, c :: rest⟩ word = none :=
      word?_of_ne hword (hne hx) pos _
    simp only [words, List.findSome?_cons, List.findSome?_nil, hword "null" rfl rfl,
      hword "true" rfl rfl, hword "false" rfl rfl, hword "NaN" rfl rfl, hword "Infinity" rfl rfl,
      hword "-Infinity" rfl rfl, Option.map_none]
  · have hword (word : String) {x : Char} {more : List Char} (hword : word.toList = x :: more)
        (hx : x ≠ '-') : Cursor.word? ⟨pos, '-' :: c :: rest⟩ word = none :=
      word?_of_ne hword hx pos _
    have hsigned : Cursor.word? ⟨pos, '-' :: c :: rest⟩ "-Infinity" = none := by
      have hnot : "-Infinity".toList.isPrefixOf ('-' :: c :: rest) = false := by
        have hI : ('I' == c) = false := beq_eq_false_iff_ne.mpr (hne rfl)
        have htext : "-Infinity".toList = '-' :: 'I' :: "nfinity".toList := rfl
        rw [htext, List.isPrefixOf_cons_cons, List.isPrefixOf_cons_cons, hI, Bool.false_and,
          Bool.and_false]
      rw [Cursor.word?]
      simp only [hnot, Bool.false_eq_true, if_false]
    simp only [words, List.findSome?_cons, List.findSome?_nil, hword "null" rfl (by decide),
      hword "true" rfl (by decide), hword "false" rfl (by decide), hword "NaN" rfl (by decide),
      hword "Infinity" rfl (by decide), hsigned, Option.map_none]

/-- An integer begins so. -/
theorem words_signedDecimal (n : Int) (pos : Nat) (rest : List Char) :
    (words.findSome? fun (word, v) =>
      (Cursor.word? ⟨pos, signedDecimal n ++ rest⟩ word).map (v, ·)) = none := by
  have hdigit (m : Nat) : ∃ c digits, decimal m = c :: digits ∧ isDigit c = true := by
    obtain ⟨c, digits, hm, -⟩ := exists_decimal_eq_cons m
    exact ⟨c, digits, hm, all_isDigit_decimal m c (by rw [hm]; exact List.mem_cons_self)⟩
  cases n with
  | ofNat m =>
    obtain ⟨c, digits, hm, hc⟩ := hdigit m
    rw [signedDecimal, hm]
    exact (words_of_digit hc pos (digits ++ rest)).1
  | negSucc m =>
    obtain ⟨c, digits, hm, hc⟩ := hdigit (m + 1)
    rw [signedDecimal, hm]
    exact (words_of_digit hc pos (digits ++ rest)).2

theorem value_tooManyDigits ( negative : Bool) {n : Nat}
    (h : ¬(decimal n).length ≤ mostDigits) :
    Numeral.value ⟨negative, decimal n, [], []⟩ = .error .tooManyDigits := by
  rw [Numeral.value]
  simp only [List.isEmpty_nil, Bool.and_self, if_true, Nat.not_le.mp h]

theorem plainValue_signedDecimal (n : Int) (h : (decimal n.natAbs).length ≤ mostDigits) (pos : Nat)
    {rest : List Char} (hrest : Ends rest) :
    Reads (plainValue ⟨pos, signedDecimal n ++ rest⟩) (.int n) rest := by
  rw [plainValue, words_signedDecimal]
  cases n with
  | ofNat m =>
    refine ⟨pos + (decimal m).length, ?_⟩
    simp only [signedDecimal, (numeral?_decimal m hrest).1]
    rw [value_decimal false m h]
    simp [Except.map, Cursor.advance]
  | negSucc m =>
    refine ⟨pos + ((decimal (m + 1)).length + 1), ?_⟩
    simp only [signedDecimal, (numeral?_decimal (m + 1) hrest).2]
    rw [value_decimal true (m + 1) h]
    simp [Except.map, Cursor.advance, Int.negSucc_eq]

/-- An integer that is too long is not read. -/
theorem plainValue_tooManyDigits {n : Int} (h : ¬(decimal n.natAbs).length ≤ mostDigits) (pos : Nat)
    {rest : List Char} (hrest : Ends rest) :
    plainValue ⟨pos, signedDecimal n ++ rest⟩ = .error .tooManyDigits := by
  rw [plainValue, words_signedDecimal]
  cases n with
  | ofNat m =>
    simp only [signedDecimal, (numeral?_decimal m hrest).1]
    rw [value_tooManyDigits (n := m) false h]
    rfl
  | negSucc m =>
    simp only [signedDecimal, (numeral?_decimal (m + 1) hrest).2]
    rw [value_tooManyDigits (n := m + 1) true h]
    rfl

end CommentThreads.Json
