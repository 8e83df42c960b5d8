/-
CommentThreads.Proofs.Text.Percent — percent encoding is undone by decoding.

What is encoded is ASCII, so decoding reads it as one run of bytes, and these
are the UTF-8 bytes of the text (`percentBytes_percentEncode`). Where percent signs
are not encoded themselves, this needs a text in which none of them has two digits
behind it (`hasEscape`). A form value differs only in its spaces, which are signs of
their own.
-/
import CommentThreads.Proofs.Text.Digits
import CommentThreads.Proofs.Text.Lines
import CommentThreads.Proofs.Text.Utf8
import CommentThreads.Text.Percent

namespace CommentThreads.Text

/-! ## One byte -/

theorem hexValue?_capitalHexChar (n : Nat) : hexValue? (capitalHexChar n) = some (n % 16) := by
  have hall : ∀ d < 16, hexValue? (if d < 10 then Char.ofNat (d + '0'.toNat)
      else Char.ofNat (d - 10 + 'A'.toNat)) = some d := by decide
  have hdigit : ∀ d < 10, digitChar d = Char.ofNat (d + '0'.toNat) := by decide
  rw [← hall (n % 16) (Nat.mod_lt n (by decide)), capitalHexChar]
  split
  · next hlow => rw [hdigit _ hlow]
  · rfl

/-- The characters of an encoded byte. -/
theorem mem_percentByte {b : UInt8} {c : Char} (h : c ∈ percentByte b) :
    c = '%' ∨ ∃ n < 16, c = capitalHexChar n := by
  have hmod (n : Nat) : capitalHexChar n = capitalHexChar (n % 16) := by
    rw [capitalHexChar, capitalHexChar, Nat.mod_mod]
  simp only [percentByte, List.mem_cons, List.not_mem_nil, or_false] at h
  rcases h with rfl | rfl | rfl
  · exact .inl rfl
  · exact .inr ⟨_, Nat.mod_lt _ (by decide), hmod _⟩
  · exact .inr ⟨_, Nat.mod_lt _ (by decide), hmod _⟩

/-- What holds of the percent sign and of the digits holds of an encoded byte. -/
theorem forall_mem_percentByte {P : Char → Prop} (hsign : P '%')
    (hdigits : ∀ n < 16, P (capitalHexChar n)) (b : UInt8) : ∀ c ∈ percentByte b, P c := by
  intro c hc
  obtain rfl | ⟨n, hn, rfl⟩ := mem_percentByte hc
  · exact hsign
  · exact hdigits n hn

theorem percentBytes_percentByte (b : UInt8) (rest : List Char) :
    percentBytes (percentByte b ++ rest) = b :: percentBytes rest := by
  have hhigh := hexValue?_capitalHexChar (b.toNat / 16)
  have hlow := hexValue?_capitalHexChar b.toNat
  have hbyte : (b.toNat / 16 % 16 * 16 + b.toNat % 16).toUInt8 = b := by
    have hlt : b.toNat < 256 := b.toNat_lt
    have hsum : b.toNat / 16 % 16 * 16 + b.toNat % 16 = b.toNat := by omega
    rw [hsum]
    exact UInt8.ofNat_toNat
  simp only [percentByte, List.cons_append, List.nil_append, percentBytes, hhigh, hlow, hbyte]

theorem percentBytes_flatMap_percentByte (bytes : List UInt8) (rest : List Char) :
    percentBytes (bytes.flatMap percentByte ++ rest) = bytes ++ percentBytes rest := by
  induction bytes with
  | nil => rfl
  | cons b bytes ih =>
    rw [List.flatMap_cons, List.append_assoc, percentBytes_percentByte, ih]
    rfl

/-! ## Percent signs that stay -/

/-- A percent sign with two digits behind it begins the text. -/
def startsEscape : List Char → Bool
  | '%' :: a :: b :: _ => (hexValue? a).isSome && (hexValue? b).isSome
  | _ => false

/-- Somewhere in the text there is a percent sign with two digits behind it. -/
def hasEscape : List Char → Bool
  | [] => false
  | c :: rest => startsEscape (c :: rest) || hasEscape rest

theorem hasEscape_cons_eq_false {c : Char} {rest : List Char} :
    hasEscape (c :: rest) = false ↔ startsEscape (c :: rest) = false ∧ hasEscape rest = false := by
  rw [hasEscape, Bool.or_eq_false_iff]

theorem startsEscape_of_ne {c : Char} (h : c ≠ '%') (rest : List Char) :
    startsEscape (c :: rest) = false := by
  unfold startsEscape
  split
  · next heq =>
    cases heq
    exact absurd rfl h
  · rfl

/-- Nothing is resolved at a character that begins no escape. -/
theorem percentBytes_cons {c : Char} {rest : List Char} (h : startsEscape (c :: rest) = false) :
    percentBytes (c :: rest) = c.toNat.toUInt8 :: percentBytes rest := by
  unfold startsEscape at h
  split at h
  next a b rest' heq =>
    cases heq
    rw [percentBytes]
    split
    next x y hx hy =>
      rw [hx, hy] at h
      cases h
    next => rfl
  next hnot =>
    rw [percentBytes]
    intro a b rest' hc hrest
    exact hnot a b rest' (by rw [hc, hrest])

theorem encodeChar_ne_nil (c : Char) : encodeChar c ≠ [] := by
  simp only [encodeChar]
  split
  · exact List.cons_ne_nil _ _
  · split
    · exact List.cons_ne_nil _ _
    · split <;> exact List.cons_ne_nil _ _

/-- A character that is encoded begins with a percent sign. -/
theorem percentEncode_cons_of_not_safe {safe : Char → Bool} {c : Char} (h : ¬safe c = true)
    (s : List Char) : ∃ rest, percentEncode safe (c :: s) = '%' :: rest := by
  rw [percentEncode, List.flatMap_cons, if_neg h]
  cases hbytes : encodeChar c with
  | nil => exact absurd hbytes (encodeChar_ne_nil c)
  | cons b bytes => exact ⟨_, rfl⟩

theorem percentEncode_cons_of_safe {safe : Char → Bool} {c : Char} (h : safe c = true)
    (s : List Char) : percentEncode safe (c :: s) = c :: percentEncode safe s := by
  rw [percentEncode, List.flatMap_cons, if_pos h]
  rfl

/-- Encoding what is behind a percent sign puts no digits there. -/
theorem startsEscape_percentEncode {safe : Char → Bool} {s : List Char}
    (h : startsEscape ('%' :: s) = false) : startsEscape ('%' :: percentEncode safe s) = false := by
  cases s with
  | nil => rfl
  | cons a s =>
    by_cases ha : safe a = true
    · rw [percentEncode_cons_of_safe ha]
      cases s with
      | nil => rfl
      | cons b s =>
        by_cases hb : safe b = true
        · rw [percentEncode_cons_of_safe hb]
          exact h
        · obtain ⟨rest, hrest⟩ := percentEncode_cons_of_not_safe hb s
          rw [hrest]
          exact Bool.and_false _
    · obtain ⟨rest, hrest⟩ := percentEncode_cons_of_not_safe ha s
      rw [hrest]
      cases rest with
      | nil => rfl
      | cons b rest => rfl

theorem hasEscape_of_not_mem {s : List Char} (h : '%' ∉ s) : hasEscape s = false := by
  induction s with
  | nil => rfl
  | cons c s ih =>
    rw [List.mem_cons, not_or] at h
    obtain ⟨hc, hs⟩ := h
    exact hasEscape_cons_eq_false.mpr ⟨startsEscape_of_ne (Ne.symm hc) s, ih hs⟩

/-! ## One run -/

/-- The characters that stay as they are are ASCII. -/
def KeepsAscii (safe : Char → Bool) : Prop := ∀ c, safe c = true → c.toNat < 0x80

/-- They are also no percent signs. -/
def KeepsPlain (safe : Char → Bool) : Prop := ∀ c, safe c = true → c.toNat < 0x80 ∧ c ≠ '%'

theorem KeepsPlain.ascii {safe : Char → Bool} (h : KeepsPlain safe) : KeepsAscii safe :=
  fun c hc => (h c hc).1

/-- Where percent signs stay as they are, none may stand in front of two digits. -/
theorem percentBytes_percentEncode {safe : Char → Bool} (hsafe : KeepsAscii safe) {s : List Char}
    (hsigns : safe '%' = true → hasEscape s = false) :
    percentBytes (percentEncode safe s) = encode s := by
  induction s with
  | nil => rfl
  | cons c s ih =>
    have hrest := ih fun hsign => (hasEscape_cons_eq_false.mp (hsigns hsign)).2
    rw [encode, List.flatMap_cons, ← encode]
    by_cases hc : safe c = true
    · have hstart : startsEscape (c :: percentEncode safe s) = false := by
        by_cases hsign : c = '%'
        · subst hsign
          exact startsEscape_percentEncode (hasEscape_cons_eq_false.mp (hsigns hc)).1
        · exact startsEscape_of_ne hsign _
      have hbyte : encodeChar c = [c.toNat.toUInt8] := by
        unfold encodeChar
        exact if_pos (hsafe c hc)
      rw [percentEncode_cons_of_safe hc, percentBytes_cons hstart, hrest, hbyte]
      rfl
    · rw [percentEncode, List.flatMap_cons, ← percentEncode, if_neg hc,
        percentBytes_flatMap_percentByte, hrest]

theorem ascii_of_mem_percentEncode {safe : Char → Bool} (hsafe : KeepsAscii safe) {s : List Char}
    {c : Char} (h : c ∈ percentEncode safe s) : c.toNat < 0x80 := by
  obtain ⟨d, -, hc⟩ := List.mem_flatMap.mp h
  split at hc
  · next hd =>
    rw [List.mem_singleton.mp hc]
    exact hsafe d hd
  · obtain ⟨b, -, hc⟩ := List.mem_flatMap.mp hc
    exact forall_mem_percentByte (P := fun c => c.toNat < 0x80) (by decide) (by decide) b c hc

/-- A run of ASCII is decoded at its end. -/
theorem percentDecodeRun_ascii {s : List Char} (h : ∀ c ∈ s, c.toNat < 0x80) (run : List Char) :
    percentDecodeRun run s = decodeLossy (percentBytes (run.reverse ++ s)) := by
  induction s generalizing run with
  | nil => rw [percentDecodeRun, List.append_nil]
  | cons c s ih =>
    rw [percentDecodeRun, if_pos (h c List.mem_cons_self),
      ih (fun d hd => h d (List.mem_cons_of_mem c hd)), List.reverse_cons, List.append_assoc]
    rfl

theorem percentDecode_percentEncode {safe : Char → Bool} (hsafe : KeepsAscii safe)
    {s : List Char} (hsigns : safe '%' = true → hasEscape s = false) :
    percentDecode (percentEncode safe s) = s := by
  rw [percentDecode, percentDecodeRun_ascii fun c => ascii_of_mem_percentEncode hsafe]
  rw [List.reverse_nil, List.nil_append, percentBytes_percentEncode hsafe hsigns,
    decodeLossy_encode]

theorem KeepsPlain.percentDecode_percentEncode {safe : Char → Bool} (hsafe : KeepsPlain safe)
    (s : List Char) : percentDecode (percentEncode safe s) = s :=
  Text.percentDecode_percentEncode hsafe.ascii fun hsign => absurd rfl (hsafe '%' hsign).2

theorem percentEncode_of_safe {safe : Char → Bool} {s : List Char} (h : ∀ c ∈ s, safe c = true) :
    percentEncode safe s = s := by
  induction s with
  | nil => rfl
  | cons c s ih =>
    rw [percentEncode, List.flatMap_cons, ← percentEncode, if_pos (h c List.mem_cons_self),
      ih fun d hd => h d (List.mem_cons_of_mem c hd)]
    rfl

/-- Encoding adds percent signs and digits. -/
theorem mem_percentEncode {safe : Char → Bool} {s : List Char} {c : Char}
    (h : c ∈ percentEncode safe s) :
    (c ∈ s ∧ safe c = true) ∨ c = '%' ∨ ∃ n < 16, c = capitalHexChar n := by
  obtain ⟨d, hd, hc⟩ := List.mem_flatMap.mp h
  split at hc
  · next hsafe =>
    rw [List.mem_singleton.mp hc]
    exact .inl ⟨hd, hsafe⟩
  · obtain ⟨b, -, hc⟩ := List.mem_flatMap.mp hc
    exact .inr (mem_percentByte hc)

/-- Encoding makes no text shorter. -/
theorem length_le_percentEncode (safe : Char → Bool) (s : List Char) :
    s.length ≤ (percentEncode safe s).length := by
  induction s with
  | nil => exact Nat.le_refl 0
  | cons c s ih =>
    have hone : 1 ≤ (if safe c then [c] else (encodeChar c).flatMap percentByte).length := by
      split
      · exact Nat.le_refl 1
      · cases hbytes : encodeChar c with
        | nil => exact absurd hbytes (encodeChar_ne_nil c)
        | cons b bytes => simp [percentByte]
    rw [percentEncode, List.flatMap_cons, ← percentEncode, List.length_append, List.length_cons]
    omega

theorem percentEncode_append (safe : Char → Bool) (s rest : List Char) :
    percentEncode safe (s ++ rest) = percentEncode safe s ++ percentEncode safe rest :=
  List.flatMap_append

/-- A text without percent signs once it is encoded has not changed. -/
theorem eq_of_sign_not_mem {safe : Char → Bool} {s : List Char}
    (hsign : '%' ∉ percentEncode safe s) : percentEncode safe s = s := by
  induction s with
  | nil => rfl
  | cons c s ih =>
    by_cases hc : safe c = true
    · rw [percentEncode_cons_of_safe hc] at hsign ⊢
      rw [ih fun hmem => hsign (List.mem_cons_of_mem c hmem)]
    · obtain ⟨rest, hrest⟩ := percentEncode_cons_of_not_safe hc s
      rw [hrest] at hsign
      exact absurd List.mem_cons_self hsign

/-! ## Names and form values -/

theorem ascii_of_isUnreserved {c : Char} (h : isUnreserved c = true) : c.toNat < 0x80 := by
  rw [isUnreserved] at h
  -- the tests of characters come without lemmas about their ranges
  delta Char.isAlphanum Char.isAlpha Char.isUpper Char.isLower Char.isDigit at h
  simp only [Bool.or_eq_true, Bool.and_eq_true, decide_eq_true_eq, ge_iff_le,
    UInt32.le_iff_toNat_le] at h
  rcases h with (((((h | h) | h) | h) | h) | h) | h
  · exact Nat.lt_of_le_of_lt h.2 (by decide)
  · exact Nat.lt_of_le_of_lt h.2 (by decide)
  · exact Nat.lt_of_le_of_lt h.2 (by decide)
  all_goals
    rw [h]
    decide

theorem keepsPlain_isUnreserved : KeepsPlain isUnreserved := by
  intro c hc
  refine ⟨ascii_of_isUnreserved hc, ?_⟩
  rintro rfl
  cases hc

/-- With plus signs for spaces, what is left is percent encoding. -/
theorem map_formEncode (s : List Char) : ((formEncode s).map fun c => if c = '+' then ' ' else c) =
    percentEncode (fun c => isUnreserved c || c = ' ') s := by
  have hplain {piece : List Char} (h : ∀ c ∈ piece, c ≠ '+') :
      (piece.map fun c => if c = '+' then ' ' else c) = piece := by
    conv => rhs; rw [← List.map_id piece]
    exact List.map_congr_left fun c hc => if_neg (h c hc)
  rw [formEncode, List.map_flatMap, percentEncode]
  congr 1
  funext c
  by_cases hc : isUnreserved c = true
  · have hne : c ≠ '+' := by
      rintro rfl
      cases hc
    simp [hc, hne]
  · by_cases hspace : c = ' '
    · simp [hspace, isUnreserved]
    · simp only [hc, hspace, if_false, Bool.false_or, decide_false, Bool.false_eq_true]
      refine hplain fun d hd => ?_
      obtain ⟨b, -, hd⟩ := List.mem_flatMap.mp hd
      exact forall_mem_percentByte (P := (· ≠ '+')) (by decide) (by decide) b d hd

theorem formDecode_formEncode (s : List Char) : formDecode (formEncode s) = s := by
  rw [formDecode, map_formEncode]
  refine KeepsPlain.percentDecode_percentEncode (fun c hc => ?_) s
  rcases Bool.or_eq_true_iff.mp hc with hc | hc
  · exact keepsPlain_isUnreserved c hc
  · rw [of_decide_eq_true hc]
    decide

/-- A form value is no shorter than what it stands for. -/
theorem length_le_formEncode (s : List Char) : s.length ≤ (formEncode s).length := by
  have hlength := congrArg List.length (map_formEncode s)
  rw [List.length_map] at hlength
  rw [hlength]
  exact length_le_percentEncode _ s

/-- A form value holds letters, digits, four marks, plus and percent signs. -/
theorem mem_formEncode {s : List Char} {c : Char} (h : c ∈ formEncode s) :
    isUnreserved c = true ∨ c = '+' ∨ c = '%' := by
  obtain ⟨d, -, hc⟩ := List.mem_flatMap.mp h
  split at hc
  · next hd =>
    rw [List.mem_singleton.mp hc]
    exact .inl hd
  split at hc
  · exact .inr (.inl (List.mem_singleton.mp hc))
  · obtain ⟨b, -, hc⟩ := List.mem_flatMap.mp hc
    exact forall_mem_percentByte (P := fun c => isUnreserved c = true ∨ c = '+' ∨ c = '%')
      (by decide) (by decide) b c hc

theorem not_mem_formEncode {c : Char} (h : isUnreserved c = false) (hplus : c ≠ '+')
    (hpercent : c ≠ '%') (s : List Char) : c ∉ formEncode s := by
  intro hc
  rcases mem_formEncode hc with hc | hc | hc
  · rw [h] at hc
    cases hc
  · exact hplus hc
  · exact hpercent hc

/-- A query of one field has that field. -/
theorem formFields_formEncode (key value : List Char) :
    formFields (formEncode key ++ '=' :: formEncode value) = [(key, value)] := by
  have hequals : ∀ c ∈ formEncode key, (decide (c ≠ '=')) = true := by
    intro c hc
    refine decide_eq_true ?_
    rintro rfl
    exact not_mem_formEncode (by decide) (by decide) (by decide) key hc
  have hampersand : '&' ∉ formEncode key ++ '=' :: formEncode value := by
    have hpiece := not_mem_formEncode (c := '&') (by decide) (by decide) (by decide)
    simp [hpiece]
  have hfield : formField (formEncode key ++ '=' :: formEncode value) = (key, value) := by
    rw [formField, List.takeWhile_append_of_pos hequals, List.dropWhile_append_of_pos hequals]
    simp [formDecode_formEncode]
  rw [formFields, splitAt_of_not_mem hampersand]
  simp [hfield]

end CommentThreads.Text
