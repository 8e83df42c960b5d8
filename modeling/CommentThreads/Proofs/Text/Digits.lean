/-
CommentThreads.Proofs.Text.Digits — digits of a fixed number are read back.

`ofDigits_padded`: the last `width` digits of a number denote its remainder
by ten to that power, so a number that fits is read back as it was
written. Dates, times of day and the cost of a hash are all written that
way. `ofDigits_decimal` and `ofHexDigits?_hex` say the same of numbers without
a width and of hexadecimal ones.
-/
import CommentThreads.Number.Power
import CommentThreads.Text.Digits

namespace CommentThreads.Text

open CommentThreads.Number

theorem isDigit_digitChar (n : Nat) : isDigit (digitChar n) = true := by
  have hall : ∀ d < 10, isDigit (Char.ofNat (d + '0'.toNat)) = true := by decide
  exact hall (n % 10) (Nat.mod_lt n (by decide))

theorem digitValue?_digitChar (n : Nat) : digitValue? (digitChar n) = some (n % 10) := by
  have hall : ∀ d < 10, digitValue? (Char.ofNat (d + '0'.toNat)) = some d := by decide
  exact hall (n % 10) (Nat.mod_lt n (by decide))

@[simp] theorem length_padded (width n : Nat) : (padded width n).length = width := by
  induction width generalizing n with
  | zero => rfl
  | succ width ih => simp [padded, ih]

/-- Every character that `padded` writes is a digit. -/
theorem isDigit_of_mem_padded {width n : Nat} {c : Char} (h : c ∈ padded width n) :
    isDigit c = true := by
  induction width generalizing n with
  | zero => simp [padded] at h
  | succ width ih =>
    simp only [padded, List.mem_append, List.mem_singleton] at h
    rcases h with h | rfl
    · exact ih h
    · exact isDigit_digitChar n

theorem all_isDigit_padded (width n : Nat) : (padded width n).all isDigit = true :=
  List.all_eq_true.mpr fun _ h => isDigit_of_mem_padded h

theorem ofDigits_append_digitChar (s : List Char) (n : Nat) :
    ofDigits (s ++ [digitChar n]) = ofDigits s * 10 + n % 10 := by
  simp [ofDigits, digitValue?_digitChar]

theorem ofDigits_padded (width n : Nat) : ofDigits (padded width n) = n % tenTo width := by
  induction width generalizing n with
  | zero => simp [padded, ofDigits, Nat.mod_one]
  | succ width ih =>
    rw [padded, ofDigits_append_digitChar, ih, tenTo_succ, Nat.mul_comm (tenTo width),
      Nat.mod_mul, Nat.mul_comm, Nat.add_comm]

/-- A number that fits in its digits is read back. -/
theorem ofDigits_padded_of_lt {width n : Nat} (h : n < tenTo width) :
    ofDigits (padded width n) = n := by
  rw [ofDigits_padded, Nat.mod_eq_of_lt h]

/-! ## Without a width -/

theorem digitChar_ne_zero {n : Nat} (h : n % 10 ≠ 0) : digitChar n ≠ '0' := by
  have hall : ∀ d < 10, d ≠ 0 → Char.ofNat (d + '0'.toNat) ≠ '0' := by decide
  exact hall (n % 10) (Nat.mod_lt n (by decide)) h

theorem decimal_of_lt {n : Nat} (h : n < 10) : decimal n = [digitChar n] := by
  rw [decimal, digitsFromLast, if_pos h]
  rfl

theorem decimal_of_ge {n : Nat} (h : ¬n < 10) : decimal n = decimal (n / 10) ++ [digitChar n] := by
  rw [decimal, digitsFromLast, if_neg h, List.reverse_cons]
  rfl

theorem ofDigits_decimal (n : Nat) : ofDigits (decimal n) = n := by
  induction n using Nat.strongRecOn with
  | ind n ih =>
    by_cases h : n < 10
    · have hlast := ofDigits_append_digitChar [] n
      have hnil : ofDigits [] = 0 := rfl
      rw [List.nil_append, hnil] at hlast
      rw [decimal_of_lt h, hlast]
      omega
    · rw [decimal_of_ge h, ofDigits_append_digitChar, ih (n / 10) (by omega)]
      omega

/-- A number has a first digit, and that is a zero only if the number is. -/
theorem exists_decimal_eq_cons (n : Nat) :
    ∃ c rest, decimal n = c :: rest ∧ (n ≠ 0 → c ≠ '0') := by
  induction n using Nat.strongRecOn with
  | ind n ih =>
    by_cases h : n < 10
    · refine ⟨digitChar n, [], decimal_of_lt h, fun hne => digitChar_ne_zero ?_⟩
      rwa [Nat.mod_eq_of_lt h]
    · obtain ⟨c, rest, hc, hne⟩ := ih (n / 10) (by omega)
      refine ⟨c, rest ++ [digitChar n], ?_, fun _ => hne (by omega)⟩
      rw [decimal_of_ge h, hc]
      rfl

theorem all_isDigit_decimal (n : Nat) : ∀ c ∈ decimal n, isDigit c = true := by
  induction n using Nat.strongRecOn with
  | ind n ih =>
    intro c hc
    by_cases h : n < 10
    · rw [decimal_of_lt h, List.mem_singleton] at hc
      rw [hc]
      exact isDigit_digitChar n
    · rw [decimal_of_ge h, List.mem_append, List.mem_singleton] at hc
      rcases hc with hc | rfl
      · exact ih (n / 10) (by omega) c hc
      · exact isDigit_digitChar n

/-! ## Hexadecimal digits -/

theorem hexValue?_hexChar (n : Nat) : hexValue? (hexChar n) = some (n % 16) := by
  have hall : ∀ d < 16, hexValue? (if d < 10 then digitChar d
      else Char.ofNat (d - 10 + 'a'.toNat)) = some d := by decide
  exact hall (n % 16) (Nat.mod_lt n (by decide))

theorem ofHexDigits?_hex (width n : Nat) :
    ofHexDigits? (hex width n) = some (n % twoTo (4 * width)) := by
  induction width generalizing n with
  | zero => simp [hex, ofHexDigits?, Nat.mod_one]
  | succ width ih =>
    have hdigits : ofHexDigits? (hex width (n / 16) ++ [hexChar n]) =
        (ofHexDigits? (hex width (n / 16))).bind fun m =>
          (hexValue? (hexChar n)).map (m * 16 + ·) := by
      simp [ofHexDigits?, List.foldlM_append]
    have hpower : twoTo (4 * (width + 1)) = 16 * twoTo (4 * width) := by
      simp only [Nat.mul_add, Nat.mul_one, twoTo_succ]
      omega
    rw [hex, hdigits, ih, Option.bind_some, hexValue?_hexChar, Option.map_some, hpower,
      Nat.mul_comm, Nat.mod_mul, Nat.add_comm]

/-- The hexadecimal digits are these. -/
theorem mem_hexDigits {c : Char} (h : (hexValue? c).isSome = true) :
    c ∈ "0123456789abcdefABCDEF".toList := by
  have hrange : (48 ≤ c.toNat ∧ c.toNat ≤ 57) ∨ (97 ≤ c.toNat ∧ c.toNat ≤ 102) ∨
      (65 ≤ c.toNat ∧ c.toNat ≤ 70) := by
    unfold hexValue? at h
    simp only [Bool.and_eq_true, decide_eq_true_eq, Char.le_def, UInt32.le_iff_toNat_le] at h
    split at h
    · next hdigit => exact .inl hdigit
    split at h
    · next hsmall => exact .inr (.inl hsmall)
    split at h
    · next hcapital => exact .inr (.inr hcapital)
    · cases h
  have hall : ∀ n < 128, (48 ≤ n ∧ n ≤ 57) ∨ (97 ≤ n ∧ n ≤ 102) ∨ (65 ≤ n ∧ n ≤ 70) →
      Char.ofNat n ∈ "0123456789abcdefABCDEF".toList := by decide
  rw [← Char.ofNat_toNat c]
  exact hall _ (by omega) hrange

end CommentThreads.Text
