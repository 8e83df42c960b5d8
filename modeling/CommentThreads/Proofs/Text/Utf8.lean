/-
CommentThreads.Proofs.Text.Utf8 — what was encoded is decoded.

The scanner reads the bytes of one character and is then where it began
(`scan_encodeChar`). That is shown width by width: the first byte opens a
character, and every further byte lies in the range that is left open, since a
character is no surrogate and its bytes are not overlong.
-/
import CommentThreads.Text.Utf8

namespace CommentThreads.Text

/-! ## One byte -/

theorem toNat_toUInt8 {n : Nat} (h : n < 0x100) : n.toUInt8.toNat = n := by
  rw [Nat.toUInt8, UInt8.toNat_ofNat']
  exact Nat.mod_eq_of_lt h

theorem beginAt_ascii {n : Nat} (h : n < 0x80) :
    beginAt n.toUInt8 = ([some (Char.ofNat n)], none) := by
  rw [beginAt, toNat_toUInt8 (Nat.lt_trans h (by decide))]
  simp only [h, if_true]

theorem beginAt_two : ∀ x < 0x20, 2 ≤ x →
    beginAt (0xC0 + x).toUInt8 = ([], some ⟨x, 1, 0x80, 0xBF⟩) := by
  decide

/-- Without the lower bound there were overlong forms, without the upper one
surrogates. -/
theorem beginAt_three : ∀ x < 0x10, beginAt (0xE0 + x).toUInt8 =
    ([], some ⟨x, 2, if x = 0 then 0xA0 else 0x80, if x = 0x0D then 0x9F else 0xBF⟩) := by
  decide

theorem beginAt_four : ∀ x < 5, beginAt (0xF0 + x).toUInt8 =
    ([], some ⟨x, 3, if x = 0 then 0x90 else 0x80, if x = 4 then 0x8F else 0xBF⟩) := by
  decide

/-- A further byte in the range brings six more bits. -/
theorem extend_of_mem {p : Pending} {d : Nat} (hd : d < 0x40) (hlow : p.low.toNat ≤ 0x80 + d)
    (hhigh : 0x80 + d ≤ p.high.toNat) :
    p.extend (0x80 + d).toUInt8 =
      if p.missing ≤ 1 then ([some (Char.ofNat (p.value * 0x40 + d))], none)
      else ([], some ⟨p.value * 0x40 + d, p.missing - 1, 0x80, 0xBF⟩) := by
  have hbyte : (0x80 + d).toUInt8.toNat = 0x80 + d := toNat_toUInt8 (by omega)
  have hrange : (p.low ≤ (0x80 + d).toUInt8 && (0x80 + d).toUInt8 ≤ p.high) = true := by
    simp only [UInt8.le_iff_toNat_le, hbyte, hlow, hhigh, decide_true, Bool.and_self]
  have hbits : (0x80 + d) % 0x40 = d := by omega
  rw [Pending.extend, if_pos hrange, hbyte, hbits]

/-! ## One character -/

theorem scan_begin (b : UInt8) (rest : List UInt8) :
    scan none (b :: rest) = (beginAt b).1 ++ scan (beginAt b).2 rest := rfl

theorem scan_extend (p : Pending) (b : UInt8) (rest : List UInt8) :
    scan (some p) (b :: rest) = (p.extend b).1 ++ scan (p.extend b).2 rest := rfl

theorem scan_two {x d : Nat} (hx : x < 0x20) (hlong : 2 ≤ x) (hd : d < 0x40) (rest : List UInt8) :
    scan none ((0xC0 + x).toUInt8 :: (0x80 + d).toUInt8 :: rest) =
      some (Char.ofNat (x * 0x40 + d)) :: scan none rest := by
  have hlast : Pending.extend ⟨x, 1, 0x80, 0xBF⟩ (0x80 + d).toUInt8 =
      ([some (Char.ofNat (x * 0x40 + d))], none) :=
    extend_of_mem hd (Nat.le_add_right _ _) (show 0x80 + d ≤ 0xBF by omega)
  rw [scan_begin, beginAt_two x hx hlong, scan_extend, hlast]
  rfl

theorem scan_three {x d e : Nat} (hx : x < 0x10) (hd : d < 0x40) (he : e < 0x40)
    (hlong : x = 0 → 0x20 ≤ d) (hsurrogate : x = 0x0D → d < 0x20) (rest : List UInt8) :
    scan none ((0xE0 + x).toUInt8 :: (0x80 + d).toUInt8 :: (0x80 + e).toUInt8 :: rest) =
      some (Char.ofNat ((x * 0x40 + d) * 0x40 + e)) :: scan none rest := by
  have hsecond : Pending.extend
      ⟨x, 2, if x = 0 then 0xA0 else 0x80, if x = 0x0D then 0x9F else 0xBF⟩ (0x80 + d).toUInt8 =
      ([], some ⟨x * 0x40 + d, 1, 0x80, 0xBF⟩) := by
    refine extend_of_mem hd ?_ ?_
    · show UInt8.toNat (if x = 0 then 0xA0 else 0x80) ≤ 0x80 + d
      split
      · next hzero => exact Nat.add_le_add_left (hlong hzero) 0x80
      · exact Nat.le_add_right _ _
    · show 0x80 + d ≤ UInt8.toNat (if x = 0x0D then 0x9F else 0xBF)
      split
      · next hlast => exact Nat.add_le_add_left (Nat.le_of_lt_succ (hsurrogate hlast)) 0x80
      · exact Nat.add_le_add_left (Nat.le_of_lt_succ hd) 0x80
  have hlast : Pending.extend ⟨x * 0x40 + d, 1, 0x80, 0xBF⟩ (0x80 + e).toUInt8 =
      ([some (Char.ofNat ((x * 0x40 + d) * 0x40 + e))], none) :=
    extend_of_mem he (Nat.le_add_right _ _) (show 0x80 + e ≤ 0xBF by omega)
  rw [scan_begin, beginAt_three x hx, scan_extend, hsecond, scan_extend, hlast]
  rfl

theorem scan_four {x d e f : Nat} (hx : x < 5) (hd : d < 0x40) (he : e < 0x40) (hf : f < 0x40)
    (hlong : x = 0 → 0x10 ≤ d) (hmost : x = 4 → d < 0x10) (rest : List UInt8) :
    scan none ((0xF0 + x).toUInt8 :: (0x80 + d).toUInt8 :: (0x80 + e).toUInt8 ::
        (0x80 + f).toUInt8 :: rest) =
      some (Char.ofNat (((x * 0x40 + d) * 0x40 + e) * 0x40 + f)) :: scan none rest := by
  have hsecond : Pending.extend
      ⟨x, 3, if x = 0 then 0x90 else 0x80, if x = 4 then 0x8F else 0xBF⟩ (0x80 + d).toUInt8 =
      ([], some ⟨x * 0x40 + d, 2, 0x80, 0xBF⟩) := by
    refine extend_of_mem hd ?_ ?_
    · show UInt8.toNat (if x = 0 then 0x90 else 0x80) ≤ 0x80 + d
      split
      · next hzero => exact Nat.add_le_add_left (hlong hzero) 0x80
      · exact Nat.le_add_right _ _
    · show 0x80 + d ≤ UInt8.toNat (if x = 4 then 0x8F else 0xBF)
      split
      · next hlast => exact Nat.add_le_add_left (Nat.le_of_lt_succ (hmost hlast)) 0x80
      · exact Nat.add_le_add_left (Nat.le_of_lt_succ hd) 0x80
  have hthird : Pending.extend ⟨x * 0x40 + d, 2, 0x80, 0xBF⟩ (0x80 + e).toUInt8 =
      ([], some ⟨(x * 0x40 + d) * 0x40 + e, 1, 0x80, 0xBF⟩) :=
    extend_of_mem he (Nat.le_add_right _ _) (show 0x80 + e ≤ 0xBF by omega)
  have hlast : Pending.extend ⟨(x * 0x40 + d) * 0x40 + e, 1, 0x80, 0xBF⟩ (0x80 + f).toUInt8 =
      ([some (Char.ofNat (((x * 0x40 + d) * 0x40 + e) * 0x40 + f))], none) :=
    extend_of_mem hf (Nat.le_add_right _ _) (show 0x80 + f ≤ 0xBF by omega)
  rw [scan_begin, beginAt_four x hx, scan_extend, hsecond, scan_extend, hthird, scan_extend, hlast]
  rfl

/-- The bytes of a character spell it, whatever follows them. -/
theorem scan_encodeChar (c : Char) (rest : List UInt8) :
    scan none (encodeChar c ++ rest) = some c :: scan none rest := by
  have hvalid : c.toNat < 0xD800 ∨ (0xDFFF < c.toNat ∧ c.toNat < 0x110000) := c.valid
  have hchar (n : Nat) (hn : n = c.toNat) : Char.ofNat n = c := by rw [hn, Char.ofNat_toNat]
  have hlow (n : Nat) : n % 0x40 < 0x40 := Nat.mod_lt n (by decide)
  unfold encodeChar
  simp only
  split
  · next hone =>
    rw [List.singleton_append, scan_begin, beginAt_ascii hone, hchar _ rfl]
    rfl
  split
  · next hone htwo =>
    have hx : c.toNat / 0x40 < 0x20 := by omega
    have hspell := scan_two hx (by omega) (hlow c.toNat) rest
    rwa [hchar _ (by omega)] at hspell
  split
  · next hone htwo hthree =>
    have hx : c.toNat / 0x1000 < 0x10 := by omega
    have hspell := scan_three hx (hlow (c.toNat / 0x40)) (hlow c.toNat) (by omega) (by omega) rest
    rwa [hchar _ (by omega)] at hspell
  · next hone htwo hthree =>
    have hx : c.toNat / 0x40000 < 5 := by omega
    have hspell := scan_four hx (hlow (c.toNat / 0x1000)) (hlow (c.toNat / 0x40)) (hlow c.toNat)
      (by omega) (by omega) rest
    rwa [hchar _ (by omega)] at hspell

/-! ## A text -/

theorem scan_encode (s : List Char) (rest : List UInt8) :
    scan none (encode s ++ rest) = s.map some ++ scan none rest := by
  induction s with
  | nil => rfl
  | cons c s ih =>
    rw [encode, List.flatMap_cons, ← encode, List.append_assoc, scan_encodeChar, ih]
    rfl

theorem scan_encode_all (s : List Char) : scan none (encode s) = s.map some := by
  have hscan := scan_encode s []
  rw [List.append_nil] at hscan
  rw [hscan]
  exact List.append_nil _

theorem decodeLossy_encode (s : List Char) : decodeLossy (encode s) = s := by
  rw [decodeLossy, scan_encode_all, List.map_map]
  exact List.map_id s

theorem decode_encode (s : List Char) : decode (encode s) = some s := by
  rw [decode, scan_encode_all]
  induction s with
  | nil => rfl
  | cons c s ih => simp only [List.map_cons, List.mapM_cons, ih]; rfl

end CommentThreads.Text
