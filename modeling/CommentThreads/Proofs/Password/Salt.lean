/-
CommentThreads.Proofs.Password.Salt — a hash carries its salt.

* `decodeBytes?_encodeBytes` — bytes come back from their written form.
* `ofText?_hashBytes` — the salt that a hash was made under is found in it
  again: version, cost and bytes.
* `hash?_of_hash` — so hashing under a hash is hashing under its salt.
* `isPlain_of_hash?` — only a string has a hash.
* `verify?_of_hash` — a check against a hash gives an answer, and it says
  whether the bytes that count hash to it.
-/
import CommentThreads.Password.Hash
import CommentThreads.Proofs.Text.Digits
import CommentThreads.Proofs.Text.Lines

namespace CommentThreads.Password

open CommentThreads.Text

/-! ## Six bits and bytes -/

theorem sixBits?_sixBitChar {n : Nat} (h : n < 64) : sixBits? (sixBitChar n) = some n := by
  have hall : ∀ n < 64, sixBits? (sixBitChar n) = some n := by decide +kernel
  exact hall n h

theorem sixBitChar_ne_dollar (n : Nat) : sixBitChar n ≠ '$' := by
  have hall : ∀ n < 64, alphabet.getD n '.' ≠ '$' := by decide +kernel
  exact hall (n % 64) (Nat.mod_lt n (by decide))

theorem toUInt8_eq {b : UInt8} {n : Nat} (h : n = b.toNat) : n.toUInt8 = b := by
  subst h
  exact UInt8.ofNat_toNat

/-- Bytes come back from their written form. -/
theorem decodeBytes?_encodeBytes (bytes : List UInt8) :
    decodeBytes? (encodeBytes bytes) = some bytes := by
  fun_induction encodeBytes bytes with
  | case1 => rfl
  | case2 a =>
    have ha := a.toNat_lt
    simp only [decodeBytes?, sixBits?_sixBitChar (show a.toNat / 4 < 64 by omega),
      sixBits?_sixBitChar (show a.toNat % 4 * 16 < 64 by omega), Option.bind_eq_bind,
      Option.bind_some]
    rw [if_pos (by omega), toUInt8_eq (b := a) (by omega)]
  | case3 a b =>
    have ha := a.toNat_lt
    have hb := b.toNat_lt
    simp only [decodeBytes?, sixBits?_sixBitChar (show a.toNat / 4 < 64 by omega),
      sixBits?_sixBitChar (show a.toNat % 4 * 16 + b.toNat / 16 < 64 by omega),
      sixBits?_sixBitChar (show b.toNat % 16 * 4 < 64 by omega), Option.bind_eq_bind,
      Option.bind_some]
    rw [if_pos (by omega), toUInt8_eq (b := a) (by omega), toUInt8_eq (b := b) (by omega)]
  | case4 a b c rest ih =>
    have ha := a.toNat_lt
    have hb := b.toNat_lt
    have hc := c.toNat_lt
    simp only [decodeBytes?, sixBits?_sixBitChar (show a.toNat / 4 < 64 by omega),
      sixBits?_sixBitChar (show a.toNat % 4 * 16 + b.toNat / 16 < 64 by omega),
      sixBits?_sixBitChar (show b.toNat % 16 * 4 + c.toNat / 64 < 64 by omega),
      sixBits?_sixBitChar (show c.toNat % 64 < 64 by omega), ih, Option.bind_eq_bind,
      Option.bind_some]
    rw [toUInt8_eq (b := a) (by omega), toUInt8_eq (b := b) (by omega),
      toUInt8_eq (b := c) (by omega)]

theorem length_encodeBytes (bytes : List UInt8) :
    (encodeBytes bytes).length = (bytes.length * 4 + 2) / 3 := by
  fun_induction encodeBytes bytes with
  | case1 => rfl
  | case2 => simp
  | case3 => simp
  | case4 a b c rest ih =>
    simp only [List.length_cons, ih]
    omega

theorem dollar_not_mem_encodeBytes (bytes : List UInt8) : '$' ∉ encodeBytes bytes := by
  fun_induction encodeBytes bytes <;> simp_all [Ne.symm (sixBitChar_ne_dollar _)]

/-- As many bytes are read as the characters hold. -/
theorem length_decodeBytes? {s : List Char} {bytes : List UInt8} (h : decodeBytes? s = some bytes) :
    bytes.length = s.length * 3 / 4 := by
  fun_induction decodeBytes? s generalizing bytes with
  | case1 => simp_all
  | case2 => simp at h
  | case3 p q =>
    simp only [Option.bind_eq_bind, Option.bind_eq_some_iff] at h
    obtain ⟨a, -, b, -, h⟩ := h
    split at h
    · cases h; simp
    · cases h
  | case4 p q r =>
    simp only [Option.bind_eq_bind, Option.bind_eq_some_iff] at h
    obtain ⟨a, -, b, -, c, -, h⟩ := h
    split at h
    · cases h; simp
    · cases h
  | case5 p q r s rest ih =>
    simp only [Option.bind_eq_bind, Option.bind_eq_some_iff] at h
    obtain ⟨a, -, b, -, c, -, d, -, bytes, hrest, h⟩ := h
    cases h
    simp only [List.length_cons, ih hrest]
    omega

/-! ## The salt of a hash -/

/-- A salt that can be written and read: a known version, a cost of at most
two digits that is allowed, and sixteen bytes. -/
structure Salt.WellFormed (salt : Salt) : Prop where
  version : salt.version ∈ versions
  cost : 4 ≤ salt.cost ∧ salt.cost ≤ 31
  bytes : salt.bytes.length = 16

theorem cost?_bounds {s : List Char} {n : Nat} (h : cost? s = some n) : 4 ≤ n ∧ n ≤ 31 := by
  simp only [cost?] at h
  generalize (if s.head? = some '+' then s.drop 1 else s) = digits at h
  split at h
  · split at h
    next hbounds =>
      cases h
      simpa using hbounds
    next => cases h
  · cases h

theorem cost?_padded {n : Nat} (h : 4 ≤ n ∧ n ≤ 31) : cost? (padded 2 n) = some n := by
  have hall : ∀ n < 32, 4 ≤ n → cost? (padded 2 n) = some n := by decide
  exact hall n (by omega) h.1

/-- Whatever reads as a salt is well formed. -/
theorem Salt.wellFormed_of_ofText? {s : String} {salt : Salt} (h : ofText? s = some salt) :
    salt.WellFormed := by
  simp only [ofText?] at h
  split at h
  next version cost tail hpieces =>
    split at h
    next hgood =>
      simp only [Bool.and_eq_true, List.contains_iff_mem, decide_eq_true_eq] at hgood
      split at h
      next n bytes hcost hbytes =>
        cases h
        refine ⟨hgood.1, cost?_bounds hcost, ?_⟩
        rw [length_decodeBytes? hbytes, List.length_take, Nat.min_eq_left hgood.2]
      next => cases h
    next => cases h
  next => cases h

/-- The version of a salt is written without a dollar sign. -/
theorem dollar_not_mem_version {version : String} (h : version ∈ versions) :
    '$' ∉ version.toList ∧ version.toList ≠ [] := by
  have hall : ∀ version ∈ versions, '$' ∉ version.toList ∧ version.toList ≠ [] := by decide
  exact hall version h

/-- The salt that a hash was made under is found in it again. -/
theorem ofText?_hashBytes {salt : Salt} (h : salt.WellFormed) (bytes : List UInt8) :
    Salt.ofText? (hashBytes salt bytes) = some salt := by
  obtain ⟨hversion, hne⟩ := dollar_not_mem_version h.version
  have hcost : '$' ∉ padded 2 salt.cost := fun hmem =>
    absurd (isDigit_of_mem_padded hmem) (by decide)
  have htail : '$' ∉ encodeBytes salt.bytes ++ encodeBytes (digest salt bytes) := by
    simp [dollar_not_mem_encodeBytes]
  have hlength : (encodeBytes salt.bytes).length = 22 := by
    rw [length_encodeBytes, h.bytes]
  have hpieces : splitAt '$' (hashBytes salt bytes).toList =
      [[], salt.version.toList, padded 2 salt.cost,
        encodeBytes salt.bytes ++ encodeBytes (digest salt bytes)] := by
    simp only [hashBytes, hashText, String.toList_ofList, List.append_assoc, List.cons_append]
    rw [splitAt, if_pos rfl, splitAt_append hversion, splitAt_append hcost,
      splitAt_of_not_mem htail]
  have htake : (encodeBytes salt.bytes ++ encodeBytes (digest salt bytes)).take 22 =
      encodeBytes salt.bytes := by
    rw [← hlength, List.take_left]
  have hkept : (splitAt '$' (hashBytes salt bytes).toList).filter (· ≠ []) =
      [salt.version.toList, padded 2 salt.cost,
        encodeBytes salt.bytes ++ encodeBytes (digest salt bytes)] := by
    have hcost_ne : padded 2 salt.cost ≠ [] := by simp [padded]
    have htail_ne : encodeBytes salt.bytes ++ encodeBytes (digest salt bytes) ≠ [] := by
      intro hnil
      simp [(List.append_eq_nil_iff.mp hnil).1] at hlength
    simp [hpieces, hne, hcost_ne, htail_ne]
  rw [Salt.ofText?, hkept]
  simp only [String.ofList_toList, htake, cost?_padded h.cost, decodeBytes?_encodeBytes]
  rw [if_pos (by simp [h.version, hlength])]

/-! ## Passwords that are strings, and others -/

/-- A string is hashed under every salt. -/
theorem hash?_plain (salt password : String) :
    hash? salt password =
      (Salt.ofText? salt).map fun salt => hashBytes salt (passwordBytes password) := by
  cases h : Salt.ofText? salt <;> simp [hash?, passwordBytes?, h]

/-- What has a hash is a string. -/
theorem isPlain_of_hash? {salt stored : String} {password : RawText}
    (h : hash? salt password = some stored) : password.isPlain = true := by
  cases password with
  | plain s => rfl
  | torn s half rest => simp [hash?, passwordBytes?] at h

/-- A check against a string. -/
theorem verify?_plain (password : RawText) (stored : String) :
    verify? password stored = (hash? stored password).map (· == stored) := by
  cases h : hash? stored password <;> simp [verify?, h]

/-- Hashing under a hash is hashing under the salt in it. -/
theorem hash?_of_hash {saltText password stored : String}
    (h : hash? saltText password = some stored) (other : String) :
    ∃ salt, Salt.ofText? stored = some salt ∧
      stored = hashBytes salt (passwordBytes password) ∧
      hash? stored other = some (hashBytes salt (passwordBytes other)) := by
  rw [hash?_plain] at h
  obtain ⟨salt, hsalt, rfl⟩ := Option.map_eq_some_iff.mp h
  have hback := ofText?_hashBytes (Salt.wellFormed_of_ofText? hsalt) (passwordBytes password)
  exact ⟨salt, hback, rfl, by rw [hash?_plain, hback, Option.map_some]⟩

/-- A check against a hash gives an answer: whether the other password has
that same hash under it. -/
theorem verify?_of_hash {saltText password stored : String}
    (h : hash? saltText password = some stored) (other : String) :
    verify? other stored = some (decide (hash? stored other = some stored)) := by
  obtain ⟨salt, -, -, hother⟩ := hash?_of_hash h other
  rw [verify?_plain, hother, Option.map_some]
  simp [Bool.beq_eq_decide_eq]

/-- A hash is not the empty text. -/
theorem hash?_ne_empty {saltText stored : String} {password : RawText}
    (h : hash? saltText password = some stored) : stored ≠ "" := by
  obtain ⟨s, rfl⟩ := RawText.isPlain_iff.mp (isPlain_of_hash? h)
  obtain ⟨salt, -, rfl, -⟩ := hash?_of_hash h s
  simp [hashBytes, hashText, ← String.toList_inj]

/-- Every character has a byte, so only the empty password has none. -/
theorem passwordBytes_eq_nil_iff {password : String} :
    passwordBytes password = [] ↔ password = "" := by
  have hchar (c : Char) : Text.encodeChar c ≠ [] := by
    simp only [Text.encodeChar]
    split
    · simp
    · split
      · simp
      · split <;> simp
  rw [passwordBytes, List.take_eq_nil_iff, Text.utf8, Text.encode, List.flatMap_eq_nil_iff,
    ← String.toList_inj]
  constructor
  · rintro (hzero | hall)
    · cases hzero
    · rw [String.toList_empty]
      exact List.eq_nil_iff_forall_not_mem.mpr fun c hc => hchar c (hall c hc)
  · intro hempty
    rw [hempty]
    exact .inr fun c hc => by simp at hc

end CommentThreads.Password
