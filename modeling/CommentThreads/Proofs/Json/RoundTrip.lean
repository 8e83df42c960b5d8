/-
CommentThreads.Proofs.Json.RoundTrip — what is written over the wire is read
back.

`ofChars_compact`: the text of a value that can be sent is read as a value that the
written one settles (`reread`). That is the value itself, unless it holds a number that
is no integer, an object with a key given twice, or an integer too long to be converted,
where nothing is read.

`ofBytes_compact`: the bytes of an object that is `Plain` and can be sent are read as the
object. Every body and every answer of the service is plain.
-/
import CommentThreads.Proofs.Entries
import CommentThreads.Proofs.Json.Numerals

namespace CommentThreads.Json

open CommentThreads.Text CommentThreads.Number

/-! ## What is read -/

mutual

/-- The value that is read where a value was written. -/
def reread : Json → Option Json
  | .int n => if (decimal n.natAbs).length ≤ mostDigits then some (.int n) else none
  | .real x => (plainValue ⟨0, x.text "Infinity" "NaN"⟩).toOption.map Prod.fst
  | .list items => (rereadItems items).map .list
  | .object entries => (rereadEntries entries).map ofEntries
  | v => some v

/-- The items that are read where these were written. -/
def rereadItems : List Json → Option (List Json)
  | [] => some []
  | v :: rest => (reread v).bind fun v => (rereadItems rest).map (v :: ·)

/-- The entries that are read where these were written. -/
def rereadEntries : List (RawText × Json) → Option (List (RawText × Json))
  | [] => some []
  | (key, v) :: rest => (reread v).bind fun v => (rereadEntries rest).map ((key, v) :: ·)

end

theorem rereadItems_singleton (v : Json) : rereadItems [v] = (reread v).map fun v => [v] := by
  rw [rereadItems, Option.map_eq_bind]
  rfl

theorem rereadEntries_singleton (key : RawText) (v : Json) :
    rereadEntries [(key, v)] = (reread v).map fun v => [(key, v)] := by
  rw [rereadEntries, Option.map_eq_bind]
  rfl

/-- A reader gives a value and leaves a rest; or it stops at an integer that is too
long, and does not say where. -/
def Gives {α : Type} (r : Read α) : Option α → List Char → Prop
  | some a, rest => Reads r a rest
  | none, _ => r = .error .tooManyDigits

theorem gives_map {α β : Type} {r : Read α} {outcome : Option α} {rest : List Char}
    (h : Gives r outcome rest) (f : α → β) :
    Gives (r.map fun (a, c) => (f a, c)) (outcome.map f) rest := by
  cases outcome with
  | none =>
    have hr : r = .error .tooManyDigits := h
    rw [hr]
    rfl
  | some a =>
    obtain ⟨pos, hr⟩ := h
    exact ⟨pos, by rw [hr]; rfl⟩

/-! ## Where a value begins -/

/-- A gap ends where something else stands. -/
theorem skipGap_append {gap : List Char} (hgap : ∀ c ∈ gap, isGap c = true) {s : List Char}
    (h : ∀ c ∈ s.head?, isGap c = false) (pos : Nat) :
    Cursor.skipGap ⟨pos, gap ++ s⟩ = ⟨pos + gap.length, s⟩ := by
  have hend : s.takeWhile isGap = [] := by
    cases s with
    | nil => rfl
    | cons c rest => rw [List.takeWhile_cons_of_neg (by simp [h c rfl])]
  have htake : (gap ++ s).takeWhile isGap = gap := by
    rw [List.takeWhile_append_of_pos hgap, hend, List.append_nil]
  rw [Cursor.skipGap, htake, Cursor.advance, List.drop_left]

theorem head_cons {c : Char} (h : isGap c = false) (rest : List Char) :
    ∀ d ∈ (c :: rest).head?, isGap d = false :=
  fun _ hd => Option.some.inj hd ▸ h

theorem skipGap_of_head {pos : Nat} {s : List Char} (h : ∀ c ∈ s.head?, isGap c = false) :
    Cursor.skipGap ⟨pos, s⟩ = ⟨pos, s⟩ :=
  skipGap_append (List.forall_mem_nil _) h pos

/-- What is neither a list nor an object begins with a character that is neither a gap
nor a closing bracket. -/
theorem exists_scalar_eq_cons (point : Point → List Char) (v : Json) :
    ∃ c rest, scalar point v = c :: rest ∧ isGap c = false ∧ c ≠ ']' := by
  have hdigit {c : Char} (hc : isDigit c = true) : isGap c = false ∧ c ≠ ']' := by
    have hne (x : Char) (hx : isDigit x = false) : c ≠ x := by
      rintro rfl
      exact Bool.false_ne_true (hx.symm.trans hc)
    simp [isGap, hne ' ' rfl, hne '\t' rfl, hne '\n' rfl, hne '\r' rfl, hne ']' rfl]
  cases v with
  | null => exact ⟨'n', _, rfl, rfl, by decide⟩
  | bool b => cases b <;> exact ⟨_, _, rfl, rfl, by decide⟩
  | int n =>
    cases n with
    | ofNat m =>
      obtain ⟨c, rest, hm, -⟩ := exists_decimal_eq_cons m
      exact ⟨c, rest, hm, hdigit (all_isDigit_decimal m c (by rw [hm]; exact List.mem_cons_self))⟩
    | negSucc m => exact ⟨'-', _, rfl, rfl, by decide⟩
  | real x =>
    obtain ⟨c, rest, hx, hc | rfl | rfl | rfl⟩ := exists_text_eq_cons x
    · exact ⟨c, rest, hx, hdigit hc⟩
    all_goals exact ⟨_, rest, hx, rfl, by decide⟩
  | text s => exact ⟨'"', _, rfl, rfl, by decide⟩
  | list items => exact ⟨'n', _, rfl, rfl, by decide⟩
  | object entries => exact ⟨'n', _, rfl, rfl, by decide⟩

/-- So does every value. -/
theorem exists_compact_eq_cons (v : Json) :
    ∃ c rest, compact v = c :: rest ∧ isGap c = false ∧ c ≠ ']' := by
  cases v with
  | list items => exact ⟨'[', _, rfl, rfl, by decide⟩
  | object entries => exact ⟨'\x7b', _, rfl, rfl, by decide⟩
  | null => exact exists_scalar_eq_cons wirePoint .null
  | bool b => exact exists_scalar_eq_cons wirePoint (.bool b)
  | int n => exact exists_scalar_eq_cons wirePoint (.int n)
  | real x => exact exists_scalar_eq_cons wirePoint (.real x)
  | text s => exact exists_scalar_eq_cons wirePoint (.text s)

theorem head_compact (v : Json) (rest : List Char) :
    ∀ c ∈ (compact v ++ rest).head?, isGap c = false := by
  obtain ⟨c, more, hv, hgap, -⟩ := exists_compact_eq_cons v
  rw [hv]
  exact head_cons hgap _

theorem ends_cons {c : Char} (h : c = ',' ∨ c = ']' ∨ c = '}' ∨ c = '\n') (rest : List Char) :
    Ends (c :: rest) :=
  fun _ hd => Option.some.inj hd ▸ h

theorem compactItems_cons (v w : Json) (items : List Json) :
    compactItems (v :: w :: items) = compact v ++ ',' :: compactItems (w :: items) := by
  rw [compactItems]
  simp

theorem compactEntries_cons (key : RawText) (v : Json) (entry : RawText × Json)
    (entries : List (RawText × Json)) :
    compactEntries ((key, v) :: entry :: entries) =
      quoted wirePoint key ++ ':' :: compact v ++ ',' :: compactEntries (entry :: entries) := by
  rw [compactEntries]
  simp

theorem exists_compactItems_eq_cons (v : Json) (items : List Json) :
    ∃ c more, compactItems (v :: items) = c :: more ∧ isGap c = false ∧ c ≠ ']' := by
  obtain ⟨c, more, hv, hgap, hopen⟩ := exists_compact_eq_cons v
  cases items with
  | nil => exact ⟨c, more, hv, hgap, hopen⟩
  | cons w items => exact ⟨c, _, by rw [compactItems_cons, hv]; rfl, hgap, hopen⟩

theorem exists_compactEntries_eq_cons (entry : RawText × Json) (entries : List (RawText × Json)) :
    ∃ more, compactEntries (entry :: entries) = '"' :: more := by
  obtain ⟨key, v⟩ := entry
  cases entries with
  | nil => exact ⟨_, rfl⟩
  | cons entry entries => exact ⟨_, by rw [compactEntries_cons]; rfl⟩

theorem skipGap_compactItems (v : Json) (items : List Json) (rest : List Char) (pos : Nat) :
    Cursor.skipGap ⟨pos, compactItems (v :: items) ++ rest⟩ =
      ⟨pos, compactItems (v :: items) ++ rest⟩ := by
  obtain ⟨c, more, hc, hgap, -⟩ := exists_compactItems_eq_cons v items
  rw [hc]
  exact skipGap_of_head (head_cons hgap _)

theorem skipGap_compactEntries (entry : RawText × Json) (entries : List (RawText × Json))
    (rest : List Char) (pos : Nat) :
    Cursor.skipGap ⟨pos, compactEntries (entry :: entries) ++ rest⟩ =
      ⟨pos, compactEntries (entry :: entries) ++ rest⟩ := by
  obtain ⟨more, hmore⟩ := exists_compactEntries_eq_cons entry entries
  rw [hmore]
  exact skipGap_of_head (head_cons rfl _)

theorem one_le_length_compactItems (v : Json) (items : List Json) :
    1 ≤ (compactItems (v :: items)).length := by
  obtain ⟨c, more, hc, -⟩ := exists_compactItems_eq_cons v items
  rw [hc]
  exact Nat.le_add_left _ _

theorem one_le_length_compactEntries (entry : RawText × Json) (entries : List (RawText × Json)) :
    1 ≤ (compactEntries (entry :: entries)).length := by
  obtain ⟨more, hmore⟩ := exists_compactEntries_eq_cons entry entries
  rw [hmore]
  exact Nat.le_add_left _ _

/-! ## One value, item or entry -/

section Steps

variable {point : Point → List Char} {bound pos : Nat} {s gap rest : List Char}

theorem valueAt_text {text : RawText} (htext : ReadsBack point text) :
    Reads (valueAt noHalves (bound + 1) ⟨pos, quoted point text ++ rest⟩) (.text text) rest := by
  obtain ⟨end', hend⟩ := htext (pos + 1) rest
  refine ⟨end', ?_⟩
  have hstart : quoted point text ++ rest =
      '"' :: (text.points.flatMap point ++ '"' :: rest) := by simp [quoted]
  rw [hstart, valueAt]
  simp only [List.head?_cons, Cursor.advance, List.drop_succ_cons, List.drop_zero, hend, Except.map]

theorem valueAt_scalar (h : ∀ c ∈ s.head?, c ≠ '"' ∧ c ≠ '[' ∧ c ≠ '{') :
    valueAt noHalves (bound + 1) ⟨pos, s⟩ = plainValue ⟨pos, s⟩ := by
  rw [valueAt]
  split
  · next hhead => exact absurd rfl (h _ hhead).1
  · next hhead => exact absurd rfl (h _ hhead).2.2
  · next hhead => exact absurd rfl (h _ hhead).2.1
  · rfl

theorem valueAt_int (n : Int) (hrest : Ends rest) :
    Gives (valueAt noHalves (bound + 1) ⟨pos, signedDecimal n ++ rest⟩) (reread (.int n)) rest := by
  have hscalar : valueAt noHalves (bound + 1) ⟨pos, signedDecimal n ++ rest⟩ =
      plainValue ⟨pos, signedDecimal n ++ rest⟩ := by
    refine valueAt_scalar fun c hc => ?_
    cases n with
    | ofNat m =>
      obtain ⟨d, digits, hm, hne⟩ := exists_decimal_eq_digit m
      rw [signedDecimal, hm] at hc
      rw [← Option.some.inj hc]
      exact ⟨hne '"' rfl, hne '[' rfl, hne '\x7b' rfl⟩
    | negSucc m =>
      rw [← Option.some.inj hc]
      decide
  rw [hscalar, reread]
  split
  · next h => exact plainValue_signedDecimal n h pos hrest
  · next h => exact plainValue_tooManyDigits h pos hrest

/-- A number that is no integer is read as one again. -/
theorem reread_real (x : Binary64) : ∃ y, reread (.real x) = some (.real y) ∧
    ∀ pos rest, Ends rest →
      Reads (plainValue ⟨pos, x.text "Infinity" "NaN" ++ rest⟩) (.real y) rest := by
  obtain ⟨y, hy⟩ := plainValue_real x
  obtain ⟨pos', halone⟩ := hy 0 [] nofun
  rw [List.append_nil] at halone
  exact ⟨y, by rw [reread, halone]; rfl, hy⟩

/-- What is read as a text was one. -/
theorem eq_text_of_reread {v : Json} {t : RawText} (h : reread v = some (.text t)) :
    v = .text t := by
  cases v with
  | text s =>
    cases h
    rfl
  | null => cases h
  | bool b => cases h
  | int n =>
    rw [reread] at h
    split at h <;> cases h
  | real x =>
    obtain ⟨y, hy, -⟩ := reread_real x
    cases hy.symm.trans h
  | list items =>
    obtain ⟨_, -, ⟨⟩⟩ := Option.map_eq_some_iff.mp h
  | object entries =>
    obtain ⟨_, -, hobject⟩ := Option.map_eq_some_iff.mp h
    cases hobject

theorem valueAt_real (x : Binary64) (hrest : Ends rest) :
    Gives (valueAt noHalves (bound + 1) ⟨pos, x.text "Infinity" "NaN" ++ rest⟩)
      (reread (.real x)) rest := by
  have hscalar : valueAt noHalves (bound + 1) ⟨pos, x.text "Infinity" "NaN" ++ rest⟩ =
      plainValue ⟨pos, x.text "Infinity" "NaN" ++ rest⟩ := by
    refine valueAt_scalar fun c hc => ?_
    obtain ⟨d, more, hx, hd⟩ := exists_text_eq_cons x
    rw [hx] at hc
    rw [← Option.some.inj hc]
    refine ⟨?_, ?_, ?_⟩ <;> rintro rfl <;> revert hd <;> decide
  obtain ⟨y, hreread, hy⟩ := reread_real x
  rw [hscalar, hreread]
  exact hy pos rest hrest

theorem itemsAt_last {v : Option Json} (hgap : ∀ c ∈ gap, isGap c = true)
    (hv : Gives (valueAt noHalves bound ⟨pos, s⟩) v (gap ++ ']' :: rest)) :
    Gives (itemsAt noHalves (bound + 1) ⟨pos, s⟩) (v.map fun v => [v]) rest := by
  cases v with
  | none =>
    have hend : valueAt noHalves bound ⟨pos, s⟩ = .error .tooManyDigits := hv
    show itemsAt noHalves (bound + 1) ⟨pos, s⟩ = .error .tooManyDigits
    rw [itemsAt, hend]
    rfl
  | some v =>
    obtain ⟨end', hend⟩ := hv
    have hskip : Cursor.skipGap ⟨end', gap ++ ']' :: rest⟩ = ⟨end' + gap.length, ']' :: rest⟩ :=
      skipGap_append hgap (head_cons rfl rest) end'
    refine ⟨end' + gap.length + 1, ?_⟩
    rw [itemsAt, hend]
    simp only [bind, Except.bind, hskip]
    rfl

theorem itemsAt_more {v : Option Json} {items : Option (List Json)} {next : List Char}
    (hv : Gives (valueAt noHalves bound ⟨pos, s⟩) v (',' :: next))
    (hitems : ∀ pos, Gives (itemsAt noHalves bound (Cursor.skipGap ⟨pos, next⟩)) items rest) :
    Gives (itemsAt noHalves (bound + 1) ⟨pos, s⟩) (v.bind fun v => items.map (v :: ·)) rest := by
  cases v with
  | none =>
    have hend : valueAt noHalves bound ⟨pos, s⟩ = .error .tooManyDigits := hv
    show itemsAt noHalves (bound + 1) ⟨pos, s⟩ = .error .tooManyDigits
    rw [itemsAt, hend]
    rfl
  | some v =>
    obtain ⟨comma, hcomma⟩ := hv
    have hgap : Cursor.skipGap ⟨comma, ',' :: next⟩ = ⟨comma, ',' :: next⟩ := rfl
    have hadvance : Cursor.advance ⟨comma, ',' :: next⟩ 1 = ⟨comma + 1, next⟩ := rfl
    have hopen : ',' ≠ ']' := by decide
    rw [itemsAt, hcomma]
    simp only [bind, Except.bind, hgap, hadvance, List.head?_cons, Option.some.injEq, hopen,
      if_false, if_true]
    exact gives_map (hitems (comma + 1)) (v :: ·)

/-- Behind a key the value is read, and then the mark after it. -/
theorem entriesAt_key {key : RawText} (hkey : ReadsBack point key) (bound pos : Nat)
    (s : List Char) :
    ∃ pos', entriesAt noHalves (bound + 1) ⟨pos, quoted point key ++ ':' :: s⟩ = (do
      let (v, c) ← valueAt noHalves bound (Cursor.skipGap ⟨pos', s⟩)
      let c := c.skipGap
      if c.rest.head? = some '}' then return ([(key, v)], c.advance 1)
      else if c.rest.head? = some ',' then
        let (entries, c) ← entriesAt noHalves bound (c.advance 1).skipGap
        return ((key, v) :: entries, c)
      else throw (.illFormed .comma c.pos)) := by
  obtain ⟨colon, hcolon⟩ := hkey (pos + 1) (':' :: s)
  refine ⟨colon + 1, ?_⟩
  have hstart : quoted point key ++ ':' :: s =
      '"' :: (key.points.flatMap point ++ '"' :: ':' :: s) := by simp [quoted]
  have hadvance : Cursor.advance ⟨pos, '"' :: (key.points.flatMap point ++ '"' :: ':' :: s)⟩ 1 =
      ⟨pos + 1, key.points.flatMap point ++ '"' :: ':' :: s⟩ := rfl
  have hgap : Cursor.skipGap ⟨colon, ':' :: s⟩ = ⟨colon, ':' :: s⟩ := rfl
  have hbehind : Cursor.advance ⟨colon, ':' :: s⟩ 1 = ⟨colon + 1, s⟩ := rfl
  rw [hstart, entriesAt]
  simp only [bind, Except.bind, List.head?_cons, ne_eq, not_true_eq_false, if_false, hadvance,
    hcolon, hgap, hbehind]

theorem entriesAt_last {key : RawText} (hkey : ReadsBack point key) {v : Option Json}
    (hgap : ∀ c ∈ gap, isGap c = true)
    (hv : ∀ pos, Gives (valueAt noHalves bound (Cursor.skipGap ⟨pos, s⟩)) v (gap ++ '}' :: rest)) :
    Gives (entriesAt noHalves (bound + 1) ⟨pos, quoted point key ++ ':' :: s⟩)
      (v.map fun v => [(key, v)]) rest := by
  obtain ⟨start, hstart⟩ := entriesAt_key hkey bound pos s
  rw [hstart]
  cases v with
  | none =>
    have hend : valueAt noHalves bound (Cursor.skipGap ⟨start, s⟩) = .error .tooManyDigits :=
      hv start
    rw [hend]
    rfl
  | some v =>
    obtain ⟨end', hend⟩ := hv start
    have hskip : Cursor.skipGap ⟨end', gap ++ '}' :: rest⟩ = ⟨end' + gap.length, '}' :: rest⟩ :=
      skipGap_append hgap (head_cons rfl rest) end'
    refine ⟨end' + gap.length + 1, ?_⟩
    rw [hend]
    simp only [bind, Except.bind, hskip]
    rfl

theorem entriesAt_more {key : RawText} (hkey : ReadsBack point key) {v : Option Json}
    {entries : Option (List (RawText × Json))} {next : List Char}
    (hv : ∀ pos, Gives (valueAt noHalves bound (Cursor.skipGap ⟨pos, s⟩)) v (',' :: next))
    (hentries : ∀ pos, Gives (entriesAt noHalves bound (Cursor.skipGap ⟨pos, next⟩)) entries rest) :
    Gives (entriesAt noHalves (bound + 1) ⟨pos, quoted point key ++ ':' :: s⟩)
      (v.bind fun v => entries.map ((key, v) :: ·)) rest := by
  obtain ⟨start, hstart⟩ := entriesAt_key hkey bound pos s
  rw [hstart]
  cases v with
  | none =>
    have hend : valueAt noHalves bound (Cursor.skipGap ⟨start, s⟩) = .error .tooManyDigits :=
      hv start
    rw [hend]
    rfl
  | some v =>
    obtain ⟨comma, hcomma⟩ := hv start
    have hgap : Cursor.skipGap ⟨comma, ',' :: next⟩ = ⟨comma, ',' :: next⟩ := rfl
    have hadvance : Cursor.advance ⟨comma, ',' :: next⟩ 1 = ⟨comma + 1, next⟩ := rfl
    have hopen : ',' ≠ '}' := by decide
    rw [hcomma]
    simp only [bind, Except.bind, hgap, hadvance, List.head?_cons, Option.some.injEq, hopen,
      if_false, if_true]
    exact gives_map (hentries (comma + 1)) ((key, v) :: ·)

theorem valueAt_list {items : Option (List Json)}
    (hs : ∀ pos, (Cursor.skipGap ⟨pos, s⟩).rest.head? ≠ some ']')
    (hitems : ∀ pos, Gives (itemsAt noHalves bound (Cursor.skipGap ⟨pos, s⟩)) items rest) :
    Gives (valueAt noHalves (bound + 1) ⟨pos, '[' :: s⟩) (items.map .list) rest := by
  have hadvance : Cursor.advance ⟨pos, '[' :: s⟩ 1 = ⟨pos + 1, s⟩ := rfl
  rw [valueAt]
  simp only [List.head?_cons, hadvance, hs (pos + 1), if_false]
  exact gives_map (hitems (pos + 1)) Json.list

theorem valueAt_object {entries : Option (List (RawText × Json))}
    (hs : ∀ pos, (Cursor.skipGap ⟨pos, s⟩).rest.head? ≠ some '}')
    (hentries : ∀ pos, Gives (entriesAt noHalves bound (Cursor.skipGap ⟨pos, s⟩)) entries rest) :
    Gives (valueAt noHalves (bound + 1) ⟨pos, '{' :: s⟩) (entries.map ofEntries) rest := by
  have hadvance : Cursor.advance ⟨pos, '{' :: s⟩ 1 = ⟨pos + 1, s⟩ := rfl
  rw [valueAt]
  simp only [List.head?_cons, hadvance, hs (pos + 1), if_false]
  exact gives_map (hentries (pos + 1)) ofEntries

end Steps

/-! ## The texts of a value -/

mutual

/-- All texts and keys of a value have a property. -/
def AllTexts (P : RawText → Prop) : Json → Prop
  | .text s => P s
  | .list items => ItemsTexts P items
  | .object entries => EntriesTexts P entries
  | _ => True

/-- All texts and keys of some items have a property. -/
def ItemsTexts (P : RawText → Prop) : List Json → Prop
  | [] => True
  | v :: rest => AllTexts P v ∧ ItemsTexts P rest

/-- All texts and keys of some entries have a property. -/
def EntriesTexts (P : RawText → Prop) : List (RawText × Json) → Prop
  | [] => True
  | (key, v) :: rest => P key ∧ AllTexts P v ∧ EntriesTexts P rest

end

section AllTexts

variable {P : RawText → Prop}

mutual

/-- The texts of a value that can be sent are plain. -/
theorem allTexts_of_isSendable (h : ∀ t : RawText, t.isPlain = true → P t) :
    ∀ v : Json, v.isSendable = true → v.AllTexts P
  | .null, _ | .bool _, _ | .int _, _ | .real _, _ => trivial
  | .text s, hs => h s hs
  | .list items, hs => itemsTexts_of_sendable h items hs
  | .object entries, hs => entriesTexts_of_sendable h entries hs

theorem itemsTexts_of_sendable (h : ∀ t : RawText, t.isPlain = true → P t) :
    ∀ items : List Json, itemsSendable items = true → ItemsTexts P items
  | [], _ => trivial
  | v :: rest, hs => by
    rw [itemsSendable, Bool.and_eq_true] at hs
    exact ⟨allTexts_of_isSendable h v hs.1, itemsTexts_of_sendable h rest hs.2⟩

theorem entriesTexts_of_sendable (h : ∀ t : RawText, t.isPlain = true → P t) :
    ∀ entries : List (RawText × Json), entriesSendable entries = true → EntriesTexts P entries
  | [], _ => trivial
  | (key, v) :: rest, hs => by
    rw [entriesSendable, Bool.and_eq_true, Bool.and_eq_true] at hs
    exact ⟨h key hs.1.1, allTexts_of_isSendable h v hs.1.2,
      entriesTexts_of_sendable h rest hs.2⟩

end

end AllTexts

/-! ## Any value -/

mutual

/-- A value is read in front of a rest. Each call of the reader takes at least
one character, so the length of the text bounds them. -/
theorem valueAt_compact : ∀ (v : Json) (bound pos : Nat) (rest : List Char),
    v.AllTexts (ReadsBack wirePoint) → (compact v).length ≤ bound + 1 → Ends rest →
    Gives (valueAt noHalves (bound + 1) ⟨pos, compact v ++ rest⟩) (reread v) rest
  | .null, bound, pos, rest, _, _, _ => ⟨pos + 4, rfl⟩
  | .bool true, bound, pos, rest, _, _, _ => ⟨pos + 4, rfl⟩
  | .bool false, bound, pos, rest, _, _, _ => ⟨pos + 5, rfl⟩
  | .int n, bound, pos, rest, _, _, hrest => valueAt_int n hrest
  | .real x, bound, pos, rest, _, _, hrest => valueAt_real x hrest
  | .text s, bound, pos, rest, htext, _, _ => valueAt_text htext
  | .list [], bound, pos, rest, _, _, _ => ⟨pos + 2, rfl⟩
  | .list (v :: items), bound, pos, rest, htexts, hbound, _ => by
    rw [compact, List.length_append, List.length_cons, List.length_singleton] at hbound
    have hone := one_le_length_compactItems v items
    obtain ⟨bound, rfl⟩ : ∃ b, bound = b + 2 := ⟨bound - 2, by omega⟩
    rw [compact, List.cons_append, List.cons_append, List.append_assoc, reread]
    refine valueAt_list (fun pos => ?_) fun pos => itemsAt_compact v items bound pos rest htexts
      (by omega)
    obtain ⟨c, more, hc, -, hopen⟩ := exists_compactItems_eq_cons v items
    rw [skipGap_compactItems, hc]
    exact fun hhead => hopen (Option.some.inj hhead)
  | .object [], bound, pos, rest, _, _, _ => ⟨pos + 2, rfl⟩
  | .object (entry :: entries), bound, pos, rest, htexts, hbound, _ => by
    rw [compact, List.length_append, List.length_cons, List.length_singleton] at hbound
    have hone := one_le_length_compactEntries entry entries
    obtain ⟨bound, rfl⟩ : ∃ b, bound = b + 2 := ⟨bound - 2, by omega⟩
    rw [compact, List.cons_append, List.cons_append, List.append_assoc, reread]
    refine valueAt_object (fun pos => ?_) fun pos =>
      entriesAt_compact entry entries bound pos rest htexts (by omega)
    obtain ⟨more, hmore⟩ := exists_compactEntries_eq_cons entry entries
    rw [skipGap_compactEntries, hmore]
    exact fun hhead => absurd (Option.some.inj hhead) (by decide)
termination_by v => sizeOf v

theorem itemsAt_compact : ∀ (v : Json) (items : List Json) (bound pos : Nat) (rest : List Char),
    Json.ItemsTexts (ReadsBack wirePoint) (v :: items) →
    (compactItems (v :: items)).length ≤ bound + 1 →
    Gives (itemsAt noHalves (bound + 2)
        (Cursor.skipGap ⟨pos, compactItems (v :: items) ++ ']' :: rest⟩))
      (rereadItems (v :: items)) rest
  | v, [], bound, pos, rest, htexts, hbound => by
    rw [skipGap_compactItems, rereadItems_singleton]
    exact itemsAt_last (List.forall_mem_nil _) (valueAt_compact v bound pos (']' :: rest) htexts.1
      hbound (ends_cons (.inr (.inl rfl)) rest))
  | v, w :: items, bound, pos, rest, htexts, hbound => by
    rw [skipGap_compactItems]
    rw [compactItems_cons, List.length_append, List.length_cons] at hbound
    have hone := one_le_length_compactItems w items
    obtain ⟨bound, rfl⟩ : ∃ b, bound = b + 1 := ⟨bound - 1, by omega⟩
    have hread := valueAt_compact v (bound + 1) pos
      (',' :: (compactItems (w :: items) ++ ']' :: rest)) htexts.1 (by omega)
      (ends_cons (.inl rfl) _)
    have hitems (pos : Nat) := itemsAt_compact w items bound pos rest htexts.2 (by omega)
    rw [compactItems_cons, List.append_assoc, rereadItems]
    exact itemsAt_more hread hitems
termination_by v items => sizeOf v + sizeOf items

theorem entriesAt_compact : ∀ (entry : RawText × Json) (entries : List (RawText × Json))
    (bound pos : Nat) (rest : List Char),
    Json.EntriesTexts (ReadsBack wirePoint) (entry :: entries) →
    (compactEntries (entry :: entries)).length ≤ bound + 1 →
    Gives (entriesAt noHalves (bound + 2)
        (Cursor.skipGap ⟨pos, compactEntries (entry :: entries) ++ '}' :: rest⟩))
      (rereadEntries (entry :: entries)) rest
  | (key, v), [], bound, pos, rest, htexts, hbound => by
    rw [skipGap_compactEntries]
    rw [compactEntries, List.length_append, List.length_cons] at hbound
    have hread (pos : Nat) : Gives (valueAt noHalves (bound + 1)
        (Cursor.skipGap ⟨pos, compact v ++ '}' :: rest⟩)) (reread v) ('}' :: rest) := by
      rw [skipGap_of_head (head_compact v _)]
      exact valueAt_compact v bound pos ('}' :: rest) htexts.2.1 (by omega)
        (ends_cons (.inr (.inr (.inl rfl))) rest)
    rw [compactEntries, List.append_assoc, rereadEntries_singleton]
    exact entriesAt_last htexts.1 (List.forall_mem_nil _) hread
  | (key, v), other :: entries, bound, pos, rest, htexts, hbound => by
    rw [skipGap_compactEntries]
    rw [compactEntries_cons, List.length_append, List.length_append, List.length_cons,
      List.length_cons] at hbound
    have hone := one_le_length_compactEntries other entries
    obtain ⟨bound, rfl⟩ : ∃ b, bound = b + 1 := ⟨bound - 1, by omega⟩
    have hread (pos : Nat) : Gives (valueAt noHalves (bound + 2) (Cursor.skipGap
        ⟨pos, compact v ++ ',' :: (compactEntries (other :: entries) ++ '}' :: rest)⟩))
        (reread v) (',' :: (compactEntries (other :: entries) ++ '}' :: rest)) := by
      rw [skipGap_of_head (head_compact v _)]
      exact valueAt_compact v (bound + 1) pos _ htexts.2.1 (by omega) (ends_cons (.inl rfl) _)
    have hentries (pos : Nat) := entriesAt_compact other entries bound pos rest
      htexts.2.2 (by omega)
    rw [compactEntries_cons, List.append_assoc, List.append_assoc, rereadEntries]
    exact entriesAt_more htexts.1 hread hentries
termination_by entry entries => sizeOf entry + sizeOf entries

end

/-! ## Values that survive -/

mutual

/-- A value that survives the wire. -/
def Plain : Json → Prop
  | .int n => (decimal n.natAbs).length ≤ mostDigits
  | .real _ => False
  | .list items => PlainItems items
  | .object entries => PlainEntries entries ∧ (entries.map Prod.fst).Nodup
  | _ => True

/-- All items of a list survive the wire. -/
def PlainItems : List Json → Prop
  | [] => True
  | v :: rest => Plain v ∧ PlainItems rest

/-- The values of all entries survive the wire. -/
def PlainEntries : List (RawText × Json) → Prop
  | [] => True
  | (_, v) :: rest => Plain v ∧ PlainEntries rest

end

mutual

theorem reread_of_plain : ∀ v : Json, v.Plain → reread v = some v
  | .null, _ | .bool _, _ | .text _, _ => rfl
  | .int n, h => by
    rw [reread]
    exact if_pos h
  | .real _, h => absurd h id
  | .list items, h => by
    rw [reread, rereadItems_of_plain items h]
    rfl
  | .object entries, h => by
    have hput : ofEntries entries = .object entries := by
      have hall : Entries.putAll entries [] = [] ++ entries := Entries.putAll_of_nodup h.2
      rw [ofEntries, hall, List.nil_append]
    rw [reread, rereadEntries_of_plain entries h.1, Option.map_some, hput]

theorem rereadItems_of_plain : ∀ items : List Json, PlainItems items →
    rereadItems items = some items
  | [], _ => rfl
  | v :: rest, h => by
    rw [rereadItems, reread_of_plain v h.1, rereadItems_of_plain rest h.2]
    rfl

theorem rereadEntries_of_plain : ∀ entries : List (RawText × Json), PlainEntries entries →
    rereadEntries entries = some entries
  | [], _ => rfl
  | (_, v) :: rest, h => by
    rw [rereadEntries, reread_of_plain v h.1, rereadEntries_of_plain rest h.2]
    rfl

end

/-! ## Whole texts -/

/-- What is read of a text is settled by the value that was written. -/
def outcome (v : Json) : Except ReadError Json :=
  match reread v with
  | some w => .ok w
  | none => .error .tooManyDigits

theorem ofChars_of_gives {s : List Char} {v : Json} (hhead : ∀ c ∈ s.head?, isGap c = false)
    (hread : Gives (valueAt noHalves (2 * s.length + 2) ⟨0, s⟩) (reread v) []) :
    ofChars s = outcome v := by
  rw [ofChars, ofShown, outcome, skipGap_of_head hhead]
  cases hv : reread v with
  | none =>
    have hend : valueAt noHalves (2 * s.length + 2) ⟨0, s⟩ = .error .tooManyDigits := by
      rw [hv] at hread
      exact hread
    rw [hend]
    rfl
  | some w =>
    rw [hv] at hread
    obtain ⟨end', hend⟩ := hread
    rw [hend]
    rfl

theorem ofChars_compact {v : Json} (h : v.isSendable = true) : ofChars (compact v) = outcome v := by
  have htexts := allTexts_of_isSendable (fun _ => readsBack_wire) v h
  have hread := valueAt_compact v (2 * (compact v).length + 1) 0 [] htexts (by omega) nofun
  have hhead := head_compact v []
  rw [List.append_nil] at hread hhead
  exact ofChars_of_gives hhead hread

theorem ofPoints_chars (s : List Char) : ofPoints (s.map .char) = ofChars s := by
  have hnone : halvesOf (s.map .char) = noHalves := by
    funext pos
    have hpoint : (s.map Point.char).toArray[pos]? = s[pos]?.map .char := by simp
    simp only [halvesOf, noHalves, hpoint]
    cases s[pos]? <;> rfl
  have hshown : (s.map Point.char).map shownChar = s := by
    rw [List.map_map]
    exact List.map_id s
  rw [ofPoints, hnone, hshown, ofChars]

/-- The bytes of an object that is not empty. A brace and a mark come first,
so they are taken for UTF-8. -/
theorem ofBytes_object {entry : RawText × Json} {entries : List (RawText × Json)}
    (h : (object (entry :: entries)).isSendable = true) :
    ofBytes (encode (compact (.object (entry :: entries)))) =
      (outcome (.object (entry :: entries))).mapError .notJson := by
  obtain ⟨more, hmore⟩ := exists_compactEntries_eq_cons entry entries
  have hbytes : encode (compact (.object (entry :: entries))) =
      0x7B :: 0x22 :: encode (more ++ ['}']) := by
    rw [compact, hmore]
    rfl
  have hdetect (rest : List UInt8) : Encoding.detect (0x7B :: 0x22 :: rest) = (.utf8, 0) := by
    match rest with
    | [] => rfl
    | [_] => rfl
    | _ :: _ :: _ => rfl
  have hencoding :
      Encoding.detect (encode (compact (.object (entry :: entries)))) = (.utf8, 0) := by
    rw [hbytes, hdetect]
  simp only [ofBytes, hencoding, List.drop_zero, Encoding.text?, decode_encode, ofPoints_chars,
    ofChars_compact h]

theorem ofBytes_compact {entry : RawText × Json} {entries : List (RawText × Json)}
    (h : (object (entry :: entries)).Plain)
    (hsendable : (object (entry :: entries)).isSendable = true) :
    ofBytes (encode (compact (.object (entry :: entries)))) = .ok (.object (entry :: entries)) := by
  rw [ofBytes_object hsendable, outcome, reread_of_plain _ h]
  rfl

end CommentThreads.Json
