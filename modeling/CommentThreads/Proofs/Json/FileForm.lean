/-
CommentThreads.Proofs.Json.FileForm — what is written to a file is read back.

The reader skips the line breaks and blanks between tokens, so the steps of
`CommentThreads.Proofs.Json.RoundTrip` lead to the same result: `ofChars_indented`
reads of a value laid out over lines what `ofChars_compact` reads of it on the wire. A
file has a form for lone halves too, and they need only stay alone.
`ofFileText_indented` adds that a file with an object does not begin with a byte order
mark.
-/
import CommentThreads.Proofs.Json.RoundTrip

namespace CommentThreads.Json

open CommentThreads.Text

/-! ## Lines -/

theorem isGap_newLine (level : Nat) : ∀ c ∈ newLine level, isGap c = true := by
  intro c hc
  rcases List.mem_cons.mp hc with rfl | hblank
  · rfl
  · rw [List.eq_of_mem_replicate hblank]
    rfl

theorem ends_newLine (level : Nat) (rest : List Char) : Ends (newLine level ++ rest) :=
  ends_cons (.inr (.inr (.inr rfl))) _

theorem one_le_length_newLine (level : Nat) : 1 ≤ (newLine level).length :=
  Nat.le_add_left _ _

theorem exists_laidOut_eq_cons (level : Nat) (v : Json) :
    ∃ c rest, laidOut level v = c :: rest ∧ isGap c = false ∧ c ≠ ']' := by
  cases v with
  | list items => cases items <;> exact ⟨'[', _, rfl, rfl, by decide⟩
  | object entries => cases entries <;> exact ⟨'\x7b', _, rfl, rfl, by decide⟩
  | null => exact exists_scalar_eq_cons filePoint .null
  | bool b => exact exists_scalar_eq_cons filePoint (.bool b)
  | int n => exact exists_scalar_eq_cons filePoint (.int n)
  | real x => exact exists_scalar_eq_cons filePoint (.real x)
  | text s => exact exists_scalar_eq_cons filePoint (.text s)

theorem head_laidOut (level : Nat) (v : Json) (rest : List Char) :
    ∀ c ∈ (laidOut level v ++ rest).head?, isGap c = false := by
  obtain ⟨c, more, hv, hgap, -⟩ := exists_laidOut_eq_cons level v
  rw [hv]
  exact head_cons hgap _

theorem head_quoted (point : Point → List Char) (key : RawText) (rest : List Char) :
    ∀ c ∈ (quoted point key ++ rest).head?, isGap c = false :=
  head_cons rfl _

section Rows

variable (level : Nat) (key : RawText) (v w : Json) (items : List Json)
  (entry : RawText × Json) (entries : List (RawText × Json)) (rest : List Char) (pos : Nat)

theorem laidOutItems_singleton : laidOutItems level [v] = newLine level ++ laidOut level v := by
  rw [laidOutItems]

theorem laidOutItems_cons :
    laidOutItems level (v :: w :: items) =
      newLine level ++ (laidOut level v ++ ',' :: laidOutItems level (w :: items)) := by
  rw [laidOutItems, List.append_assoc]
  simp

theorem laidOutEntries_singleton :
    laidOutEntries level [(key, v)] =
      newLine level ++ (quoted filePoint key ++ ':' :: ' ' :: laidOut level v) := by
  rw [laidOutEntries, List.append_assoc]

theorem laidOutEntries_cons :
    laidOutEntries level ((key, v) :: entry :: entries) =
      newLine level ++ (quoted filePoint key ++ ':' :: ' ' ::
        (laidOut level v ++ ',' :: laidOutEntries level (entry :: entries))) := by
  rw [laidOutEntries]
  · simp
  · simp

theorem one_le_length_laidOutItems : 1 ≤ (laidOutItems level (v :: items)).length := by
  have hone := one_le_length_newLine level
  cases items with
  | nil =>
    rw [laidOutItems_singleton, List.length_append]
    omega
  | cons w items =>
    rw [laidOutItems_cons, List.length_append]
    omega

theorem one_le_length_laidOutEntries : 1 ≤ (laidOutEntries level (entry :: entries)).length := by
  have hone := one_le_length_newLine level
  obtain ⟨key, v⟩ := entry
  cases entries with
  | nil =>
    rw [laidOutEntries_singleton, List.length_append]
    omega
  | cons entry entries =>
    rw [laidOutEntries_cons, List.length_append]
    omega

/-- Behind the start of its line stands the value. -/
theorem skipGap_newLine (hs : ∀ c ∈ rest.head?, isGap c = false) :
    Cursor.skipGap ⟨pos, newLine level ++ rest⟩ = ⟨pos + (newLine level).length, rest⟩ :=
  skipGap_append (isGap_newLine level) hs pos

theorem head_skipGap_laidOutItems :
    (Cursor.skipGap ⟨pos, laidOutItems level (v :: items) ++ rest⟩).rest.head? ≠ some ']' := by
  obtain ⟨c, more, hc, -, hopen⟩ := exists_laidOut_eq_cons level v
  cases items with
  | nil =>
    rw [laidOutItems_singleton, List.append_assoc, skipGap_newLine _ _ _ (head_laidOut level v _),
      hc]
    exact fun hhead => hopen (Option.some.inj hhead)
  | cons w items =>
    rw [laidOutItems_cons, List.append_assoc, List.append_assoc,
      skipGap_newLine _ _ _ (head_laidOut level v _), hc]
    exact fun hhead => hopen (Option.some.inj hhead)

theorem head_skipGap_laidOutEntries :
    (Cursor.skipGap ⟨pos, laidOutEntries level (entry :: entries) ++ rest⟩).rest.head? ≠
      some '}' := by
  obtain ⟨key, v⟩ := entry
  cases entries with
  | nil =>
    rw [laidOutEntries_singleton, List.append_assoc, List.append_assoc,
      skipGap_newLine _ _ _ (head_quoted filePoint key _)]
    exact fun hhead => absurd (Option.some.inj hhead) (by decide)
  | cons entry entries =>
    rw [laidOutEntries_cons, List.append_assoc, List.append_assoc,
      skipGap_newLine _ _ _ (head_quoted filePoint key _)]
    exact fun hhead => absurd (Option.some.inj hhead) (by decide)

end Rows

/-! ## Any value -/

/-- The blank behind a colon is skipped. -/
theorem skipGap_blank (level : Nat) (v : Json) (rest : List Char) (pos : Nat) :
    Cursor.skipGap ⟨pos, ' ' :: (laidOut level v ++ rest)⟩ =
      ⟨pos + 1, laidOut level v ++ rest⟩ := by
  have hgap : ∀ c ∈ [' '], isGap c = true := fun _ hc => List.mem_singleton.mp hc ▸ rfl
  exact skipGap_append hgap (head_laidOut level v rest) pos

mutual

/-- A value is read in front of a rest. Each call of the reader takes at least one
character, so the length of the text bounds them. -/
theorem valueAt_laidOut : ∀ (v : Json) (level bound pos : Nat) (rest : List Char),
    v.AllTexts HalvesAlone → (laidOut level v).length ≤ bound + 1 → Ends rest →
    Gives (valueAt noHalves (bound + 1) ⟨pos, laidOut level v ++ rest⟩) (reread v) rest
  | .null, level, bound, pos, rest, _, _, _ => ⟨pos + 4, rfl⟩
  | .bool true, level, bound, pos, rest, _, _, _ => ⟨pos + 4, rfl⟩
  | .bool false, level, bound, pos, rest, _, _, _ => ⟨pos + 5, rfl⟩
  | .int n, level, bound, pos, rest, _, _, hrest => valueAt_int n hrest
  | .real x, level, bound, pos, rest, _, _, hrest => valueAt_real x hrest
  | .text s, level, bound, pos, rest, htext, _, _ => valueAt_text (readsBack_file htext)
  | .list [], level, bound, pos, rest, _, _, _ => ⟨pos + 2, rfl⟩
  | .list (v :: items), level, bound, pos, rest, htexts, hbound, _ => by
    have htext : laidOut level (.list (v :: items)) ++ rest =
        '[' :: (laidOutItems (level + 1) (v :: items) ++ (newLine level ++ ']' :: rest)) := by
      simp [laidOut]
    have hone := one_le_length_laidOutItems (level + 1) v items
    simp only [laidOut, List.length_append, List.length_cons] at hbound
    obtain ⟨bound, rfl⟩ : ∃ b, bound = b + 2 := ⟨bound - 2, by omega⟩
    rw [htext, reread]
    exact valueAt_list (head_skipGap_laidOutItems (level + 1) v items _) fun pos =>
      itemsAt_laidOut v items (level + 1) level bound pos rest htexts (by omega)
  | .object [], level, bound, pos, rest, _, _, _ => ⟨pos + 2, rfl⟩
  | .object (entry :: entries), level, bound, pos, rest, htexts, hbound, _ => by
    have htext : laidOut level (.object (entry :: entries)) ++ rest =
        '{' :: (laidOutEntries (level + 1) (entry :: entries) ++
          (newLine level ++ '}' :: rest)) := by
      simp [laidOut]
    have hone := one_le_length_laidOutEntries (level + 1) entry entries
    simp only [laidOut, List.length_append, List.length_cons] at hbound
    obtain ⟨bound, rfl⟩ : ∃ b, bound = b + 2 := ⟨bound - 2, by omega⟩
    rw [htext, reread]
    exact valueAt_object (head_skipGap_laidOutEntries (level + 1) entry entries _) fun pos =>
      entriesAt_laidOut entry entries (level + 1) level bound pos rest htexts (by omega)
termination_by v => sizeOf v

theorem itemsAt_laidOut : ∀ (v : Json) (items : List Json) (level closing bound pos : Nat)
    (rest : List Char), Json.ItemsTexts HalvesAlone (v :: items) →
    (laidOutItems level (v :: items)).length ≤ bound + 1 →
    Gives (itemsAt noHalves (bound + 2) (Cursor.skipGap
        ⟨pos, laidOutItems level (v :: items) ++ (newLine closing ++ ']' :: rest)⟩))
      (rereadItems (v :: items)) rest
  | v, [], level, closing, bound, pos, rest, htexts, hbound => by
    rw [laidOutItems_singleton, List.length_append] at hbound
    rw [laidOutItems_singleton, List.append_assoc, skipGap_newLine _ _ _ (head_laidOut level v _),
      rereadItems_singleton]
    exact itemsAt_last (isGap_newLine closing)
      (valueAt_laidOut v level bound _ _ htexts.1 (by omega) (ends_newLine closing _))
  | v, w :: items, level, closing, bound, pos, rest, htexts, hbound => by
    rw [laidOutItems_cons, List.length_append, List.length_append, List.length_cons] at hbound
    have hone := one_le_length_laidOutItems level w items
    obtain ⟨bound, rfl⟩ : ∃ b, bound = b + 1 := ⟨bound - 1, by omega⟩
    have hitems (pos : Nat) := itemsAt_laidOut w items level closing bound pos rest
      htexts.2 (by omega)
    rw [laidOutItems_cons, List.append_assoc, List.append_assoc,
      skipGap_newLine _ _ _ (head_laidOut level v _), rereadItems]
    exact itemsAt_more
      (valueAt_laidOut v level (bound + 1) _ _ htexts.1 (by omega) (ends_cons (.inl rfl) _)) hitems
termination_by v items => sizeOf v + sizeOf items

theorem entriesAt_laidOut : ∀ (entry : RawText × Json) (entries : List (RawText × Json))
    (level closing bound pos : Nat) (rest : List Char),
    Json.EntriesTexts HalvesAlone (entry :: entries) →
    (laidOutEntries level (entry :: entries)).length ≤ bound + 1 →
    Gives (entriesAt noHalves (bound + 2) (Cursor.skipGap
        ⟨pos, laidOutEntries level (entry :: entries) ++ (newLine closing ++ '}' :: rest)⟩))
      (rereadEntries (entry :: entries)) rest
  | (key, v), [], level, closing, bound, pos, rest, htexts, hbound => by
    rw [laidOutEntries_singleton, List.length_append, List.length_append, List.length_cons,
      List.length_cons] at hbound
    have hread (pos : Nat) : Gives (valueAt noHalves (bound + 1) (Cursor.skipGap
        ⟨pos, ' ' :: (laidOut level v ++ (newLine closing ++ '}' :: rest))⟩)) (reread v)
        (newLine closing ++ '}' :: rest) := by
      rw [skipGap_blank]
      exact valueAt_laidOut v level bound _ _ htexts.2.1 (by omega) (ends_newLine closing _)
    rw [laidOutEntries_singleton, List.append_assoc, List.append_assoc,
      skipGap_newLine _ _ _ (head_quoted filePoint key _), rereadEntries_singleton]
    exact entriesAt_last (readsBack_file htexts.1) (isGap_newLine closing) hread
  | (key, v), other :: entries, level, closing, bound, pos, rest, htexts, hbound => by
    rw [laidOutEntries_cons, List.length_append, List.length_append, List.length_cons,
      List.length_cons, List.length_append, List.length_cons] at hbound
    have hone := one_le_length_laidOutEntries level other entries
    obtain ⟨bound, rfl⟩ : ∃ b, bound = b + 1 := ⟨bound - 1, by omega⟩
    have hread (pos : Nat) : Gives (valueAt noHalves (bound + 2) (Cursor.skipGap ⟨pos, ' ' ::
        (laidOut level v ++ ',' :: (laidOutEntries level (other :: entries) ++
          (newLine closing ++ '}' :: rest)))⟩)) (reread v)
        (',' :: (laidOutEntries level (other :: entries) ++ (newLine closing ++ '}' :: rest))) := by
      rw [skipGap_blank]
      exact valueAt_laidOut v level (bound + 1) _ _ htexts.2.1 (by omega) (ends_cons (.inl rfl) _)
    have hentries (pos : Nat) :=
      entriesAt_laidOut other entries level closing bound pos rest htexts.2.2 (by omega)
    have htext : laidOutEntries level ((key, v) :: other :: entries) ++
        (newLine closing ++ '}' :: rest) = newLine level ++ (quoted filePoint key ++ ':' :: ' ' ::
          (laidOut level v ++ ',' :: (laidOutEntries level (other :: entries) ++
            (newLine closing ++ '}' :: rest)))) := by
      simp [laidOutEntries_cons]
    rw [htext, skipGap_newLine _ _ _ (head_quoted filePoint key _), rereadEntries]
    exact entriesAt_more (readsBack_file htexts.1) hread hentries
termination_by entry entries => sizeOf entry + sizeOf entries

end

/-! ## Whole files -/

theorem ofChars_indented {v : Json} (h : v.AllTexts HalvesAlone) :
    ofChars (indented v) = outcome v := by
  have hread := valueAt_laidOut v 0 (2 * (indented v).length + 1) 0 [] h (by
    rw [indented]
    omega) nofun
  have hhead := head_laidOut 0 v []
  rw [List.append_nil] at hread hhead
  rw [← indented] at hread hhead
  exact ofChars_of_gives hhead hread

/-- An object is read of a file as it is read of its text. -/
theorem ofFileText_indented {entries : List (RawText × Json)}
    (h : (Json.object entries).AllTexts HalvesAlone) :
    ofFileText (indented (.object entries)) = outcome (.object entries) := by
  have hmark : (indented (.object entries)).head? ≠ some (Char.ofNat 0xFEFF) := by
    cases entries with
    | nil => exact fun hhead => absurd (Option.some.inj hhead) (by decide)
    | cons entry entries => exact fun hhead => absurd (Option.some.inj hhead) (by decide)
  rw [ofFileText, if_neg hmark, ofChars_indented h]

end CommentThreads.Json
