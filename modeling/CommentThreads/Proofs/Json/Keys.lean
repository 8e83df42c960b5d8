/-
CommentThreads.Proofs.Json.Keys — a value that is read has no key twice, and no halves that
belong together.

A text may give a key of an object more than once; the reader keeps the first place and
the last value (`ofEntries`). Two halves that make a character are read as the character.
So the objects of what is read have distinct keys, and the halves in its texts stay alone,
at every depth: `isRead_of_ofFileText`.
-/
import CommentThreads.Json.Reader
import CommentThreads.Proofs.Entries
import CommentThreads.Proofs.Json.Scalars

namespace CommentThreads.Json

open CommentThreads.Number

/-- A value as it can be read: in every object the keys are distinct, and in every text the
halves are alone. -/
inductive IsRead : Json → Prop
  | null : IsRead .null
  | bool (b : Bool) : IsRead (.bool b)
  | int (n : Int) : IsRead (.int n)
  | real (x : Binary64) : IsRead (.real x)
  | text {s : RawText} (alone : HalvesAlone s) : IsRead (.text s)
  | list {items : List Json} (h : ∀ v ∈ items, IsRead v) : IsRead (.list items)
  | object {entries : List (RawText × Json)} (h : ∀ e ∈ entries, IsRead e.2)
      (alone : ∀ e ∈ entries, HalvesAlone e.1) (distinct : (Entries.keys entries).Nodup) :
    IsRead (.object entries)

/-- An entry of an object that is read. -/
def EntryRead (e : RawText × Json) : Prop := HalvesAlone e.1 ∧ IsRead e.2

theorem isRead_ofEntries {entries : List (RawText × Json)} (h : ∀ e ∈ entries, EntryRead e) :
    IsRead (ofEntries entries) := by
  have hmem : ∀ e ∈ Entries.putAll entries [], EntryRead e := by
    intro e he
    rcases Entries.mem_putAll he with hnew | hnone
    · exact h e hnew
    · cases hnone
  exact .object (fun e he => (hmem e he).2) (fun e he => (hmem e he).1)
    (Entries.nodup_keys_putAll entries List.nodup_nil)

/-! ## What a reader gives -/

/-- What a reader gives, if it gives anything, has a property. -/
def Yields {α : Type} (r : Except ReadError (α × Cursor)) (P : α → Prop) : Prop :=
  ∀ a c, r = .ok (a, c) → P a

section Readers

variable {α β : Type} {P : α → Prop} {Q : β → Prop}

theorem yields_ok {a : α} (h : P a) (c : Cursor) : Yields (.ok (a, c)) P := by
  intro b d heq
  cases heq
  exact h

theorem yields_error (e : ReadError) : Yields (.error e) P :=
  fun _ _ heq => nomatch heq

theorem yields_bind {r : Except ReadError (α × Cursor)}
    {f : α × Cursor → Except ReadError (β × Cursor)} (hr : Yields r P)
    (hf : ∀ a c, P a → Yields (f (a, c)) Q) : Yields (r >>= f) Q := by
  cases hread : r with
  | error e => exact yields_error e
  | ok read =>
    obtain ⟨a, c⟩ := read
    exact hf a c (hr a c hread)

theorem yields_map {r : Read α} {f : α × Cursor → β × Cursor} (hr : Yields r P)
    (hf : ∀ a c, P a → Q (f (a, c)).1) : Yields (r.map f) Q := by
  cases hread : r with
  | error e => exact yields_error e
  | ok read =>
    obtain ⟨a, c⟩ := read
    exact yields_ok (hf a c (hr a c hread)) _

end Readers

/-! ## Strings -/

/-- Points that are read of a string behind what was kept back. No half among them ends
a pair, nor does the first one end what was kept back. -/
structure ReadBehind (high : Option Nat) (ps : List Point) : Prop where
  chain : ps.IsChain Alone
  free : high.isSome = true → ∀ p ∈ ps.head?, ∀ before, Alone before p

theorem yields_prepend {ps : List Point} {r : Read (List Point)} {P Q : List Point → Prop}
    (hr : Yields r P) (h : ∀ qs, P qs → Q (ps ++ qs)) : Yields (prepend ps r) Q :=
  yields_map hr fun qs _ hqs => h qs hqs

theorem alone_char (c : Char) (p : Point) : Alone (.char c) p := trivial

theorem alone_before_char (p : Point) (c : Char) : Alone p (.char c) := by
  cases p <;> trivial

/-- A second half goes with nothing behind it. -/
theorem alone_of_isLowUnit {n : Nat} (h : isLowUnit n = true) (p : Point) : Alone (lone n) p := by
  cases p with
  | char c => trivial
  | half half =>
    intro hhigh
    rw [unit_ofUnit (.inr h)] at hhigh
    simp only [isHighUnit, isLowUnit, Bool.and_eq_true, decide_eq_true_eq] at h hhigh
    omega

/-- A first half goes with nothing before it. -/
theorem alone_of_isHighUnit {n : Nat} (h : isHighUnit n = true) (p : Point) : Alone p (lone n) := by
  cases p with
  | char c => trivial
  | half half =>
    intro _
    rw [unit_ofUnit (.inl h)]
    simp only [isHighUnit, isLowUnit, Bool.and_eq_true, decide_eq_true_eq,
      Bool.and_eq_false_iff, decide_eq_false_iff_not] at h ⊢
    omega

/-- What was kept back goes with nothing before it, nor does a character behind it. -/
theorem ReadBehind.char {high : Option Nat} (hhigh : ∀ unit ∈ high, isHighUnit unit = true)
    (c : Char) {qs : List Point} (h : ReadBehind none qs) :
    ReadBehind high (alone high ++ [.char c] ++ qs) := by
  have hchar : (.char c :: qs).IsChain Alone :=
    List.isChain_cons.mpr ⟨fun p _ => alone_char c p, h.chain⟩
  cases high with
  | none => exact ⟨hchar, nofun⟩
  | some unit =>
    refine ⟨List.isChain_cons.mpr ⟨fun p hp => ?_, hchar⟩, fun _ p hp before => ?_⟩
    · cases hp
      exact alone_before_char _ c
    · cases hp
      exact alone_of_isHighUnit (hhigh unit rfl) before

theorem yields_stringBody (opening : Nat) (high : Option Nat) (pos : Nat) (s : List Char)
    (hhigh : ∀ unit ∈ high, isHighUnit unit = true) :
    Yields (stringBody noHalves opening high pos s) (ReadBehind high) := by
  have hfirst {n : Nat} (h : isHighUnit n = true) : ∀ unit ∈ some n, isHighUnit unit = true :=
    fun _ hunit => Option.some.inj hunit ▸ h
  fun_induction stringBody noHalves opening high pos s with
  | case1 => exact yields_error _
  | case2 high pos rest =>
    refine yields_ok ?_ _
    cases high with
    | none => exact ⟨.nil, nofun⟩
    | some unit =>
      refine ⟨.singleton _, fun _ p hp before => ?_⟩
      cases hp
      exact alone_of_isHighUnit (hhigh unit rfl) before
  | case3 => exact yields_error _
  | case4 => exact yields_error _
  | case5 => exact yields_error _
  | case6 pos _ _ _ _ rest _ n h _ _ _ ih =>
    -- The two halves are read as their character.
    refine yields_prepend (ih nofun) fun qs hqs => ⟨?_, fun _ p hp before => ?_⟩
    · exact List.isChain_cons.mpr ⟨fun p _ => alone_char _ p, hqs.chain⟩
    · cases hp
      exact alone_before_char before _
  | case7 pos _ _ _ _ rest _ n h _ _ hkind _ ih =>
    refine yields_prepend (ih (hfirst hkind)) fun qs hqs => ⟨?_, fun _ p hp before => ?_⟩
    · exact List.isChain_cons.mpr ⟨fun p hp => hqs.free rfl p hp _, hqs.chain⟩
    · cases hp
      exact alone_of_isHighUnit (hhigh h rfl) before
  | case8 pos _ _ _ _ rest _ n h _ _ _ _ ih =>
    exact yields_prepend (ih nofun) fun qs hqs => hqs.char hhigh _
  | case9 pos _ _ _ _ rest _ n _ hkind _ ih =>
    exact fun ps c hread => ⟨(ih (hfirst hkind) ps c hread).chain, nofun⟩
  | case10 pos _ _ _ _ rest _ n _ _ hkind _ ih =>
    refine yields_prepend (ih nofun) fun qs hqs => ⟨?_, nofun⟩
    exact List.isChain_cons.mpr ⟨fun p _ => alone_of_isLowUnit hkind p, hqs.chain⟩
  | case11 pos _ _ _ _ rest _ n _ _ _ _ ih =>
    exact yields_prepend (ih nofun) fun qs hqs => hqs.char hhigh _
  | case12 => exact yields_error _
  | case13 high pos e rest _ x _ _ ih =>
    exact yields_prepend (ih nofun) fun qs hqs => hqs.char hhigh x
  | case14 => exact yields_error _
  | case15 => exact yields_error _
  | case16 high pos c rest _ _ _ ih =>
    exact yields_prepend (ih nofun) fun qs hqs => hqs.char hhigh c

theorem yields_stringAfterMark (c : Cursor) :
    Yields (stringAfterMark noHalves c) HalvesAlone := by
  refine yields_map (yields_stringBody _ none _ _ nofun) fun ps _ hps => ?_
  rw [HalvesAlone, RawText.points_ofPoints]
  exact hps.chain

/-! ## Values -/

theorem yields_plainValue (c : Cursor) : Yields (plainValue c) IsRead := by
  have hwords : ∀ entry ∈ words, IsRead entry.2 := by
    intro entry hentry
    simp only [words, List.mem_cons, List.not_mem_nil, or_false] at hentry
    rcases hentry with rfl | rfl | rfl | rfl | rfl | rfl <;> constructor
  unfold plainValue
  split
  · next read hread =>
    obtain ⟨⟨word, v⟩, hmem, hword⟩ := List.exists_of_findSome?_eq_some hread
    obtain ⟨after, -, rfl⟩ := Option.map_eq_some_iff.mp hword
    exact yields_ok (hwords _ hmem) after
  · split
    · next n size _ =>
      unfold Numeral.value
      split
      · split
        · exact yields_error _
        · exact yields_ok (.int _) _
      · exact yields_ok (.real _) _
    · exact yields_error _

/-- The bound on the depth of calls carries the induction: each reader calls the others
with a smaller one. -/
theorem yields_isRead (bound : Nat) : ∀ c : Cursor,
    Yields (valueAt noHalves bound c) IsRead ∧
      Yields (itemsAt noHalves bound c) (∀ v ∈ ·, IsRead v) ∧
      Yields (entriesAt noHalves bound c) (∀ e ∈ ·, EntryRead e) := by
  induction bound with
  | zero => exact fun c => ⟨yields_error _, yields_error _, yields_error _⟩
  | succ bound ih =>
    intro c
    refine ⟨?_, ?_, ?_⟩
    · rw [valueAt]
      split
      · exact yields_map (yields_stringAfterMark _) fun s _ hs => .text hs
      · dsimp only
        split
        · exact yields_ok (.object (List.forall_mem_nil _) (List.forall_mem_nil _) List.nodup_nil) _
        · exact yields_map (ih _).2.2 fun entries _ h => isRead_ofEntries h
      · dsimp only
        split
        · exact yields_ok (.list (List.forall_mem_nil _)) _
        · exact yields_map (ih _).2.1 fun items _ h => .list h
      · exact yields_plainValue c
    · rw [itemsAt]
      refine yields_bind (ih c).1 fun v c' hv => ?_
      dsimp only
      split
      · exact yields_ok (List.forall_mem_singleton.mpr hv) _
      split
      · exact yields_bind (ih _).2.1 fun items _ h => yields_ok (List.forall_mem_cons.mpr ⟨hv, h⟩) _
      · exact yields_error _
    · rw [entriesAt]
      split
      · exact yields_error _
      refine yields_bind (yields_stringAfterMark _) fun key c' hkey => ?_
      dsimp only
      split
      · exact yields_error _
      refine yields_bind (ih _).1 fun v c'' hv => ?_
      have hentry : EntryRead (key, v) := ⟨hkey, hv⟩
      dsimp only
      split
      · exact yields_ok (List.forall_mem_singleton.mpr hentry) _
      split
      · exact yields_bind (ih _).2.2 fun entries _ h =>
          yields_ok (List.forall_mem_cons.mpr ⟨hentry, h⟩) _
      · exact yields_error _

theorem isRead_of_ofChars {s : List Char} {v : Json} (h : ofChars s = .ok v) : IsRead v := by
  have hread := (yields_isRead (2 * s.length + 2) (Cursor.skipGap ⟨0, s⟩)).1
  simp only [ofChars, ofShown, bind, Except.bind] at h
  split at h
  · cases h
  · next read hvalue =>
    split at h
    · cases h
      exact hread _ _ hvalue
    · cases h

theorem isRead_of_ofFileText {s : List Char} {v : Json} (h : ofFileText s = .ok v) : IsRead v := by
  unfold ofFileText at h
  split at h
  · cases h
  · exact isRead_of_ofChars h

end CommentThreads.Json
