/-
CommentThreads.Proofs.Store.Views — stores that show the same.

* `Viewed Documents` — the calls on documents, told from two views. Different
  keys have different documents, since percent encoding can be undone; a key
  that is refused has none.
* `SameView` — two stores show the same values and lists. They answer the next
  call alike, and show the same after it, as long as both take its key and it
  does not overwrite a list with a value or a value with a list
  (`sameView_perform`). Only there do the two kinds of store differ.
-/
import CommentThreads.Proofs.Store.Outcome
import CommentThreads.Proofs.Text.Percent
import CommentThreads.Store.Documents

namespace CommentThreads.Store

open Text

/-! ## Documents through the two views -/

namespace Documents

/-- A text that can be encoded is a key. -/
theorem isSome_name? (key : RawText) : (name? key).isSome = key.isPlain := by
  rw [name?, Option.isSome_map, RawText.isPlain]

theorem name?_inj {key other : RawText} {name : String} (hkey : name? key = some name) :
    name? other = some name ↔ other = key := by
  constructor
  · intro hother
    obtain ⟨s, hs, rfl⟩ := Option.map_eq_some_iff.mp hkey
    obtain ⟨t, ht, hname⟩ := Option.map_eq_some_iff.mp hother
    have hencoded := congrArg (fun s => percentDecode s.toList) hname
    simp only [String.toList_ofList,
      keepsPlain_isUnreserved.percentDecode_percentEncode] at hencoded
    rw [RawText.string?_eq_some_iff.mp hs, RawText.string?_eq_some_iff.mp ht,
      String.toList_inj.mp hencoded]
  · rintro rfl
    exact hkey

theorem replace_of_refused {key : RawText} (h : name? key = none) (d : Documents)
    (document : Document) : d.replace key document = d := by
  rw [replace, h]

theorem find?_of_refused {key : RawText} (h : name? key = none) (d : Documents) :
    d.find? key = none := by
  rw [find?, h]
  rfl

theorem perform_of_refused {c : Call} (h : name? c.key = none) (d : Documents) :
    (d.perform c).2 = d := by
  cases c with
  | get key => rfl
  | items key => rfl
  | set key value => exact replace_of_refused h d _
  | prepend key item => exact replace_of_refused h d _
  | remove key item => exact replace_of_refused h d _
  | delete key =>
    have hname : name? key = none := h
    rw [perform, erase, hname]

theorem valueAt?_of_refused {key : RawText} (h : name? key = none) (d : Documents) :
    d.valueAt? key = none := by
  rw [valueAt?, find?_of_refused h]
  rfl

theorem listAt_of_refused {key : RawText} (h : name? key = none) (d : Documents) :
    d.listAt key = [] := by
  rw [listAt, find?_of_refused h]
  rfl

theorem find?_empty (collection : String) (key : RawText) :
    (empty collection).find? key = none := by
  rw [find?]
  cases name? key <;> rfl

theorem find?_replace {key : RawText} (h : (name? key).isSome = true) (d : Documents)
    (other : RawText) (document : Document) :
    (d.replace key document).find? other =
      if other = key then some document else d.find? other := by
  obtain ⟨name, hname⟩ := Option.isSome_iff_exists.mp h
  rw [find?, replace, hname, find?]
  cases hother : name? other with
  | none =>
    have hne : other ≠ key := by
      rintro rfl
      rw [hname] at hother
      cases hother
    rw [if_neg hne]
    rfl
  | some name' =>
    have hsame : name? other = some name ↔ other = key := name?_inj hname
    rw [hother, Option.some.injEq] at hsame
    rw [Option.bind_some, Option.bind_some, Entries.get?_put]
    simp only [hsame]

theorem find?_delete (d : Documents) (key other : RawText) :
    (d.perform (.delete key)).2.find? other = if other = key then none else d.find? other := by
  cases hname : name? key with
  | none =>
    rw [perform_of_refused (c := .delete key) hname]
    split
    · next heq => rw [heq, find?_of_refused hname]
    · rfl
  | some name =>
    rw [perform, find?, erase, hname, find?]
    cases hother : name? other with
    | none => exact (ite_self _).symm
    | some name' =>
      have hsame : name? other = some name ↔ other = key := name?_inj hname
      rw [hother, Option.some.injEq] at hsame
      rw [Option.bind_some, Option.bind_some, Entries.get?_erase]
      simp only [hsame]

theorem valueAt?_replace {key : RawText} (h : (name? key).isSome = true) (d : Documents)
    (other : RawText) (document : Document) :
    (d.replace key document).valueAt? other =
      if other = key then document.value.bind Json.nonNull? else d.valueAt? other := by
  rw [valueAt?, find?_replace h]
  split <;> rfl

theorem listAt_replace {key : RawText} (h : (name? key).isSome = true) (d : Documents)
    (other : RawText) (document : Document) :
    (d.replace key document).listAt other =
      if other = key then document.items.getD [] else d.listAt other := by
  rw [listAt, find?_replace h]
  split <;> rfl

/-- What is written under a refused key is nowhere. -/
theorem replace_cases (d : Documents) (key : RawText) (document : Document) :
    (name? key).isSome = true ∨
      (d.replace key document = d ∧ d.valueAt? key = none ∧ d.listAt key = []) := by
  cases h : name? key with
  | none =>
    exact .inr ⟨replace_of_refused h d document, valueAt?_of_refused h d, listAt_of_refused h d⟩
  | some name => exact .inl rfl

end Documents

open Documents in
instance : Viewed Documents where
  valueAt? := Documents.valueAt?
  listAt := Documents.listAt
  takes_same _ _ _ := rfl
  perform_refused c d h :=
    perform_of_refused (Option.isNone_iff_eq_none.mp (Option.isSome_eq_false_iff.mp h)) d
  valueAt?_refused key d h :=
    valueAt?_of_refused (Option.isNone_iff_eq_none.mp (Option.isSome_eq_false_iff.mp h)) d
  listAt_refused key d h :=
    listAt_of_refused (Option.isNone_iff_eq_none.mp (Option.isSome_eq_false_iff.mp h)) d
  perform_get _ _ := rfl
  perform_items _ _ := rfl
  valueAt?_set key value other d h := valueAt?_replace h d other ⟨some value, none⟩
  listAt_set key value other d h := by
    change (d.replace key ⟨some value, none⟩).listAt other = d.listAt other
    obtain htakes | ⟨hsame, -⟩ := replace_cases d key ⟨some value, none⟩
    · rw [listAt_replace htakes]
      rcases h with hne | hempty
      · exact if_neg hne
      · split
        · next heq => rw [heq, hempty]; rfl
        · rfl
    · rw [hsame]
  valueAt?_delete key other d := by
    refine (congrArg (fun found => (found.bind Document.value).bind Json.nonNull?)
      (find?_delete d key other)).trans ?_
    split <;> rfl
  listAt_delete key other d := by
    refine (congrArg (fun found => (found.bind Document.items).getD [])
      (find?_delete d key other)).trans ?_
    split <;> rfl
  valueAt?_prepend key item other d h := by
    change (d.replace key ⟨none, some (item :: d.listAt key)⟩).valueAt? other = d.valueAt? other
    obtain htakes | ⟨hsame, -⟩ := replace_cases d key ⟨none, some (item :: d.listAt key)⟩
    · rw [valueAt?_replace htakes]
      rcases h with hne | hempty
      · exact if_neg hne
      · split
        · next heq => rw [heq, hempty]; rfl
        · rfl
    · rw [hsame]
  listAt_prepend key item other d h :=
    listAt_replace h d other ⟨none, some (item :: d.listAt key)⟩
  valueAt?_remove key item other d := by
    change (d.replace key ⟨(d.find? key).bind Document.value,
      some ((d.listAt key).filter (· ≠ item))⟩).valueAt? other = d.valueAt? other
    obtain htakes | ⟨hsame, -⟩ := replace_cases d key ⟨(d.find? key).bind Document.value,
      some ((d.listAt key).filter (· ≠ item))⟩
    · rw [valueAt?_replace htakes]
      split
      · next heq => rw [heq]; rfl
      · rfl
    · rw [hsame]
  listAt_remove key item other d := by
    change (d.replace key ⟨(d.find? key).bind Document.value,
      some ((d.listAt key).filter (· ≠ item))⟩).listAt other = _
    obtain htakes | ⟨hsame, -, hempty⟩ := replace_cases d key ⟨(d.find? key).bind Document.value,
      some ((d.listAt key).filter (· ≠ item))⟩
    · exact listAt_replace htakes d other _
    · rw [hsame]
      split
      · next heq => rw [heq, hempty]; rfl
      · rfl

/-! ## Stores that show the same -/

section SameView

variable {σ τ : Type} [KeyValue σ] [Viewed σ] [KeyValue τ] [Viewed τ]

/-- Two stores show the same at every key. -/
structure SameView (s : σ) (t : τ) : Prop where
  value : ∀ key, Viewed.valueAt? s key = Viewed.valueAt? t key
  list : ∀ key, Viewed.listAt s key = Viewed.listAt t key

/-- A call overwrites no list with a value and no value with a list. -/
def Call.Fits (s : σ) : Call → Prop
  | .set key _ => Viewed.listAt s key = []
  | .prepend key _ => Viewed.valueAt? s key = none
  | _ => True

theorem sameView_perform {s : σ} {t : τ} (h : SameView s t) {c : Call} (hfits : c.Fits s)
    (hs : KeyValue.takes c.key s = true) (ht : KeyValue.takes c.key t = true) :
    (KeyValue.perform c s).1 = (KeyValue.perform c t).1 ∧
      SameView (KeyValue.perform c s).2 (KeyValue.perform c t).2 := by
  cases c with
  | get key =>
    rw [Viewed.perform_get, Viewed.perform_get]
    exact ⟨h.value key, h⟩
  | set key value =>
    have hempty : Viewed.listAt s key = [] := hfits
    have hempty' : Viewed.listAt t key = [] := by rw [← h.list, hempty]
    refine ⟨rfl, ⟨fun other => ?_, fun other => ?_⟩⟩
    · rw [Viewed.valueAt?_set key _ _ _ hs, Viewed.valueAt?_set key _ _ _ ht, h.value]
    · rw [Viewed.listAt_set _ _ _ _ (.inr hempty), Viewed.listAt_set _ _ _ _ (.inr hempty'), h.list]
  | delete key =>
    refine ⟨rfl, ⟨fun other => ?_, fun other => ?_⟩⟩
    · rw [Viewed.valueAt?_delete, Viewed.valueAt?_delete, h.value]
    · rw [Viewed.listAt_delete, Viewed.listAt_delete, h.list]
  | prepend key item =>
    have hnone : Viewed.valueAt? s key = none := hfits
    have hnone' : Viewed.valueAt? t key = none := by rw [← h.value, hnone]
    refine ⟨rfl, ⟨fun other => ?_, fun other => ?_⟩⟩
    · rw [Viewed.valueAt?_prepend _ _ _ _ (.inr hnone),
        Viewed.valueAt?_prepend _ _ _ _ (.inr hnone'), h.value]
    · rw [Viewed.listAt_prepend key _ _ _ hs, Viewed.listAt_prepend key _ _ _ ht, h.list, h.list]
  | items key =>
    rw [Viewed.perform_items, Viewed.perform_items]
    exact ⟨h.list key, h⟩
  | remove key item =>
    refine ⟨rfl, ⟨fun other => ?_, fun other => ?_⟩⟩
    · rw [Viewed.valueAt?_remove, Viewed.valueAt?_remove, h.value]
    · rw [Viewed.listAt_remove, Viewed.listAt_remove, h.list, h.list]

end SameView

end CommentThreads.Store
