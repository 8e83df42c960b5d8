/-
CommentThreads.Proofs.Entries — which entries a table has after an operation, and when
its keys are distinct.

`mem_put`, `mem_erase` and `mem_putAll` say where an entry comes from. The keys stay
distinct (`nodup_keys_put`, `nodup_keys_erase`), and entries whose keys are distinct are
put in as they stand (`putAll_of_nodup`).
-/
import CommentThreads.Entries
import Mathlib.Data.List.Nodup

namespace CommentThreads

namespace Entries

variable {κ ν : Type} [DecidableEq κ]

/-- An entry of a table into which a value was put is that value at its key, or
was there before. -/
theorem mem_put {key : κ} {value : ν} {entry : κ × ν} {entries : Entries κ ν}
    (h : entry ∈ put key value entries) : entry = (key, value) ∨ entry ∈ entries := by
  induction entries with
  | nil => exact .inl (List.mem_singleton.mp h)
  | cons first rest ih =>
    obtain ⟨k, v⟩ := first
    rw [put] at h
    split at h
    · next hk =>
      rcases List.mem_cons.mp h with rfl | hrest
      · exact .inl (by rw [hk])
      · exact .inr (List.mem_cons_of_mem _ hrest)
    · rcases List.mem_cons.mp h with rfl | hrest
      · exact .inr List.mem_cons_self
      · exact (ih hrest).imp_right (List.mem_cons_of_mem _)

theorem mem_erase {key : κ} {entry : κ × ν} {entries : Entries κ ν} :
    entry ∈ erase key entries ↔ entry ∈ entries ∧ entry.1 ≠ key := by
  simp [erase]

/-- What is found at a key stands there as an entry. -/
theorem mem_of_get? {key : κ} {value : ν} {entries : Entries κ ν}
    (h : get? key entries = some value) : (key, value) ∈ entries := by
  induction entries with
  | nil => cases h
  | cons first rest ih =>
    obtain ⟨k, v⟩ := first
    rw [get?_cons] at h
    split at h
    · next hk =>
      cases h
      rw [hk]
      exact List.mem_cons_self
    · exact List.mem_cons_of_mem _ (ih h)

/-- Putting a value at a key keeps the keys distinct. -/
theorem nodup_keys_put {key : κ} (value : ν) {entries : Entries κ ν} (h : entries.keys.Nodup) :
    (put key value entries).keys.Nodup := by
  induction entries with
  | nil => simp [put, keys]
  | cons first rest ih =>
    obtain ⟨k, v⟩ := first
    obtain ⟨hk, hrest⟩ := List.nodup_cons.mp h
    rw [put]
    split
    · exact h
    · next hne =>
      refine List.nodup_cons.mpr ⟨fun hmem => ?_, ih hrest⟩
      obtain ⟨entry, hentry, hkey⟩ := List.mem_map.mp hmem
      rcases mem_put hentry with rfl | hold
      · exact hne hkey.symm
      · exact hk (List.mem_map.mpr ⟨entry, hold, hkey⟩)

theorem nodup_keys_erase (key : κ) {entries : Entries κ ν} (h : entries.keys.Nodup) :
    (erase key entries).keys.Nodup :=
  h.sublist (List.Sublist.map Prod.fst List.filter_sublist)

/-- Where keys are distinct, an entry is what is found at its key. -/
theorem get?_of_mem {key : κ} {value : ν} {entries : Entries κ ν} (h : entries.keys.Nodup)
    (hmem : (key, value) ∈ entries) : get? key entries = some value := by
  induction entries with
  | nil => cases hmem
  | cons first rest ih =>
    obtain ⟨k, v⟩ := first
    obtain ⟨hk, hrest⟩ := List.nodup_cons.mp h
    rw [get?_cons]
    rcases List.mem_cons.mp hmem with heq | hmem
    · cases heq
      rw [if_pos rfl]
    · have hne : k ≠ key := by
        rintro rfl
        exact hk (List.mem_map.mpr ⟨_, hmem, rfl⟩)
      rw [if_neg hne, ih hrest hmem]

theorem erase_of_get?_none {key : κ} {entries : Entries κ ν} (h : get? key entries = none) :
    erase key entries = entries := by
  induction entries with
  | nil => rfl
  | cons first rest ih =>
    obtain ⟨k, v⟩ := first
    rw [get?_cons] at h
    split at h
    · cases h
    · next hk => simpa [erase, hk] using ih h

/-- A value at a new key is put behind all others. -/
theorem put_of_not_mem {key : κ} (value : ν) {entries : Entries κ ν} (h : key ∉ entries.keys) :
    put key value entries = entries ++ [(key, value)] := by
  induction entries with
  | nil => rfl
  | cons entry rest ih =>
    obtain ⟨k, v⟩ := entry
    rw [keys, List.map_cons, List.mem_cons, not_or] at h
    rw [put, if_neg (Ne.symm h.1), ih h.2]
    rfl

/-! ## Several entries -/

theorem putAll_cons (entry : κ × ν) (new entries : Entries κ ν) :
    putAll (entry :: new) entries = putAll new (put entry.1 entry.2 entries) := rfl

/-- Entries with distinct keys are put behind each other. -/
theorem putAll_of_nodup {new entries : Entries κ ν} (h : (entries ++ new).keys.Nodup) :
    putAll new entries = entries ++ new := by
  induction new generalizing entries with
  | nil => rw [List.append_nil]; rfl
  | cons entry new ih =>
    obtain ⟨key, value⟩ := entry
    have hkey : key ∉ entries.keys := by
      rw [keys, List.map_append, List.map_cons] at h
      intro hmem
      exact (List.nodup_append.mp h).2.2 key hmem key List.mem_cons_self rfl
    rw [putAll_cons, put_of_not_mem value hkey, ih, List.append_assoc]
    · rfl
    · rwa [List.append_assoc]

theorem mem_putAll {entry : κ × ν} {new entries : Entries κ ν} (h : entry ∈ putAll new entries) :
    entry ∈ new ∨ entry ∈ entries := by
  induction new generalizing entries with
  | nil => exact .inr h
  | cons first new ih =>
    rcases ih h with hnew | hput
    · exact .inl (List.mem_cons_of_mem _ hnew)
    · rcases mem_put hput with rfl | hold
      · exact .inl List.mem_cons_self
      · exact .inr hold

theorem nodup_keys_putAll (new : Entries κ ν) {entries : Entries κ ν} (h : entries.keys.Nodup) :
    (putAll new entries).keys.Nodup := by
  induction new generalizing entries with
  | nil => exact h
  | cons first new ih => exact ih (nodup_keys_put first.2 h)

end Entries

end CommentThreads
