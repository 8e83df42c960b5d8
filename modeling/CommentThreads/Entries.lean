/-
CommentThreads.Entries — association lists that keep the order in which
their keys were first put in.

`put` on a key that is there replaces its value and keeps its place; on a
new key it appends. `erase` removes a key wherever it stands.
-/

namespace CommentThreads

/-- Keys with their values, in order. -/
abbrev Entries (κ ν : Type) := List (κ × ν)

namespace Entries

variable {κ ν : Type} [DecidableEq κ]

/-- The value at a key. -/
def get? (key : κ) : Entries κ ν → Option ν
  | [] => none
  | (k, v) :: rest => if k = key then some v else get? key rest

/-- Put a value at a key: in the key's place, or behind all others. -/
def put (key : κ) (value : ν) : Entries κ ν → Entries κ ν
  | [] => [(key, value)]
  | (k, v) :: rest => if k = key then (k, value) :: rest else (k, v) :: put key value rest

/-- The entries whose key is another one. -/
def erase (key : κ) (entries : Entries κ ν) : Entries κ ν :=
  entries.filter fun (k, _) => k ≠ key

/-- Put several entries, one after the other. -/
def putAll (new entries : Entries κ ν) : Entries κ ν :=
  new.foldl (fun entries (k, v) => put k v entries) entries

/-- The keys in order. -/
def keys (entries : Entries κ ν) : List κ :=
  entries.map Prod.fst

/-! ## What is found after each operation -/

@[simp] theorem get?_nil (key : κ) : get? key ([] : Entries κ ν) = none := rfl

theorem get?_cons (key other : κ) (value : ν) (entries : Entries κ ν) :
    get? other ((key, value) :: entries) = if key = other then some value else get? other entries :=
  rfl

/-- Putting a value changes what is found at its key and at no other. -/
theorem get?_put (key other : κ) (value : ν) (entries : Entries κ ν) :
    get? other (put key value entries) =
      if other = key then some value else get? other entries := by
  induction entries with
  | nil =>
    rw [put, get?_cons]
    by_cases h : other = key
    · rw [if_pos h.symm, if_pos h]
    · rw [if_neg (Ne.symm h), if_neg h]
  | cons entry rest ih =>
    obtain ⟨k, v⟩ := entry
    rw [put]
    by_cases hk : k = key
    · subst hk
      rw [if_pos rfl, get?_cons, get?_cons]
      by_cases h : other = k
      · rw [if_pos h.symm, if_pos h]
      · rw [if_neg (Ne.symm h), if_neg h, if_neg (Ne.symm h)]
    · rw [if_neg hk, get?_cons, get?_cons, ih]
      by_cases h : k = other
      · have hne : other ≠ key := fun e => hk (h.trans e)
        rw [if_pos h, if_neg hne, if_pos h]
      · rw [if_neg h, if_neg h]

/-- Erasing a key changes what is found there and nowhere else. -/
theorem get?_erase (key other : κ) (entries : Entries κ ν) :
    get? other (erase key entries) = if other = key then none else get? other entries := by
  induction entries with
  | nil => simp [erase]
  | cons entry rest ih =>
    obtain ⟨k, v⟩ := entry
    have hstep : erase key ((k, v) :: rest) =
        if k = key then erase key rest else (k, v) :: erase key rest := by
      by_cases hk : k = key <;> simp [erase, hk]
    rw [hstep, get?_cons]
    by_cases hk : k = key
    · rw [if_pos hk, ih]
      by_cases h : other = key
      · rw [if_pos h, if_pos h]
      · rw [if_neg h, if_neg h, if_neg (fun e => h (e.symm.trans hk))]
    · rw [if_neg hk, get?_cons, ih]
      by_cases h : k = other
      · have hne : other ≠ key := fun e => hk (h.trans e)
        rw [if_pos h, if_neg hne, if_pos h]
      · rw [if_neg h, if_neg h]

end Entries

end CommentThreads
