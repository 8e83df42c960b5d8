/-
CommentThreads.Store.Memory — a store that keeps values and lists in two
tables of its own.

A list that has become empty stays in its table; a key that was never
prepended to is not there, which answers alike.
-/
import CommentThreads.Store.Call

namespace CommentThreads.Store

/-- The values and the lists, each under its key. -/
structure Memory where
  values : Entries RawText Json
  lists : Entries RawText (List RawText)
deriving Repr

namespace Memory

/-- The store that holds nothing. -/
def empty : Memory := ⟨[], []⟩

/-- The list at a key. -/
def listAt (m : Memory) (key : RawText) : List RawText :=
  (Entries.get? key m.lists).getD []

/-- The value at a key. -/
def valueAt? (m : Memory) (key : RawText) : Option Json :=
  (Entries.get? key m.values).bind Json.nonNull?

/-- Perform a call. -/
def perform : (call : Call) → Memory → call.Answer × Memory
  | .get key, m => (m.valueAt? key, m)
  | .set key value, m => ((), { m with values := Entries.put key value m.values })
  | .delete key, m => ((), ⟨Entries.erase key m.values, Entries.erase key m.lists⟩)
  | .prepend key item, m =>
    ((), { m with lists := Entries.put key (item :: m.listAt key) m.lists })
  | .items key, m => (m.listAt key, m)
  | .remove key item, m =>
    match Entries.get? key m.lists with
    | none => ((), m)
    | some items => ((), { m with lists := Entries.put key (items.filter (· ≠ item)) m.lists })

/-- Any text can be a key. -/
instance : KeyValue Memory := ⟨fun _ _ => true, perform⟩

/-! ## The calls through the two views -/

@[simp] theorem valueAt?_empty (key : RawText) : empty.valueAt? key = none := rfl

@[simp] theorem listAt_empty (key : RawText) : empty.listAt key = [] := rfl

@[simp] theorem valueAt?_set (m : Memory) (key other : RawText) (value : Json) :
    (m.perform (.set key value)).2.valueAt? other =
      if other = key then value.nonNull? else m.valueAt? other := by
  rw [perform, valueAt?, Entries.get?_put]
  split <;> rfl

@[simp] theorem listAt_set (m : Memory) (key other : RawText) (value : Json) :
    (m.perform (.set key value)).2.listAt other = m.listAt other := rfl

@[simp] theorem valueAt?_delete (m : Memory) (key other : RawText) :
    (m.perform (.delete key)).2.valueAt? other =
      if other = key then none else m.valueAt? other := by
  rw [perform, valueAt?, Entries.get?_erase]
  split <;> rfl

@[simp] theorem listAt_delete (m : Memory) (key other : RawText) :
    (m.perform (.delete key)).2.listAt other = if other = key then [] else m.listAt other := by
  rw [perform, listAt, Entries.get?_erase]
  split <;> rfl

@[simp] theorem valueAt?_prepend (m : Memory) (key item other : RawText) :
    (m.perform (.prepend key item)).2.valueAt? other = m.valueAt? other := rfl

@[simp] theorem listAt_prepend (m : Memory) (key item other : RawText) :
    (m.perform (.prepend key item)).2.listAt other =
      if other = key then item :: m.listAt key else m.listAt other := by
  rw [perform, listAt, Entries.get?_put]
  split <;> rfl

@[simp] theorem valueAt?_remove (m : Memory) (key item other : RawText) :
    (m.perform (.remove key item)).2.valueAt? other = m.valueAt? other := by
  rw [perform]
  split <;> rfl

@[simp] theorem listAt_remove (m : Memory) (key item other : RawText) :
    (m.perform (.remove key item)).2.listAt other =
      if other = key then (m.listAt key).filter (· ≠ item) else m.listAt other := by
  rw [perform]
  cases h : Entries.get? key m.lists with
  | none =>
    have hkey : m.listAt key = [] := by rw [listAt, h]; rfl
    by_cases ho : other = key
    · subst ho
      rw [if_pos rfl, hkey]
      rfl
    · rw [if_neg ho]
  | some items =>
    have hkey : m.listAt key = items := by rw [listAt, h]; rfl
    simp only [listAt, Entries.get?_put]
    by_cases ho : other = key
    · rw [if_pos ho, if_pos ho, h]
      rfl
    · rw [if_neg ho, if_neg ho]

end Memory

end CommentThreads.Store
