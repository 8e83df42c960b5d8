/-
CommentThreads.Proofs.StateFile.Loading — which files can be loaded, and as what.

`loadsExactly`: a file that is missing, is no text or is no JSON is ignored, and the
tables are empty. JSON is loaded if it is an object whose tables are usable
(`ReadAs`): not given, an object, or a list whose items stand for entries. Any other
key of it is ignored. JSON of every other shape is refused, and not ignored: `[]` is,
and so is an object whose table is a text.
-/
import CommentThreads.StateFile.Basic
import Mathlib.Data.List.Forall2

namespace CommentThreads.StateFile

open CommentThreads.Text

/-! ## One table -/

/-- An item of a list stands for an entry: it has two parts, and the first can serve as
a key. -/
def IsEntry (item : Json) (entry : Key × Json) : Prop :=
  ∃ key, Section.parts? item = some [key, entry.2] ∧ Key.ofJson? key = some entry.1

/-- The table that is read where the file has a value, or has none. -/
inductive ReadAs : Option Json → Section → Prop
  | absent : ReadAs none []
  | notGiven {v : Json} (h : v.isGiven = false) : ReadAs (some v) []
  | object (entries : List (RawText × Json)) :
    ReadAs (some (.object entries)) (entries.map fun (k, v) => (.text k, v))
  | list {items : List Json} {entries : List (Key × Json)}
      (h : List.Forall₂ IsEntry items entries) :
    ReadAs (some (.list items)) (entries.foldl (fun table (k, v) => table.add k v) [])

/-- A list is added if each of its items stands for an entry. -/
theorem addPairs_eq_ok_iff (items : List Json) (place : Nat) (start table : Section) :
    Section.addPairs place start items = .ok table ↔
      ∃ entries, List.Forall₂ IsEntry items entries ∧
        table = entries.foldl (fun table (k, v) => table.add k v) start := by
  induction items generalizing place start with
  | nil =>
    constructor
    · intro h
      cases h
      exact ⟨[], .nil, rfl⟩
    · rintro ⟨entries, hentries, rfl⟩
      cases hentries
      rfl
  | cons item rest ih =>
    rw [Section.addPairs]
    constructor
    · intro h
      split at h
      · cases h
      · next key value hparts =>
        split at h
        · next key' hkey =>
          obtain ⟨entries, hentries, rfl⟩ := (ih _ _).mp h
          exact ⟨(key', value) :: entries, .cons ⟨key, hparts, hkey⟩ hentries, rfl⟩
        · cases h
      · cases h
    · rintro ⟨entries, hentries, rfl⟩
      cases hentries with
      | @cons _ entry _ entries hentry hrest =>
        obtain ⟨key, hparts, hkey⟩ := hentry
        simp only [hparts, hkey]
        exact (ih _ _).mpr ⟨entries, hrest, rfl⟩

/-- What is not given is the empty table and no other. -/
theorem readAs_notGiven_iff {v : Json} (h : v.isGiven = false) (table : Section) :
    ReadAs (some v) table ↔ table = [] := by
  constructor
  · rintro (_ | _ | ⟨entries⟩ | ⟨hentries⟩)
    · rfl
    · cases entries with
      | nil => rfl
      | cons entry rest => cases h
    · cases hentries with
      | nil => rfl
      | cons _ _ => cases h
  · rintro rfl
    exact .notGiven h

theorem ofJson_eq_ok_iff (v : Json) (table : Section) :
    Section.ofJson v = .ok table ↔ ReadAs (some v) table := by
  cases hgiven : v.isGiven with
  | false =>
    have hempty : Section.ofJson v = .ok [] := by simp [Section.ofJson, hgiven]
    rw [readAs_notGiven_iff hgiven, hempty, Except.ok.injEq, eq_comm]
  | true =>
    have hgive : ¬v.isGiven = false := by simp [hgiven]
    cases v with
    | list items =>
      have hread : Section.ofJson (.list items) = Section.addPairs 0 [] items := by
        simp [Section.ofJson, hgiven]
      rw [hread, addPairs_eq_ok_iff]
      constructor
      · rintro ⟨entries, hentries, rfl⟩
        exact .list hentries
      · rintro (_ | h | _ | hentries)
        · exact absurd h hgive
        · exact ⟨_, hentries, rfl⟩
    | object entries =>
      have hread : Section.ofJson (.object entries) =
          .ok (entries.map fun (k, v) => (.text k, v)) := by simp [Section.ofJson, hgiven]
      rw [hread, Except.ok.injEq]
      constructor
      · rintro rfl
        exact .object entries
      · rintro (_ | h | _ | _)
        · exact absurd h hgive
        · rfl
    | _ =>
      constructor
      · intro h
        simp [Section.ofJson, hgiven] at h
      · rintro (_ | h)
        exact absurd h hgive

theorem sectionAt_eq_ok_iff (key : String) (v : Json) (table : Section) :
    sectionAt key v = .ok table ↔ ReadAs (v.field? key) table := by
  have hmap (r : Except SectionFault Section) :
      r.mapError Fault.badSection = .ok table ↔ r = .ok table := by
    cases r <;> simp [Except.mapError]
  rw [sectionAt, hmap, ofJson_eq_ok_iff]
  cases v.field? key with
  | none =>
    rw [Option.getD_none, readAs_notGiven_iff rfl]
    constructor
    · rintro rfl
      exact .absent
    · rintro (_ | _)
      rfl
  | some given => rw [Option.getD_some]

/-! ## The whole file -/

/-- A file that is ignored: it is missing, or holds no text or no JSON. -/
inductive Ignored : Option (List UInt8) → Prop
  | missing : Ignored none
  | notText {bytes : List UInt8} (h : decode bytes = none) : Ignored (some bytes)
  | notJson {bytes : List UInt8} {s : List Char} {e : Json.ReadError}
      (htext : decode bytes = some s)
      (h : Json.ofFileText s = .error e) : Ignored (some bytes)

theorem value?_eq_none_iff (content : Option (List UInt8)) :
    (Place.file content).value? = none ↔ Ignored content := by
  cases content with
  | none => exact ⟨fun _ => .missing, fun _ => rfl⟩
  | some bytes =>
    have hvalue : (Place.file (some bytes)).value? =
        (decode bytes).bind fun s => (Json.ofFileText s).toOption := by
      cases htext : decode bytes <;> simp [Place.value?, htext]
    rw [hvalue]
    constructor
    · intro h
      cases htext : decode bytes with
      | none => exact .notText htext
      | some s =>
        cases hread : Json.ofFileText s with
        | error e => exact .notJson htext hread
        | ok v => simp [htext, hread, Except.toOption] at h
    · rintro (_ | htext | ⟨htext, hread⟩)
      · rw [htext, Option.bind_none]
      · rw [htext, Option.bind_some, hread]
        rfl

/-- A value that is an object whose tables are read as these. -/
def Usable (v : Json) (config reflog : Section) : Prop :=
  ∃ entries, v = .object entries ∧ ReadAs (v.field? "config") config ∧
    ReadAs (v.field? "reflog") reflog

/-- When a file is loaded, and when it is refused. -/
structure LoadsExactly (content : Option (List UInt8)) : Prop where
  ignored : Ignored content → load (.file content) = .ok ⟨.file content, [], []⟩
  loaded : ∀ v, (Place.file content).value? = some v → ∀ file, load (.file content) = .ok file ↔
    file.place = .file content ∧ Usable v file.config file.reflog
  refused : (∃ fault, load (.file content) = .error fault) ↔
    ∃ v, (Place.file content).value? = some v ∧ ¬∃ config reflog, Usable v config reflog

theorem load_of_value? {content : Option (List UInt8)} {v : Json}
    (h : (Place.file content).value? = some v) (file : StateFile) :
    load (.file content) = .ok file ↔
      file.place = .file content ∧ Usable v file.config file.reflog := by
  rw [load, h]
  cases v with
  | object entries =>
    constructor
    · intro hload
      cases hconfig : sectionAt "config" (.object entries) with
      | error fault =>
        simp only [hconfig] at hload
        cases hload
      | ok config =>
        cases hreflog : sectionAt "reflog" (.object entries) with
        | error fault =>
          simp only [hconfig, hreflog] at hload
          cases hload
        | ok reflog =>
          simp only [hconfig, hreflog] at hload
          cases hload
          exact ⟨rfl, entries, rfl, (sectionAt_eq_ok_iff _ _ _).mp hconfig,
            (sectionAt_eq_ok_iff _ _ _).mp hreflog⟩
    · rintro ⟨hplace, _, _, hconfig, hreflog⟩
      obtain ⟨place, config, reflog⟩ := file
      cases hplace
      simp only [(sectionAt_eq_ok_iff _ _ _).mpr hconfig, (sectionAt_eq_ok_iff _ _ _).mpr hreflog]
      rfl
  | _ =>
    constructor
    · intro h
      cases h
    · rintro ⟨-, entries, hobject, -⟩
      cases hobject

theorem loadsExactly (content : Option (List UInt8)) : LoadsExactly content := by
  have hignored (h : Ignored content) : load (.file content) = .ok ⟨.file content, [], []⟩ := by
    rw [load, (value?_eq_none_iff content).mpr h]
  refine ⟨hignored, fun v => load_of_value?, ?_⟩
  constructor
  · rintro ⟨fault, hfault⟩
    cases hvalue : (Place.file content).value? with
    | none =>
      rw [hignored ((value?_eq_none_iff content).mp hvalue)] at hfault
      cases hfault
    | some v =>
      refine ⟨v, rfl, ?_⟩
      rintro ⟨config, reflog, husable⟩
      rw [(load_of_value? hvalue ⟨.file content, config, reflog⟩).mpr ⟨rfl, husable⟩] at hfault
      cases hfault
  · rintro ⟨v, hvalue, hnone⟩
    cases hload : load (.file content) with
    | error fault => exact ⟨fault, rfl⟩
    | ok file => exact absurd ⟨_, _, ((load_of_value? hvalue file).mp hload).2⟩ hnone

/-- An empty list is JSON, so it is not ignored. -/
example : load (.file (some (encode ['[', ']']))) = .error .notObject := rfl

end CommentThreads.StateFile
