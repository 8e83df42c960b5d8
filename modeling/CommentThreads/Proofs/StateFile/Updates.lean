/-
CommentThreads.Proofs.StateFile.Updates — what each update makes of the tables
of a state file.

* `Written` — how an update ends: which tables it leaves, and that it fails only
  where a directory is in the way.
* `OnlyTextsOf` — a state file whose values are texts of some kind stays one.
-/
import CommentThreads.Proofs.Entries
import CommentThreads.StateFile.Basic

namespace CommentThreads

namespace StateFile

/-! ## Updates -/

/-- How an update of a state file ends: with these tables, kept at the same kind
of place, and with a fault only where a directory is in the way. -/
structure Written (update : Update Unit) (file : StateFile) (config reflog : Section) : Prop where
  config : (update.run.run file).2.config = config
  reflog : (update.run.run file).2.reflog = reflog
  place : (update.run.run file).2.place = .directory ↔ file.place = .directory
  result : file.place ≠ .directory → (update.run.run file).1 = .ok ()

theorem written_save (file : StateFile) : Written save file file.config file.reflog := by
  obtain ⟨place, config, reflog⟩ := file
  cases place with
  | memory => exact ⟨rfl, rfl, Iff.rfl, fun _ => rfl⟩
  | file content =>
    refine ⟨rfl, rfl, ⟨fun h => ?_, fun h => ?_⟩, fun _ => rfl⟩
    · cases h
    · cases h
  | directory => exact ⟨rfl, rfl, Iff.rfl, fun h => absurd rfl h⟩

theorem written_setConfig (key : RawText) (value : Json) (file : StateFile) :
    Written (setConfig key value) file (Entries.put (.text key) value file.config)
      file.reflog := by
  obtain ⟨config, reflog, place, result⟩ :=
    written_save { file with config := Entries.put (.text key) value file.config }
  exact ⟨config, reflog, place, result⟩

theorem written_remember (hash : RawText) (password : Json) (file : StateFile) :
    Written (remember hash password) file file.config
      (Entries.put (.text hash) password file.reflog) := by
  obtain ⟨config, reflog, place, result⟩ :=
    written_save { file with reflog := Entries.put (.text hash) password file.reflog }
  exact ⟨config, reflog, place, result⟩

/-- Forgetting what a key stands for takes its entry out, if it has one, and writes the
file if the entry held a password. -/
theorem run_forgetKey (key : Key) (file : StateFile) :
    (forgetKey key).run.run file =
      match Entries.get? key file.reflog with
      | none => (.ok (), file)
      | some password =>
        if password.nonNull?.isSome then
          save.run.run { file with reflog := Entries.erase key file.reflog }
        else (.ok (), { file with reflog := Entries.erase key file.reflog }) := by
  have hrun : (forgetKey key).run.run file =
      (match Entries.get? key file.reflog with
        | none => pure ()
        | some password => do
          set { file with reflog := Entries.erase key file.reflog }
          if password.nonNull?.isSome then save : Update Unit).run.run file := rfl
  rw [hrun]
  cases Entries.get? key file.reflog with
  | none => rfl
  | some password =>
    cases hnull : password.nonNull? with
    | none => simp only [hnull]; rfl
    | some value => simp only [hnull]; rfl

/-- Whether or not there was a password, none is left. -/
theorem written_forgetKey (key : Key) (file : StateFile) :
    Written (forgetKey key) file file.config (Entries.erase key file.reflog) := by
  have hrun := run_forgetKey key file
  cases hget : Entries.get? key file.reflog with
  | none =>
    have hsame : Entries.erase key file.reflog = file.reflog :=
      Entries.erase_of_get?_none hget
    rw [hget] at hrun
    rw [hsame]
    constructor <;> simp [hrun]
  | some password =>
    have hsave := written_save { file with reflog := Entries.erase key file.reflog }
    rw [hget] at hrun
    split at hrun
    · next hnone => cases hnone
    · split at hrun
      · exact ⟨by rw [hrun, hsave.config], by rw [hrun, hsave.reflog], by rw [hrun, hsave.place],
          fun h => by rw [hrun, hsave.result h]⟩
      · constructor <;> simp [hrun]

/-! ## Values that are texts -/

/-- Every value that is remembered is a text of some kind. -/
structure OnlyTextsOf (fit : RawText → Prop) (file : StateFile) : Prop where
  config : ∀ entry ∈ file.config, ∃ t, entry.2 = .text t ∧ fit t
  reflog : ∀ entry ∈ file.reflog, ∃ t, entry.2 = .text t ∧ fit t

/-- Every value that is remembered is a text. -/
abbrev OnlyTexts (file : StateFile) : Prop := file.OnlyTextsOf fun _ => True

/-- Every value that is remembered is a string. -/
abbrev OnlyStrings (file : StateFile) : Prop := file.OnlyTextsOf fun t => t.isPlain = true

section Texts

variable {fit : RawText → Prop} {file : StateFile}

theorem onlyTextsOf_setConfig (h : file.OnlyTextsOf fit) (key : RawText) {value : RawText}
    (hvalue : fit value) : ((setConfig key (.text value)).run.run file).2.OnlyTextsOf fit := by
  have hwritten := written_setConfig key (.text value) file
  constructor
  · intro entry hentry
    rw [hwritten.config] at hentry
    rcases Entries.mem_put hentry with rfl | hold
    · exact ⟨value, rfl, hvalue⟩
    · exact h.config entry hold
  · rw [hwritten.reflog]
    exact h.reflog

theorem onlyTextsOf_remember (h : file.OnlyTextsOf fit) (hash : RawText) {password : RawText}
    (hpassword : fit password) :
    ((remember hash (.text password)).run.run file).2.OnlyTextsOf fit := by
  have hwritten := written_remember hash (.text password) file
  constructor
  · rw [hwritten.config]
    exact h.config
  · intro entry hentry
    rw [hwritten.reflog] at hentry
    rcases Entries.mem_put hentry with rfl | hold
    · exact ⟨password, rfl, hpassword⟩
    · exact h.reflog entry hold

theorem onlyTextsOf_forgetKey (h : file.OnlyTextsOf fit) (key : Key) :
    ((forgetKey key).run.run file).2.OnlyTextsOf fit := by
  have hwritten := written_forgetKey key file
  constructor
  · rw [hwritten.config]
    exact h.config
  · intro entry hentry
    rw [hwritten.reflog] at hentry
    exact h.reflog entry (Entries.mem_erase.mp hentry).1

/-- A value that is found and counts as given is a text that is not empty. -/
theorem given_text {table : Section} (h : ∀ entry ∈ table, ∃ t, entry.2 = .text t ∧ fit t)
    {key : RawText} {value : Json} (hget : (table.get? key).filter Json.isGiven = some value) :
    ∃ t, value = .text t ∧ fit t ∧ t ≠ "" := by
  obtain ⟨hfound, hgiven⟩ := Option.filter_eq_some_iff.mp hget
  obtain ⟨t, ht, hfit⟩ := h _ (Entries.mem_of_get? hfound)
  change value = .text t at ht
  subst ht
  exact ⟨t, rfl, hfit, by simpa [Json.isGiven] using hgiven⟩

end Texts

end StateFile

end CommentThreads
