/-
CommentThreads.Proofs.StateFile.Reload — what is remembered survives a restart.

`reloaded_of_changes`: whatever is configured, remembered and forgotten, one change
after the other, the file can be loaded at any moment, and its tables are the ones in
memory, entry for entry and in the same order. The file that was there at the start may
be missing, may be no JSON, or may hold an object whose tables are absent, null, or
objects of texts.

The invariant is `Settled`: the tables hold texts under distinct keys, and loading the
file gives them. The texts of the first file may have lone halves of surrogate pairs, which
are written as they were read. A change that is not written, such as forgetting what was never
remembered, leaves the tables as they were.
-/
import CommentThreads.Proofs.Json.FileForm
import CommentThreads.Proofs.Json.Keys
import CommentThreads.Proofs.StateFile.Loading
import CommentThreads.Proofs.StateFile.Updates

namespace CommentThreads.StateFile

open CommentThreads.Json (HalvesAlone IsRead)
open CommentThreads.Text

/-! ## Tables of texts -/

/-- A text under a text. The halves in both are alone, as in all that is read. -/
inductive TextEntry : Key × Json → Prop
  | mk {key value : RawText} (hkey : HalvesAlone key) (hvalue : HalvesAlone value) :
    TextEntry (.text key, .text value)

theorem textEntry_plain (key value : String) : TextEntry (.text key, .text value) :=
  .mk (Json.halvesAlone_of_isPlain rfl) (Json.halvesAlone_of_isPlain rfl)

/-- Texts under distinct texts. -/
structure TextTable (table : Section) : Prop where
  texts : ∀ entry ∈ table, TextEntry entry
  distinct : (Entries.keys table).Nodup

theorem textTable_nil : TextTable [] :=
  ⟨List.forall_mem_nil _, List.nodup_nil⟩

theorem TextTable.put {table : Section} (h : TextTable table) (key value : String) :
    TextTable (Entries.put (.text key) (.text value) table) := by
  refine ⟨fun entry hentry => ?_, Entries.nodup_keys_put _ h.distinct⟩
  rcases Entries.mem_put hentry with rfl | hold
  · exact textEntry_plain key value
  · exact h.texts entry hold

theorem TextTable.erase {table : Section} (h : TextTable table) (key : String) :
    TextTable (Entries.erase (.text key) table) :=
  ⟨fun entry hentry => h.texts entry (Entries.mem_erase.mp hentry).1,
    Entries.nodup_keys_erase _ h.distinct⟩

/-- Its keys are texts, so they are the same when they have been written as such. -/
theorem TextTable.map_text_map_name {table : Section} (h : TextTable table) :
    (table.map fun (k, v) => (k.name, v)).map (fun (k, v) => (Key.text k, v)) = table := by
  rw [List.map_map]
  refine (List.map_congr_left fun entry hentry => ?_).trans (List.map_id _)
  obtain ⟨_, _⟩ := h.texts entry hentry
  rfl

/-- Such a table is an object that is read as the table. -/
theorem TextTable.readAs_toJson {table : Section} (h : TextTable table) :
    ReadAs (some table.toJson) table := by
  have hread : ReadAs (some table.toJson) _ := .object _
  rw [h.map_text_map_name] at hread
  exact hread

theorem keys_map_name (table : Section) :
    (table.map fun (k, v) => (k.name, v)).map Prod.fst = (Entries.keys table).map Key.name := by
  rw [Entries.keys, List.map_map, List.map_map]
  rfl

/-- Nothing of it is lost in a file. -/
theorem TextTable.plain_toJson {table : Section} (h : TextTable table) :
    (Section.toJson table).Plain := by
  constructor
  · have hvalues := h.texts
    generalize table = rest at hvalues ⊢
    induction rest with
    | nil => trivial
    | cons first rest ih =>
      obtain ⟨_, _⟩ := hvalues first List.mem_cons_self
      exact ⟨trivial, ih fun entry hentry => hvalues entry (List.mem_cons_of_mem _ hentry)⟩
  · rw [keys_map_name]
    refine List.Nodup.map_on (fun k hk k' hk' hname => ?_) h.distinct
    obtain ⟨entry, hentry, rfl⟩ := List.mem_map.mp hk
    obtain ⟨entry', hentry', rfl⟩ := List.mem_map.mp hk'
    obtain ⟨_, _⟩ := h.texts entry hentry
    obtain ⟨_, _⟩ := h.texts entry' hentry'
    exact congrArg Key.text hname

theorem TextTable.allTexts_toJson {table : Section} (h : TextTable table) :
    (Section.toJson table).AllTexts HalvesAlone := by
  have hvalues := h.texts
  clear h
  induction table with
  | nil => trivial
  | cons first rest ih =>
    obtain ⟨hkey, hvalue⟩ := hvalues first List.mem_cons_self
    exact ⟨hkey, hvalue, ih fun entry hentry => hvalues entry (List.mem_cons_of_mem _ hentry)⟩

/-! ## Saving -/

/-- A saved state is loaded again. -/
theorem load_saved {config reflog : Section} (hconfig : TextTable config)
    (hreflog : TextTable reflog) (place : Place) :
    load (.file (some (encode (toJson ⟨place, config, reflog⟩).indented))) =
      .ok ⟨.file (some (encode (toJson ⟨place, config, reflog⟩).indented)), config, reflog⟩ := by
  have hplain : (Json.object [("config", config.toJson), ("reflog", reflog.toJson)]).Plain :=
    ⟨⟨hconfig.plain_toJson, hreflog.plain_toJson, trivial⟩, by simp⟩
  have htexts : (Json.object [("config", config.toJson), ("reflog", reflog.toJson)]).AllTexts
      HalvesAlone :=
    ⟨Json.halvesAlone_of_isPlain rfl, hconfig.allTexts_toJson, Json.halvesAlone_of_isPlain rfl,
      hreflog.allTexts_toJson, trivial⟩
  have hvalue : (Place.file (some (encode (toJson ⟨place, config, reflog⟩).indented))).value? =
      some (toJson ⟨place, config, reflog⟩) := by
    have hread := Json.ofFileText_indented htexts
    rw [Json.outcome, Json.reread_of_plain _ hplain] at hread
    simp only [Place.value?, decode_encode]
    exact congrArg Except.toOption hread
  exact (load_of_value? hvalue ⟨_, config, reflog⟩).mpr
    ⟨rfl, _, rfl, hconfig.readAs_toJson, hreflog.readAs_toJson⟩

/-- The tables hold texts, and loading the file gives them. -/
structure Settled (file : StateFile) : Prop where
  config : TextTable file.config
  reflog : TextTable file.reflog
  place : ∃ content, file.place = .file content
  reload : load file.place = .ok file

theorem settled_save (file : StateFile) (hconfig : TextTable file.config)
    (hreflog : TextTable file.reflog) (hplace : ∃ content, file.place = .file content) :
    ∃ after, save.run.run file = (.ok (), after) ∧ after.Settled ∧
      after.config = file.config ∧ after.reflog = file.reflog := by
  obtain ⟨place, config, reflog⟩ := file
  obtain ⟨content, rfl⟩ := hplace
  exact ⟨⟨.file (some (encode (toJson ⟨.file content, config, reflog⟩).indented)), config, reflog⟩,
    rfl, ⟨hconfig, hreflog, ⟨_, rfl⟩, load_saved hconfig hreflog _⟩, rfl, rfl⟩

/-! ## One change -/

/-- What can be done to the state. -/
inductive Change
  | configure (key value : String)
  | remember (hash password : String)
  | forget (hash : String)
deriving DecidableEq, Repr

namespace Change

/-- A change as an update of the state file. -/
def update : Change → Update Unit
  | configure key value => setConfig key (.text value)
  | remember hash password => StateFile.remember hash (.text password)
  | forget hash => StateFile.forget hash

/-- What it makes of the configured values. -/
def onConfig : Change → Section → Section
  | configure key value, config => Entries.put (.text key) (.text value) config
  | _, config => config

/-- What it makes of the passwords that are remembered. -/
def onReflog : Change → Section → Section
  | remember hash password, reflog => Entries.put (.text hash) (.text password) reflog
  | forget hash, reflog => Entries.erase (.text hash) reflog
  | configure _ _, reflog => reflog

end Change

theorem settled_change {file : StateFile} (h : file.Settled) (change : Change) :
    ∃ after, change.update.run.run file = (.ok (), after) ∧ after.Settled ∧
      after.config = change.onConfig file.config ∧
      after.reflog = change.onReflog file.reflog := by
  cases change with
  | configure key value =>
    exact settled_save { file with config := Entries.put (.text key) (.text value) file.config }
      (h.config.put key value) h.reflog h.place
  | remember hash password =>
    exact settled_save { file with reflog := Entries.put (.text hash) (.text password) file.reflog }
      h.config (h.reflog.put hash password) h.place
  | forget hash =>
    have hrun := run_forgetKey (.text hash) file
    cases hget : Entries.get? (.text hash) file.reflog with
    | none =>
      rw [hget] at hrun
      exact ⟨file, hrun, h, rfl, (Entries.erase_of_get?_none hget).symm⟩
    | some password =>
      obtain ⟨_, _⟩ := h.reflog.texts _ (Entries.mem_of_get? hget)
      rw [hget] at hrun
      -- Any text counts as a password, also an empty one, so the file is written.
      obtain ⟨after, hsave, hafter⟩ :=
        settled_save { file with reflog := Entries.erase (.text hash) file.reflog } h.config
          (h.reflog.erase hash) h.place
      exact ⟨after, hrun.trans hsave, hafter⟩

/-! ## One change after the other -/

/-- Changes that are made one after the other, the rest only if none fails. -/
def changeAll (changes : List Change) : Update Unit :=
  changes.forM Change.update

theorem run_changeAll_cons {change : Change} {file after : StateFile}
    (h : change.update.run.run file = (.ok (), after)) (changes : List Change) :
    (changeAll (change :: changes)).run.run file = (changeAll changes).run.run after := by
  have hbind : (changeAll (change :: changes)).run.run file =
      (ExceptT.bindCont (fun _ => changeAll changes) (change.update.run.run file).1).run
        (change.update.run.run file).2 := rfl
  rw [hbind, h]
  rfl

/-- How a state file is left by changes: none of them fails, the tables are what the
changes make of them, and loading the file again gives the same tables. -/
structure Reloaded (changes : List Change) (first after : StateFile) : Prop where
  run : (changeAll changes).run.run first = (.ok (), after)
  config : after.config = changes.foldl (fun table change => change.onConfig table) first.config
  reflog : after.reflog = changes.foldl (fun table change => change.onReflog table) first.reflog
  place : ∃ content, after.place = .file content
  reload : load after.place = .ok after

theorem reloaded_of_settled (changes : List Change) {first : StateFile} (h : first.Settled) :
    ∃ after, Reloaded changes first after := by
  induction changes generalizing first with
  | nil => exact ⟨first, rfl, rfl, rfl, h.place, h.reload⟩
  | cons change changes ih =>
    obtain ⟨next, hnext, hsettled, hconfig, hreflog⟩ := settled_change h change
    obtain ⟨after, hafter⟩ := ih hsettled
    refine ⟨after, ?_, ?_, ?_, hafter.place, hafter.reload⟩
    · rw [run_changeAll_cons hnext, hafter.run]
    · rw [hafter.config, hconfig, List.foldl_cons]
    · rw [hafter.reflog, hreflog, List.foldl_cons]

/-! ## The file at the start -/

/-- A table that a file may give: none, null, or an object of texts. -/
inductive GivesTexts : Option Json → Prop
  | none : GivesTexts none
  | null : GivesTexts (some .null)
  | object {entries : List (RawText × Json)} (h : ∀ e ∈ entries, ∃ s, e.2 = .text s) :
    GivesTexts (some (.object entries))

/-- A file whose value, if it has one, is an object with such tables. -/
def StartsWell (content : Option (List UInt8)) : Prop :=
  ∀ v, (Place.file content).value? = some v → ∃ entries, v = .object entries ∧
    GivesTexts (v.field? "config") ∧ GivesTexts (v.field? "reflog")

theorem isRead_of_value? {place : Place} {v : Json} (h : place.value? = some v) : v.IsRead := by
  unfold Place.value? at h
  split at h
  · split at h
    · next s _ =>
      cases hread : Json.ofFileText s with
      | error e =>
        rw [hread] at h
        cases h
      | ok w =>
        rw [hread] at h
        cases h
        exact Json.isRead_of_ofFileText hread
    · cases h
  · cases h

/-- What an object has at a key was read too. -/
theorem isRead_of_field? {v w : Json} (h : v.IsRead) {key : String}
    (hfield : v.field? key = some w) : w.IsRead := by
  cases h with
  | object hinner => exact hinner _ (Entries.mem_of_get? hfield)
  | _ => cases hfield

theorem textTable_of_entries {entries : List (RawText × Json)}
    (htexts : ∀ e ∈ entries, ∃ s, e.2 = .text s) (hread : (Json.object entries).IsRead) :
    TextTable (entries.map fun (k, v) => (.text k, v)) := by
  cases hread with
  | object hvalues halone hdistinct =>
    constructor
    · intro entry hentry
      obtain ⟨⟨key, v⟩, hmem, rfl⟩ := List.mem_map.mp hentry
      obtain ⟨value, rfl⟩ : ∃ value, v = .text value := htexts _ hmem
      cases hvalues _ hmem with
      | text hvalue => exact .mk (halone _ hmem) hvalue
    · have hkeys : Entries.keys (entries.map fun (k, v) => (Key.text k, v)) =
          (Entries.keys entries).map Key.text := by
        rw [Entries.keys, Entries.keys, List.map_map, List.map_map]
        rfl
      rw [hkeys]
      exact hdistinct.map fun _ _ heq => Key.text.inj heq

theorem textTable_of_givesTexts {v : Json} (hread : v.IsRead) {key : String}
    (h : GivesTexts (v.field? key)) : ∃ table, ReadAs (v.field? key) table ∧ TextTable table := by
  cases hfield : v.field? key with
  | none => exact ⟨[], .absent, textTable_nil⟩
  | some given =>
    rw [hfield] at h
    cases h with
    | null => exact ⟨[], .notGiven rfl, textTable_nil⟩
    | @object entries htexts =>
      exact ⟨_, .object entries, textTable_of_entries htexts (isRead_of_field? hread hfield)⟩

theorem settled_of_startsWell {content : Option (List UInt8)} (h : StartsWell content) :
    ∃ first, load (.file content) = .ok first ∧ first.Settled := by
  cases hvalue : (Place.file content).value? with
  | none =>
    have hload : load (.file content) = .ok ⟨.file content, [], []⟩ := by rw [load, hvalue]
    exact ⟨_, hload, textTable_nil, textTable_nil, ⟨content, rfl⟩, hload⟩
  | some v =>
    have hread := isRead_of_value? hvalue
    obtain ⟨entries, rfl, hconfig, hreflog⟩ := h v hvalue
    obtain ⟨config, hfirst, hconfig⟩ := textTable_of_givesTexts hread hconfig
    obtain ⟨reflog, hsecond, hreflog⟩ := textTable_of_givesTexts hread hreflog
    have hload : load (.file content) = .ok ⟨.file content, config, reflog⟩ :=
      (load_of_value? hvalue _).mpr ⟨rfl, entries, rfl, hfirst, hsecond⟩
    exact ⟨_, hload, hconfig, hreflog, ⟨content, rfl⟩, hload⟩

/-- What is remembered survives a restart at any moment. -/
theorem reloaded_of_changes {content : Option (List UInt8)} (h : StartsWell content)
    (changes : List Change) :
    ∃ first after, load (.file content) = .ok first ∧ Reloaded changes first after := by
  obtain ⟨first, hload, hsettled⟩ := settled_of_startsWell h
  obtain ⟨after, hafter⟩ := reloaded_of_settled changes hsettled
  exact ⟨first, after, hload, hafter⟩

/-- At the start a key comes twice and a value begins with a lone half, and a character
past U+FFFF is configured. -/
theorem reloaded_of_key_given_twice :
    let start := Json.object
      [("config", .object [("a", .text "1"), ("b", .text (.torn "" 0 "2")), ("a", .text "3")])]
    let content := some (encode start.indented)
    let changes : List Change :=
      [.configure "c" "😀\n", .remember "0a1b2c3d" "secret", .forget "0a1b2c3d"]
    StartsWell content ∧
      ∃ first after, load (.file content) = .ok first ∧ Reloaded changes first after := by
  intro start content changes
  have hplain (s : String) : HalvesAlone s := Json.halvesAlone_of_isPlain rfl
  have htorn : HalvesAlone (.torn "" 0 "2") := .cons_cons trivial (.singleton _)
  have hvalue : (Place.file content).value? =
      some (.object [("config", .object [("a", .text "3"), ("b", .text (.torn "" 0 "2"))])]) := by
    have hread : Json.ofFileText start.indented = Json.outcome start :=
      Json.ofFileText_indented ⟨hplain _, ⟨hplain _, hplain _, hplain _, htorn, hplain _, hplain _,
        trivial⟩, trivial⟩
    simp only [content, Place.value?, decode_encode, hread]
    rfl
  have hstarts : StartsWell content := by
    intro v hv
    rw [hvalue] at hv
    cases hv
    have htexts : ∀ e ∈ [(("a" : RawText), Json.text "3"), ("b", .text (.torn "" 0 "2"))],
        ∃ s, e.2 = .text s := by simp
    exact ⟨_, rfl, .object htexts, .none⟩
  exact ⟨hstarts, reloaded_of_changes hstarts changes⟩

end CommentThreads.StateFile
