/-
CommentThreads.Proofs.Terminal.Faults — which lines a terminal fails at.

A terminal works on a service that others use as well, and starts with nothing
remembered or stored. The post fits into an address, the state file can be written, and the
clock shows moments that have a date line. Then a line fails only if it asks for a
comment by a hash that fits into no address (`ok_or_stopsAtAddress`): everything
else that can go wrong is said to the one who typed it.

The invariant is `Presentable`: every comment that is stored has a line to show and
dates that can be written, and everything that is remembered is a text.
-/
import CommentThreads.Proofs.Terminal.Prompts
import CommentThreads.Proofs.Terminal.Service
import CommentThreads.Proofs.Text.Lines
import CommentThreads.Proofs.Time.LogDate

namespace CommentThreads.Terminal

open CommentThreads.Client CommentThreads.Http CommentThreads.Server CommentThreads.Store
  CommentThreads.Text CommentThreads.Time

/-! ## What can be shown -/

/-- A comment with a line to show, and with dates that can be written. -/
structure ShowsWell (c : Comment) : Prop where
  message : c.message.isBlank = false
  created : ∃ micros, c.created = .utc micros ∧ WellInside micros
  updated : ∀ d, c.updated = some d → ∃ micros, d = .utc micros ∧ WellInside micros

/-- What is remembered, and the ledger that is kept, can be shown and written. -/
structure Presentable (file : StateFile) (t : Site Ledger) : Prop where
  texts : file.OnlyStrings
  writable : file.place ≠ .directory
  clock : ∀ n, WellInside (t.supply.clock n)
  comments : ∀ c ∈ t.store.comments, ShowsWell c

section Showing

variable {allowed : Fault → Prop} {setup : Setup}

theorem datable_of_wellInside (hzone : setup.zone.natAbs < 1440) {d : DateTime}
    (h : ∃ micros, d = .utc micros ∧ WellInside micros) : Datable allowed setup d := by
  obtain ⟨micros, rfl, hmicros⟩ := h
  intro fault hfault
  rw [logDate_utc hmicros hzone] at hfault
  cases hfault

theorem shown_of_showsWell (hzone : setup.zone.natAbs < 1440) {c : Comment} (h : ShowsWell c) :
    Shown allowed setup c.summary where
  line hnone := by
    have hempty : c.message = "" := (RawText.lines_eq_nil_iff _).mp hnone
    have hblank := h.message
    rw [hempty] at hblank
    cases hblank
  date := datable_of_wellInside hzone h.created

end Showing

/-! ## It stays so -/

theorem showsWell_added {before : Site Ledger} {after : Supply} {c : Comment}
    (h : IsAdded before after c) (hclock : ∀ n, WellInside (before.supply.clock n)) :
    ShowsWell c where
  message := h.message_ne
  created := by
    obtain ⟨k, hk⟩ := h.created_eq
    exact ⟨_, hk, hclock k⟩
  updated d hd := by
    rw [h.updated_eq] at hd
    cases hd

theorem showsWell_edited {c : Comment} (h : ShowsWell c) {message : String}
    (hmessage : isBlankText message = false) {micros : Int} (hmicros : WellInside micros) :
    ShowsWell (Ledger.edited message (.utc micros) c) where
  message := hmessage
  created := h.created
  updated := by
    rintro _ ⟨⟩
    exact ⟨micros, rfl, hmicros⟩

theorem presentable_turn {config : Config} {file : StateFile} {t t' : Site Ledger}
    (hturn : Turn config t t') (h : Presentable file t) : Presentable file t' where
  texts := h.texts
  writable := h.writable
  clock := by
    rw [hturn.clock_eq]
    exact h.clock
  comments := by
    intro c hc
    rcases hturn.cases with hstore | ⟨added, lock, hadded, hstore⟩ |
      ⟨hash, message, k, hmessage, hstore⟩ | ⟨hash, hstore⟩
    · rw [hstore] at hc
      exact h.comments c hc
    · rw [hstore] at hc
      rcases List.mem_cons.mp hc with rfl | hold
      · exact showsWell_added hadded h.clock
      · exact h.comments c hold
    · rw [hstore, Ledger.comments_edit] at hc
      obtain ⟨old, hold, rfl⟩ := List.mem_map.mp hc
      have hshows := h.comments old hold
      split
      · exact showsWell_edited hshows hmessage (h.clock k)
      · exact hshows
    · rw [hstore, Ledger.comments_remove] at hc
      exact h.comments c (List.mem_filter.mp hc).1

/-- What is remembered may change as long as it is texts, at the same place. -/
theorem Presentable.withFile {file file' : StateFile} {t : Site Ledger} (h : Presentable file t)
    (htexts : file'.OnlyStrings) (hplace : file'.place = .directory ↔ file.place = .directory) :
    Presentable file' t where
  texts := htexts
  writable hdirectory := h.writable (hplace.mp hdirectory)
  clock := h.clock
  comments := h.comments

theorem secure_presentable (settings : Settings) (host : String) {setup : Setup}
    (hpost : (Target.ofField? "/comments" "post_id" setup.post).isSome = true)
    (hzone : setup.zone.natAbs < 1440) :
    Secure settings host setup Presentable fun _ => False where
  texts _ _ h := h.texts
  turn _ _ _ _ hturn h := presentable_turn hturn h
  address := .inl hpost
  shown file t h c hc :=
    ⟨shown_of_showsWell hzone (h.comments c hc),
      fun d hd => datable_of_wellInside hzone ((h.comments c hc).updated d hd)⟩
  writable _ _ h := .inl h.writable
  setConfig file t h key value :=
    h.withFile (StateFile.onlyTextsOf_setConfig h.texts key (RawText.isPlain_plain value))
      (StateFile.written_setConfig key (.text value) file).place
  forget file t h hash :=
    h.withFile (StateFile.onlyTextsOf_forgetKey h.texts (.text hash))
      (StateFile.written_forgetKey (.text hash) file).place
  remember config file t h _ hpost message author password parent hmessage c _ given _ := by
    have hturn : Turn config t _ := .create (author.map .plain) password parent hpost hmessage t
    exact (presentable_turn hturn h).withFile
      (StateFile.onlyTextsOf_remember h.texts c.hash (RawText.isPlain_plain given))
      (StateFile.written_remember c.hash (.text given) file).place

/-! ## Lines -/

/-- A line that asks an idle terminal for a comment by a hash that fits into no
address: it ends with that fault, and nothing has come of it. -/
structure StopsAtAddress {σ : Type} (line : String) (s : Scene σ)
    (ended : Except Fault Unit × Scene σ) : Prop where
  was_idle : s.terminal.prompt = .idle
  asked : ∃ hash, ¬Addressable hash ∧
    (Command.ofLine? line = some (.inspect hash) ∨ Command.ofLine? line = some (.rebase hash))
  fault_eq : ended.1 = .error (.exchange .badAddress)
  idle : ended.2.terminal.prompt = .idle
  file_eq : ended.2.terminal.file = s.terminal.file
  server_eq : ended.2.server = s.server

section Lines

variable {σ : Type} [KeyValue σ] {settings : Settings} {host : String} {setup : Setup}

theorem lookedUp?_eq_some {command : Command} {hash : String} (h : lookedUp? command = some hash) :
    command = .inspect hash ∨ command = .rebase hash := by
  cases command with
  | inspect hash' =>
    cases h
    exact .inl rfl
  | rebase hash' =>
    cases h
    exact .inr rfl
  | _ => cases h

theorem stopsAtAddress_of_unaddressable (salt : String) (arrivals : List Requests) {line : String}
    {s : Scene (Site σ)} (hidle : s.terminal.prompt = .idle) {command : Command} {hash : String}
    (hcommand : Command.ofLine? line = some command) (hhash : lookedUp? command = some hash)
    (haddress : ¬Addressable hash) :
    StopsAtAddress line s (feedAmong settings host setup salt arrivals line s) := by
  let s' : Scene (Site σ × List Requests) := ⟨s.terminal, (s.server, arrivals)⟩
  let shown := s'.showing (idleText ++ " " ++ strip line : String) .command
  have hcarried : (carryOut setup command).outcome (replyAmong settings host salt) shown =
      (.error (.exchange .badAddress), shown) := by
    rcases lookedUp?_eq_some hhash with rfl | rfl
    · exact outcome_lookup_unaddressable haddress _ _ shown
    · exact outcome_lookup_unaddressable haddress _ _ shown
  have hfed : (feed setup line).outcome (replyAmong settings host salt) s' =
      (.error (.exchange .badAddress), shown) :=
    (feed_command (s := s') hidle hcommand).trans hcarried
  have hended : feedAmong settings host setup salt arrivals line s =
      (.error (.exchange .badAddress), ⟨shown.terminal, s.server⟩) := by
    rw [feedAmong, hfed]
    rfl
  refine ⟨hidle, ⟨hash, haddress, ?_⟩, ?_, ?_, ?_, ?_⟩
  · rw [hcommand]
    exact (lookedUp?_eq_some hhash).imp (congrArg some) (congrArg some)
  · rw [hended]
  · rw [hended]
    exact hidle
  · rw [hended]
    rfl
  · rw [hended]

/-- Whatever has happened, a line does not fail, or it stops at an address that is
none. -/
theorem ok_or_stopsAtAddress [Viewed σ] [TakesAll σ] (settings : Settings) (host : String)
    {setup : Setup} {file : StateFile} {store : σ} {supply : Supply}
    (hpost : (Target.ofField? "/comments" "post_id" setup.post).isSome = true)
    (hzone : setup.zone.natAbs < 1440) (hclock : ∀ n, WellInside (supply.clock n))
    (hplace : file.place ≠ .directory) (hconfig : file.config = []) (hreflog : file.reflog = [])
    (hstore : Keeps store []) (happenings : List Happening) (salt : String)
    (arrivals : List Requests) (line : String) :
    let s := happenAll settings host setup happenings (opening file store supply)
    let ended := feedAmong settings host setup salt arrivals line s
    ended.1 = .ok () ∨ StopsAtAddress line s ended := by
  intro s ended
  have hsecure := secure_presentable settings host hpost hzone
  have hopening : Sound Presentable (opening file store supply) := by
    have hempty : KeepsAt (opening file store supply).server ⟨[], supply⟩ := ⟨hstore, rfl⟩
    refine ⟨.idle, _, hempty, List.forall_mem_nil _, ⟨?_, ?_⟩, hplace, hclock,
      List.forall_mem_nil _⟩
    · simp [opening, State.start, hconfig]
    · simp [opening, State.start, hreflog]
  have hs : Sound Presentable s :=
    sound_happenAll (hsecure.mono fun _ _ => trivial) happenings hopening
  by_cases hstops : s.terminal.prompt.isIdle = true ∧ ∃ command ∈ Command.ofLine? line,
      ∃ hash ∈ lookedUp? command, ¬Addressable hash
  · obtain ⟨hidle, command, hcommand, hash, hhash, haddress⟩ := hstops
    exact .inr (stopsAtAddress_of_unaddressable salt arrivals (hs.prompt.eq_idle hidle) hcommand
      hhash haddress)
  · have hnone := (sound_feedAmong hsecure salt arrivals line hs ?_).2
    · cases hresult : ended.1 with
      | ok u => exact .inl rfl
      | error fault => exact (hnone fault hresult).elim
    · intro hidle command hcommand hash hhash
      by_cases haddress : Addressable hash
      · exact .inl haddress
      · exact absurd ⟨hidle, command, hcommand, hash, hhash, haddress⟩ hstops

/-- A comment is made and shown, and others ask for it, under the settings where
nothing is set. -/
theorem ok_or_stopsAtAddress_shown :
    let setup : Setup := ⟨"intro", "Guest", 120⟩
    let supply : Supply := ⟨fun _ => "0a1b2c3d", fun _ => 0, 0, 0⟩
    let file : StateFile := ⟨.file none, [], []⟩
    let salt := "$2b$04$abcdefghijklmnopqrstuu"
    let request := Query.toRequest ⟨"GET", ⟨"/comments/0a1b2c3d".toList, none⟩, none⟩ "localhost"
    let made := "git commit -m \"Hello\""
    let happenings := [.line salt [[(salt, request)]] made, .request salt request]
    let s := happenAll Settings.standard "localhost" setup happenings
      (opening file Memory.empty supply)
    let ended := feedAmong Settings.standard "localhost" setup salt [] "git show 0a1b2c3d" s
    (Target.ofField? "/comments" "post_id" setup.post).isSome = true ∧ setup.zone.natAbs < 1440 ∧
      (∀ n, WellInside (supply.clock n)) ∧ file.place ≠ .directory ∧ file.config = [] ∧
      file.reflog = [] ∧ Keeps Memory.empty [] ∧
      (ended.1 = .ok () ∨ StopsAtAddress "git show 0a1b2c3d" s ended) := by
  intro setup supply file salt request made happenings s ended
  have hpost : (Target.ofField? "/comments" "post_id" setup.post).isSome = true := by decide +kernel
  have hepoch : WellInside 0 := by
    rw [WellInside]
    decide +kernel
  have hclock : ∀ n, WellInside (supply.clock n) := fun _ => hepoch
  have hplace : file.place ≠ .directory := by
    intro hdirectory
    cases hdirectory
  have hstore : Keeps Memory.empty [] := keeps_nil (fun _ => rfl) (fun _ => rfl)
  exact ⟨hpost, by decide, hclock, hplace, rfl, rfl, hstore,
    ok_or_stopsAtAddress Settings.standard "localhost" hpost (by decide) hclock hplace rfl rfl
      hstore happenings salt [] "git show 0a1b2c3d"⟩

end Lines

end CommentThreads.Terminal
