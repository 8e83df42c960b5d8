/-
CommentThreads.Proofs.Terminal.Commands — what the commands of a terminal
uphold.

* Showing comments prints, and fails only where a comment has no line or a date
  cannot be written (`Shown`).
* A scene is `Standing` if its prompt is of a kind, and what is remembered and
  stored is. `Supports` collects what the exchanges with a server, and the writes
  that follow them, have to do for that; then every step upholds it.
-/
import CommentThreads.Proofs.Command.Parser
import CommentThreads.Proofs.StateFile.Updates
import CommentThreads.Proofs.Terminal.Session
import CommentThreads.Proofs.Text.Blank
import CommentThreads.Terminal.Feed

namespace CommentThreads.Terminal

open CommentThreads.Client CommentThreads.Http CommentThreads.Text

variable {σ : Type}

/-! ## Showing comments -/

section Showing

variable {reply : Query → σ → Reply × σ} {Inv : Scene σ → Prop} {allowed : Fault → Prop}
  {setup : Setup}

/-- A date that can be written, up to faults that are allowed. -/
def Datable (allowed : Fault → Prop) (setup : Setup) (d : Time.DateTime) : Prop :=
  ∀ fault, Time.logDate setup.zone d = .error fault → allowed (.calendar fault)

/-- A comment that can be shown: it has a line, and its date can be written. -/
structure Shown (allowed : Fault → Prop) (setup : Setup) (c : Summary) : Prop where
  line : c.message.lines = [] → allowed .noFirstLine
  date : Datable allowed setup c.date

/-- A thread all of whose comments can be shown. -/
structure ShownThread (allowed : Fault → Prop) (setup : Setup) (t : Thread) : Prop where
  root : Shown allowed setup t.root
  replies : ∀ reply ∈ t.replies, Shown allowed setup reply

/-- An invariant that no line touches but those that tell an error. -/
def SparesShown (Inv : Scene σ → Prop) : Prop := ∀ kind, kind ≠ .error → Spares Inv kind

theorem upholds_say (h : SparesShown Inv) (text : RawText) :
    Upholds reply Inv allowed (say text) :=
  upholds_print (h .output (by decide)) text

theorem upholds_sayMessage (h : SparesShown Inv) (indent : String) (message : RawText) :
    Upholds reply Inv allowed (sayMessage indent message) := by
  unfold sayMessage
  refine upholds_for _ fun line _ _ => ?_
  exact upholds_bind (upholds_say h _) fun _ => upholds_pure _

theorem upholds_firstLine {message : RawText} (h : message.lines = [] → allowed .noFirstLine) :
    Upholds reply Inv allowed (firstLine message) := by
  unfold firstLine
  split
  · exact upholds_pure _
  · next hnone => exact upholds_throw (h hnone)

theorem upholds_dateLine {d : Time.DateTime} (h : Datable allowed setup d) :
    Upholds reply Inv allowed (dateLine setup d) := by
  unfold dateLine
  split
  · exact upholds_pure _
  · next fault hfault => exact upholds_throw (h fault hfault)

theorem upholds_sayThreadShort (h : SparesShown Inv) {t : Thread}
    (ht : ShownThread allowed setup t) : Upholds reply Inv allowed (sayThreadShort t) := by
  unfold sayThreadShort
  refine upholds_bind (upholds_firstLine ht.root.line) fun first => ?_
  refine upholds_bind (upholds_say h _) fun _ => ?_
  refine upholds_for _ fun answer hanswer _ => ?_
  refine upholds_bind (upholds_firstLine (ht.replies answer hanswer).line) fun first => ?_
  exact upholds_bind (upholds_say h _) fun _ => upholds_pure _

theorem upholds_sayReply (h : SparesShown Inv) {c : Summary} (hc : Shown allowed setup c) :
    Upholds reply Inv allowed (sayReply setup c) := by
  unfold sayReply
  refine upholds_bind (upholds_print (h .muted (by decide)) _) fun _ => ?_
  refine upholds_bind (upholds_say h _) fun _ => ?_
  refine upholds_bind (upholds_dateLine hc.date) fun date => ?_
  refine upholds_bind (upholds_say h _) fun _ => ?_
  refine upholds_bind (upholds_say h _) fun _ => ?_
  refine upholds_bind (upholds_sayMessage h _ _) fun _ => ?_
  exact upholds_say h _

theorem upholds_sayThread (h : SparesShown Inv) {t : Thread} (ht : ShownThread allowed setup t) :
    Upholds reply Inv allowed (sayThread setup t) := by
  unfold sayThread
  refine upholds_bind (upholds_print (h .hash (by decide)) _) fun _ => ?_
  refine upholds_bind (upholds_say h _) fun _ => ?_
  refine upholds_bind (upholds_dateLine ht.root.date) fun date => ?_
  refine upholds_bind (upholds_say h _) fun _ => ?_
  refine upholds_bind (upholds_say h _) fun _ => ?_
  refine upholds_bind (upholds_sayMessage h _ _) fun _ => ?_
  refine upholds_bind (upholds_say h _) fun _ => ?_
  refine upholds_for _ fun answer hanswer _ => ?_
  exact upholds_bind (upholds_sayReply h (ht.replies answer hanswer)) fun _ => upholds_pure _

/-- What `log` does with the threads it gets. -/
def sayThreads (setup : Setup) (oneline : Bool) (threads : List Thread) : Session Unit := do
  if threads.isEmpty then print "No comments yet." .muted
  for t in threads do
    if oneline then sayThreadShort t else sayThread setup t

theorem log_eq (setup : Setup) (oneline : Bool) :
    log setup oneline =
      exchange (Client.threads setup.post) (sayThreads setup oneline) sayRefusal :=
  rfl

theorem upholds_sayThreads (h : SparesShown Inv) (oneline : Bool) {ts : List Thread}
    (hts : ∀ t ∈ ts, ShownThread allowed setup t) :
    Upholds reply Inv allowed (sayThreads setup oneline ts) := by
  have hloop : Upholds reply Inv allowed (do
      for t in ts do
        if oneline then sayThreadShort t else sayThread setup t) := by
    refine upholds_for _ fun t ht _ => ?_
    split
    · exact upholds_bind (upholds_sayThreadShort h (hts t ht)) fun _ => upholds_pure _
    · exact upholds_bind (upholds_sayThread h (hts t ht)) fun _ => upholds_pure _
  unfold sayThreads
  cases ts.isEmpty with
  | true => exact upholds_bind (upholds_print (h .muted (by decide)) _) fun _ => hloop
  | false => exact hloop

end Showing

/-! ## What is remembered and stored -/

section Standing

variable {reply : Query → σ → Reply × σ} {setup : Setup} {J : StateFile → σ → Prop}
  {allowed : Fault → Prop} {P : Prompt → Prop} {s : Scene σ}

/-- A scene with a prompt of a kind, and with remembered and stored things of a
kind. -/
structure Standing (P : Prompt → Prop) (J : StateFile → σ → Prop) (s : Scene σ) : Prop where
  prompt : P s.terminal.prompt
  kept : J s.terminal.file s.server

/-- No line touches it, whatever its kind. -/
theorem spares_standing (kind : LineKind) : Spares (Standing P J) kind :=
  fun _ _ h => ⟨h.prompt, h.kept⟩

theorem sparesShown_standing : SparesShown (Standing P J) := fun kind _ => spares_standing kind

/-- An update after which things are of the kind still, and which fails only in
ways that are allowed. -/
structure Writes (J : StateFile → σ → Prop) (allowed : Fault → Prop)
    (update : StateFile.Update Unit) (file : StateFile) (server : σ) : Prop where
  kept : J (update.run.run file).2 server
  fault : ∀ fault, (update.run.run file).1 = .error fault → allowed (.file fault)

theorem writes_of_written {file : StateFile} {server : σ} {update : StateFile.Update Unit}
    {config reflog : StateFile.Section} (h : StateFile.Written update file config reflog)
    (hplace : file.place ≠ .directory ∨ ∀ fault, allowed (.file fault))
    (hkept : J (update.run.run file).2 server) : Writes J allowed update file server := by
  refine ⟨hkept, fun fault hfault => ?_⟩
  rcases hplace with hplace | hallowed
  · rw [h.result hplace] at hfault
    cases hfault
  · exact hallowed fault

/-- A hash that can be part of an address. -/
def Addressable (hash : String) : Prop :=
  (Target.ofReference? ("/comments/".toList ++ hash.toList)).isSome = true

/-- What the exchanges of a terminal that only read do for things of a kind. -/
structure SupportsReading (reply : Query → σ → Reply × σ) (setup : Setup)
    (J : StateFile → σ → Prop) (allowed : Fault → Prop) : Prop where
  threads : ∀ file server, J file server →
    EndsAt reply (J file) allowed (Client.threads setup.post)
      (fun ts after => J file after ∧ ∀ t ∈ ts, ShownThread allowed setup t) server
  comment : ∀ hash, Addressable hash → ∀ file server, J file server →
    EndsAt reply (J file) allowed (Client.comment hash)
      (fun c after => J file after ∧ Shown allowed setup c.summary ∧
        ∀ d, c.updated = some d → Datable allowed setup d) server

/-- What the exchanges of a terminal and its writes do for things of a kind, if the
texts that are sent are fit for it. What is typed is, and so has to be what is remembered
and what is listed. -/
structure Supports (reply : Query → σ → Reply × σ) (setup : Setup) (fit : RawText → Prop)
    (J : StateFile → σ → Prop) (allowed : Fault → Prop) : Prop where
  typed : ∀ s : String, fit s
  texts : ∀ file server, J file server → file.OnlyTextsOf fit
  threads : ∀ file server, J file server →
    EndsAt reply (J file) allowed (Client.threads setup.post)
      (fun ts after => J file after ∧ (∀ t ∈ ts, ShownThread allowed setup t) ∧
        ∀ c ∈ Thread.comments ts, fit c.hash) server
  comment : ∀ hash, Addressable hash → ∀ file server, J file server →
    EndsAt reply (J file) allowed (Client.comment hash)
      (fun c after => J file after ∧ Shown allowed setup c.summary ∧
        ∀ d, c.updated = some d → Datable allowed setup d) server
  create : ∀ author password message parent file server, J file server →
    fit author → (∀ given ∈ password, fit given) →
    EndsAt reply (J file) allowed
      (Client.create setup.post (.text author) (.ofText? password) message parent)
      (fun receipt after => J file after ∧ ∀ given, password.bind RawText.nonEmpty? = some given →
        Writes J allowed (StateFile.remember receipt.hash (.text given)) file after) server
  update : ∀ hash password message file server, J file server → fit hash → fit password →
    EndsAt reply (J file) allowed (Client.update (.text hash) (.text password) message)
      (fun _ after => J file after) server
  delete : ∀ hash password file server, J file server → fit hash → fit password →
    EndsAt reply (J file) allowed (Client.delete (.text hash) (.text password))
      (fun _ after => Writes J allowed (StateFile.forget hash) file after) server
  setConfig : ∀ (key value : String) file server, J file server →
    Writes J allowed (StateFile.setConfig key (.text value)) file server

theorem Supports.reading {fit : RawText → Prop} (h : Supports reply setup fit J allowed) :
    SupportsReading reply setup J allowed where
  threads file server hkept := (h.threads file server hkept).imp fun _ _ hgood =>
    ⟨hgood.1, hgood.2.1⟩
  comment := h.comment

theorem upholds_showing (text : RawText) (kind : LineKind) :
    Upholds reply (Standing P J) allowed (print text kind) :=
  upholds_print (spares_standing kind) text

theorem upholds_sayRefusal (detail : Json) (status : Option Nat) :
    Upholds reply (Standing P J) allowed (sayRefusal detail status) :=
  upholds_showing _ .error

theorem upheldAt_remembering {update : StateFile.Update Unit} (hprompt : P s.terminal.prompt)
    (h : Writes J allowed update s.terminal.file s.server) :
    UpheldAt reply (Standing P J) allowed (remembering update) s := by
  have hended : (remembering update).outcome reply s = _ := outcome_remembering update s
  cases hresult : (update.run.run s.terminal.file).1 with
  | ok u =>
    rw [hresult] at hended
    exact upheldAt_of_ok hended ⟨hprompt, h.kept⟩
  | error fault =>
    rw [hresult] at hended
    exact upheldAt_of_error hended ⟨hprompt, h.kept⟩ (h.fault fault hresult)

/-- An exchange at a scene that stands: its prompt and its file are as before
when the server has answered. -/
theorem upholds_asking {α : Type} {e : Client.Exchange α} {good : StateFile → α → σ → Prop}
    {next : α → Session Unit} {refused : Json → Option Nat → Session Unit}
    (he : ∀ file server, J file server →
      EndsAt reply (J file) allowed e (good file) server)
    (hnext : ∀ a s, P s.terminal.prompt → good s.terminal.file a s.server →
      UpheldAt reply (Standing P J) allowed (next a) s)
    (hrefused : ∀ detail status, Upholds reply (Standing P J) allowed (refused detail status)) :
    Upholds reply (Standing P J) allowed (exchange e next refused) := by
  intro s hs
  refine upheldAt_exchange (he _ _ hs.kept) (fun a server hgood => ?_) hrefused
    fun server hkept => ⟨hs.prompt, hkept⟩
  exact hnext a (s.withServer server) hs.prompt hgood

theorem upholds_log (h : SupportsReading reply setup J allowed) (oneline : Bool) :
    Upholds reply (Standing P J) allowed (log setup oneline) := by
  rw [log_eq]
  refine upholds_asking h.threads (fun ts s hprompt hgood => ?_) upholds_sayRefusal
  exact upholds_sayThreads sparesShown_standing oneline hgood.2 s ⟨hprompt, hgood.1⟩

theorem upholds_reflog (h : SupportsReading reply setup J allowed) :
    Upholds reply (Standing P J) allowed (reflog setup) := by
  unfold reflog
  intro s hs
  refine upheldAt_bind_ok (outcome_get s) ?_
  cases hkeys : s.terminal.file.reflog.keys.isEmpty with
  | true =>
    simp only [hkeys, if_true]
    exact upholds_showing _ _ s hs
  | false =>
    simp only [hkeys, if_false, Bool.false_eq_true]
    refine upholds_asking h.threads (fun ts s hprompt hgood => ?_) upholds_sayRefusal s hs
    refine upholds_for _ (fun key _ _ => ?_) s ⟨hprompt, hgood.1⟩
    split
    · split
      · exact upholds_bind (upholds_showing _ _) fun _ => upholds_pure _
      · exact upholds_pure _
    · exact upholds_pure _

/-! ## Making, changing and removing comments -/

/-- The author that `chooseAuthor` finds. -/
def chosenAuthor (setup : Setup) (name : Option Json) (file : StateFile) : Json :=
  match name.filter Json.isGiven, (file.config.get? authorKey).filter Json.isGiven with
  | some name, _ => name
  | none, some configured => configured
  | none, none => .text setup.defaultAuthor

theorem outcome_chooseAuthor (name : Option Json) (s : Scene σ) :
    (chooseAuthor setup name).outcome reply s =
      (.ok (chosenAuthor setup name s.terminal.file), s) := by
  rw [chooseAuthor, outcome_bind_ok (outcome_configured? authorKey s), chosenAuthor]
  cases name.filter Json.isGiven with
  | some name => rfl
  | none => cases (s.terminal.file.config.get? authorKey).filter Json.isGiven <;> rfl

variable {fit : RawText → Prop}

/-- Where a name was typed, or none, a fit text is chosen. -/
theorem chosenAuthor_fit (setup : Setup) (author : Option String) {file : StateFile}
    (htyped : ∀ s : String, fit s) (h : file.OnlyTextsOf fit) :
    ∃ a, chosenAuthor setup (typedName? author) file = .text a ∧ fit a := by
  unfold chosenAuthor
  split
  · next name _ hname =>
    obtain ⟨hname, -⟩ := Option.filter_eq_some_iff.mp hname
    obtain ⟨a, -, rfl⟩ := Option.map_eq_some_iff.mp hname
    exact ⟨a, rfl, htyped a⟩
  · next configured hconfigured =>
    obtain ⟨a, rfl, hfit, -⟩ := StateFile.given_text h.config hconfigured
    exact ⟨a, rfl, hfit⟩
  · exact ⟨setup.defaultAuthor, rfl, htyped _⟩

theorem upholds_create (h : Supports reply setup fit J allowed) (author : RawText)
    (hauthor : fit author) (password : Option RawText) (hpassword : ∀ given ∈ password, fit given)
    (message : String) (parent : Option String) :
    Upholds reply (Standing P J) allowed
      (create setup (.text author) password message parent) := by
  unfold create
  refine upholds_asking
    (fun file server hkept => h.create author password message parent file server hkept hauthor
      hpassword) (fun receipt s hprompt hgood => ?_) upholds_sayRefusal
  refine upheldAt_bind_ok (outcome_print _ _ _) (upheldAt_bind_ok (outcome_print _ _ _)
    (upheldAt_bind_ok (outcome_print _ _ _) ?_))
  cases hgiven : password.bind RawText.nonEmpty? with
  | some given => exact upheldAt_remembering hprompt (hgood.2 given hgiven)
  | none => exact upholds_showing _ _ _ ⟨hprompt, hgood.1⟩

theorem upholds_update (h : Supports reply setup fit J allowed) (hash password : RawText)
    (hhash : fit hash) (hpassword : fit password) (message : String) :
    Upholds reply (Standing P J) allowed (update setup (some hash) (some password) message) := by
  unfold update
  refine upholds_asking
    (fun file server hkept => h.update hash password message file server hkept hhash hpassword)
    (fun notice s hprompt hgood => ?_) upholds_sayRefusal
  exact upholds_bind (upholds_showing _ _) (fun _ => upholds_log h.reading false) s ⟨hprompt, hgood⟩

theorem upholds_delete (h : Supports reply setup fit J allowed) (hash password : RawText)
    (hhash : fit hash) (hpassword : fit password) (showLog : Bool) :
    Upholds reply (Standing P J) allowed (delete setup (some hash) (.text password) showLog) := by
  unfold delete
  refine upholds_asking
    (fun file server hkept => h.delete hash password file server hkept hhash hpassword)
    (fun notice s hprompt hgood => ?_) upholds_sayRefusal
  refine upheldAt_bind_ok (outcome_print _ _ _) ?_
  refine upheldAt_bind (upheldAt_remembering hprompt hgood) fun _ => ?_
  split
  · exact upholds_log h.reading false
  · exact upholds_pure _

theorem upholds_config (h : Supports reply setup fit J allowed) (key : String)
    (value : Option String) : Upholds reply (Standing P J) allowed (config key value) := by
  intro s hs
  cases value with
  | some value =>
    refine upheldAt_bind (upheldAt_remembering hs.prompt (h.setConfig key value _ _ hs.kept)) ?_
    intro _
    exact upholds_showing _ _
  | none =>
    refine upheldAt_bind_ok (outcome_configured? key s) ?_
    cases hfound : (s.terminal.file.config.get? key).filter Json.isGiven with
    | none => exact upholds_showing _ _ s hs
    | some shown =>
      obtain ⟨text, rfl, -⟩ := StateFile.given_text (h.texts _ _ hs.kept).config hfound
      exact upholds_showing _ _ s hs

/-! ## Looking a comment up -/

theorem upholds_sayNotShown (hash : String) (detail : Json) (status : Option Nat) :
    Upholds reply (Standing P J) allowed (sayNotShown hash detail status) := by
  unfold sayNotShown
  split
  · exact upholds_showing _ _
  · exact upholds_sayRefusal detail status

/-- A hash without an address is not even asked for. -/
theorem outcome_comment_unaddressable {hash : String} (h : ¬Addressable hash) (server : σ) :
    (Client.comment hash).outcome reply server = (.error .badAddress, server) := by
  have hnone : Target.ofReference? ("/comments/".toList ++ hash.toList) = none := by
    simpa [Addressable] using h
  rw [Client.comment, hnone]
  rfl

/-- Nor are the threads of a post that fits into no address. -/
theorem outcome_threads_unaddressable {post : String}
    (h : Target.ofField? "/comments" "post_id" post = none) (server : σ) :
    (Client.threads post).outcome reply server = (.error .badAddress, server) := by
  rw [Client.threads, h]
  rfl

theorem outcome_lookup_unaddressable {hash : String} (h : ¬Addressable hash)
    (next : Detail → Session Unit) (refused : Json → Option Nat → Session Unit) (s : Scene σ) :
    (exchange (Client.comment hash) next refused).outcome reply s =
      (.error (.exchange .badAddress), s) :=
  outcome_exchange_badAddress (outcome_comment_unaddressable h s.server)

/-- What is known when a comment is looked up, whether or not it has an address. -/
theorem upholds_lookup (h : SupportsReading reply setup J allowed) {hash : String}
    (haddress : Addressable hash ∨ allowed (.exchange .badAddress)) {next : Detail → Session Unit}
    (hnext : ∀ c, Shown allowed setup c.summary →
      (∀ d, c.updated = some d → Datable allowed setup d) →
      Upholds reply (Standing P J) allowed (next c)) :
    Upholds reply (Standing P J) allowed
      (exchange (Client.comment hash) next (sayNotShown hash)) := by
  by_cases hsome : Addressable hash
  · refine upholds_asking (h.comment hash hsome) (fun c s hprompt hgood => ?_)
      (upholds_sayNotShown hash)
    exact hnext c hgood.2.1 hgood.2.2 s ⟨hprompt, hgood.1⟩
  · intro s hs
    exact upheldAt_of_error (outcome_lookup_unaddressable hsome next _ s) hs
      (haddress.resolve_left hsome)

/-- What is said of a comment behind its hash and the one it answers. -/
theorem upholds_sayDetail {c : Detail} (hsummary : Shown allowed setup c.summary)
    (hupdated : ∀ d, c.updated = some d → Datable allowed setup d) :
    Upholds reply (Standing P J) allowed (do
      say ("Author: " ++ c.summary.author)
      say ("Date:   " ++ (← dateLine setup c.summary.date))
      if let some updated := c.updated then say ("Edited: " ++ (← dateLine setup updated))
      say ""
      sayMessage "    " c.summary.message) := by
  refine upholds_bind (upholds_showing _ _) fun _ => ?_
  refine upholds_bind (upholds_dateLine hsummary.date) fun date => ?_
  refine upholds_bind (upholds_showing _ _) fun _ => ?_
  have hend : Upholds reply (Standing P J) allowed (do
      say ""
      sayMessage "    " c.summary.message) :=
    upholds_bind (upholds_showing _ _) fun _ => upholds_sayMessage sparesShown_standing _ _
  cases hdate : c.updated with
  | none => exact hend
  | some d =>
    refine upholds_bind (upholds_dateLine (hupdated d hdate)) fun date => ?_
    exact upholds_bind (upholds_showing _ _) fun _ => hend

theorem upholds_inspect (h : SupportsReading reply setup J allowed) {hash : String}
    (haddress : Addressable hash ∨ allowed (.exchange .badAddress)) :
    Upholds reply (Standing P J) allowed (inspect setup hash) := by
  refine upholds_lookup h haddress fun c hsummary hupdated => ?_
  refine upholds_bind (upholds_showing _ _) fun _ => ?_
  cases c.parent.bind RawText.nonEmpty? with
  | none => exact upholds_sayDetail hsummary hupdated
  | some parent =>
    exact upholds_bind (upholds_showing _ _) fun _ => upholds_sayDetail hsummary hupdated

end Standing

/-! ## Prompts -/

/-- A prompt holds what its step needs and nothing else, and what it has been told is fit
to be sent. -/
inductive Prompt.Sound (fit : RawText → Prop) : Prompt → Prop
  | idle : Sound fit .idle
  | author (name parent : Option String) : Sound fit (.author (typedName? name) parent)
  | password {name : RawText} (hname : fit name) (parent : Option String) :
    Sound fit (.password (.text name) parent)
  | message {name : RawText} (hname : fit name) {given : String} (hne : given ≠ "")
    (hstrip : strip given = given) (parent : Option String) :
    Sound fit (.message (.text name) given parent)
  | editPassword {hash : RawText} (hhash : fit hash) (hne : hash ≠ "") :
    Sound fit (.editPassword hash)
  | editMessage {hash given : RawText} (hhash : fit hash) (hne : hash ≠ "") (hgiven : fit given)
    (hgiven_ne : given ≠ "") : Sound fit (.editMessage hash given)
  | deletePassword {hash : RawText} (hhash : fit hash) (hne : hash ≠ "") :
    Sound fit (.deletePassword hash)

/-- A sound prompt that waits for a command holds nothing. -/
theorem Prompt.Sound.eq_idle {fit : RawText → Prop} {p : Prompt} (h : p.Sound fit)
    (hidle : p.isIdle = true) : p = .idle := by
  cases h with
  | idle => rfl
  | _ => cases hidle

section Prompts

variable {reply : Query → σ → Reply × σ} {setup : Setup} {J : StateFile → σ → Prop}
  {allowed : Fault → Prop} {fit : RawText → Prop} {s : Scene σ}

theorem upheldAt_enter {P : Prompt → Prop} (prompt : Prompt) (hprompt : P prompt)
    (h : J s.terminal.file s.server) :
    UpheldAt reply (Standing P J) allowed (enter prompt) s :=
  upheldAt_of_ok (outcome_enter prompt s) ⟨hprompt, h⟩

theorem upholds_rebase (h : Supports reply setup fit J allowed) {hash : String} (hhash : hash ≠ "")
    (haddress : Addressable hash ∨ allowed (.exchange .badAddress)) :
    Upholds reply (Standing (Prompt.Sound fit) J) allowed (rebase hash) := by
  refine upholds_lookup h.reading haddress fun c _ _ => ?_
  intro s hs
  have hne : (hash : RawText) ≠ "" := fun hempty => hhash (RawText.plain.inj hempty)
  refine upheldAt_bind_ok (outcome_remembered? hash s) ?_
  cases hfound : (s.terminal.file.reflog.get? hash).filter Json.isGiven with
  | none => exact upheldAt_enter _ (.editPassword (h.typed hash) hne) hs.kept
  | some password =>
    obtain ⟨p, rfl, hfit, hp⟩ := StateFile.given_text (h.texts _ _ hs.kept).reflog hfound
    exact upheldAt_enter _ (.editMessage (h.typed hash) hne hfit hp) hs.kept

theorem upholds_resetFull (h : Supports reply setup fit J allowed) {hash : RawText}
    (hhash : fit hash) (hne : hash ≠ "") :
    Upholds reply (Standing (Prompt.Sound fit) J) allowed (resetFull setup hash) := by
  intro s hs
  refine upheldAt_bind_ok (outcome_remembered? hash s) ?_
  cases hfound : (s.terminal.file.reflog.get? hash).filter Json.isGiven with
  | none => exact upheldAt_enter _ (.deletePassword hhash hne) hs.kept
  | some password =>
    obtain ⟨p, rfl, hfit, -⟩ := StateFile.given_text (h.texts _ _ hs.kept).reflog hfound
    exact upholds_delete h hash p hhash hfit false s hs

theorem ne_empty_of_startsWith {t : RawText} {start : String} (h : t.startsWith start = true)
    (hstart : start ≠ "") : t ≠ "" := by
  rintro rfl
  cases hchars : start.toList with
  | nil => exact hstart (String.toList_eq_nil_iff.mp hchars)
  | cons c rest => simp [RawText.startsWith, startsWith, hchars, afterStart?] at h

theorem upholds_reset (h : Supports reply setup fit J allowed) {hash : String} (hhash : hash ≠ "") :
    Upholds reply (Standing (Prompt.Sound fit) J) allowed (reset setup hash) := by
  unfold reset
  split
  · exact upholds_resetFull h (h.typed hash) fun hempty => hhash (RawText.plain.inj hempty)
  · refine upholds_asking h.threads (fun ts s hprompt hgood => ?_) upholds_sayRefusal
    split
    · next c hc =>
      have hstart := List.find?_some hc
      exact upholds_resetFull h (hgood.2.2 c (List.mem_of_find?_eq_some hc))
        (ne_empty_of_startsWith hstart hhash) s ⟨hprompt, hgood.1⟩
    · exact upholds_showing _ _ s ⟨hprompt, hgood.1⟩

theorem upholds_commit (h : Supports reply setup fit J allowed) (draft : Draft) :
    Upholds reply (Standing (Prompt.Sound fit) J) allowed (commit setup draft) := by
  unfold commit
  intro s hs
  split
  · exact upheldAt_enter _ (.author draft.author draft.parent) hs.kept
  · split
    · exact upholds_showing _ _ s hs
    · obtain ⟨a, ha, hfit⟩ := chosenAuthor_fit setup draft.author h.typed (h.texts _ _ hs.kept)
      refine upheldAt_bind_ok (outcome_chooseAuthor (typedName? draft.author) s) ?_
      rw [ha]
      refine upholds_create h a hfit _ (fun given hgiven => ?_) _ _ s hs
      obtain ⟨p, -, rfl⟩ := Option.map_eq_some_iff.mp hgiven
      exact h.typed p

/-! ## Any line -/

/-- The hash that a command looks up before anything else. -/
def lookedUp? : Command → Option String
  | .inspect hash | .rebase hash => some hash
  | _ => none

theorem upholds_carryOut (h : Supports reply setup fit J allowed) {command : Command}
    (hnamed : command.Named)
    (haddress : ∀ hash ∈ lookedUp? command, Addressable hash ∨ allowed (.exchange .badAddress)) :
    Upholds reply (Standing (Prompt.Sound fit) J) allowed (carryOut setup command) := by
  cases command with
  | help => exact upholds_showing _ _
  | log oneline => exact upholds_log h.reading oneline
  | commit draft => exact upholds_commit h draft
  | inspect hash => exact upholds_inspect h.reading (haddress hash rfl)
  | rebase hash => exact upholds_rebase h hnamed (haddress hash rfl)
  | reset hash => exact upholds_reset h hnamed
  | config key value => exact upholds_config h key value
  | reflog => exact upholds_reflog h.reading
  | mistaken mistake => exact upholds_showing _ _

theorem upholds_unlessBlank {Inv : Scene σ → Prop} {answer complaint : String}
    {next : Session Unit} (hblank : Upholds reply Inv allowed (sayError complaint))
    (hnext : answer ≠ "" → Upholds reply Inv allowed next) :
    Upholds reply Inv allowed (unlessBlank answer complaint next) := by
  unfold unlessBlank
  split
  · exact hblank
  · next hne => exact hnext hne

/-! The answers to the prompts of the steps. -/

theorem takeAnswer_editPassword (setup : Setup) (answer : String) (hash : RawText) :
    takeAnswer setup answer (.editPassword hash) =
      unlessBlank answer passwordRequired (enter (.editMessage hash answer)) := rfl

theorem takeAnswer_editMessage (setup : Setup) (answer : String) (hash secret : RawText) :
    takeAnswer setup answer (.editMessage hash secret) =
      unlessBlank answer messageRequired
        (resetPrompt >>= fun _ => update setup (some hash) (some secret) answer) := rfl

theorem takeAnswer_deletePassword (setup : Setup) (answer : String) (hash : RawText) :
    takeAnswer setup answer (.deletePassword hash) =
      unlessBlank answer passwordRequired
        (resetPrompt >>= fun _ => delete setup (some hash) (.text answer) true) := rfl

/-- An answer is taken at a prompt that is sound. The prompt is left before anything
is sent, so what the requests uphold is not about it. -/
theorem upholds_takeAnswer (h : Supports reply setup fit J allowed) {prompt : Prompt}
    (hprompt : prompt.Sound fit) {answer : String} (hanswer : strip answer = answer) :
    Upholds reply (Standing (Prompt.Sound fit) J) allowed (takeAnswer setup answer prompt) := by
  have hidle {next : Session Unit}
      (hnext : Upholds reply (Standing (Prompt.Sound fit) J) allowed next) :
      Upholds reply (Standing (Prompt.Sound fit) J) allowed (resetPrompt >>= fun _ => next) :=
    upholds_bind (fun s hs => upheldAt_enter .idle .idle hs.kept) fun _ => hnext
  have hfit : fit answer := h.typed answer
  cases hprompt with
  | idle => exact upholds_pure ()
  | author author parent =>
    intro s hs
    simp only [takeAnswer]
    split
    · obtain ⟨a, ha, hname⟩ := chosenAuthor_fit setup author h.typed (h.texts _ _ hs.kept)
      refine upheldAt_bind_ok (outcome_chooseAuthor (typedName? author) s) ?_
      refine upheldAt_bind_ok (outcome_print _ _ _) ?_
      rw [ha]
      exact upheldAt_enter _ (.password hname parent) hs.kept
    · exact upheldAt_enter _ (.password hfit parent) hs.kept
  | password hname parent =>
    refine upholds_unlessBlank (upholds_showing _ _) fun hne s hs => ?_
    exact upheldAt_enter _ (.message hname hne hanswer parent) hs.kept
  | @message name hname given hne hstrip parent =>
    refine upholds_unlessBlank (upholds_showing _ _) fun _ => hidle
      (upholds_create h _ hname _ ?_ _ _)
    rintro _ ⟨⟩
    exact h.typed given
  | editPassword hhash hne =>
    refine upholds_unlessBlank (upholds_showing _ _) fun hanswer_ne s hs => ?_
    exact upheldAt_enter _ (.editMessage hhash hne hfit
      fun hempty => hanswer_ne (RawText.plain.inj hempty)) hs.kept
  | editMessage hhash hne hgiven hgiven_ne =>
    exact upholds_unlessBlank (upholds_showing _ _) fun _ =>
      hidle (upholds_update h _ _ hhash hgiven _)
  | deletePassword hhash hne =>
    exact upholds_unlessBlank (upholds_showing _ _) fun _ => hidle
      (upholds_delete h _ _ hhash hfit _)

theorem upholds_answer (h : Supports reply setup fit J allowed) {prompt : Prompt}
    (hprompt : prompt.Sound fit) (line : String) :
    Upholds reply (Standing (Prompt.Sound fit) J) allowed (answer setup prompt line) :=
  upholds_bind (upholds_showing _ _) fun _ => upholds_takeAnswer h hprompt (strip_strip line)

/-- A line is a command to an idle terminal, which does nothing at one that asks for
nothing, and an answer at any other prompt. -/
theorem feed_eq (s : Scene σ) (line : String) :
    (feed setup line).outcome reply s =
      if s.terminal.prompt.isIdle then
        match Command.ofLine? line with
        | some command => (carryOut setup command).outcome reply
            (s.showing (idleText ++ " " ++ strip line : String) .command)
        | none => (.ok (), s)
      else (answer setup s.terminal.prompt line).outcome reply s := by
  unfold feed
  rw [outcome_bind_ok (outcome_get s)]
  simp only
  split
  · cases Command.ofLine? line <;> rfl
  · rfl

/-- Taking a line upholds what carrying out its command, or its prompt, does. -/
theorem upholds_feed (h : Supports reply setup fit J allowed) (line : String)
    (hs : Standing (Prompt.Sound fit) J s)
    (haddress : s.terminal.prompt.isIdle = true → ∀ command ∈ Command.ofLine? line,
      ∀ hash ∈ lookedUp? command, Addressable hash ∨ allowed (.exchange .badAddress)) :
    UpheldAt reply (Standing (Prompt.Sound fit) J) allowed (feed setup line) s := by
  rw [UpheldAt, feed_eq]
  split
  next hidle =>
    cases hcommand : Command.ofLine? line with
    | none => exact ⟨hs, fun fault hfault => by cases hfault⟩
    | some command =>
      exact upholds_carryOut h (Command.named_of_ofLine? hcommand)
        (haddress hidle command hcommand) _ ⟨hs.prompt, hs.kept⟩
  next => exact upholds_answer h hs.prompt line s hs

end Prompts

end CommentThreads.Terminal
