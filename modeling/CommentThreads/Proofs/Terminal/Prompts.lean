/-
CommentThreads.Proofs.Terminal.Prompts — a terminal moves from prompt to prompt
in order, whatever is typed and whatever the server does.

`orderly_of_listen` — after any lines a prompt holds what its step needs and
nothing else (`Orderly`), and a line that is taken at a prompt is an answer to it
(`Advances`): a blank one is asked for again, unless it is for the author, and any
other leads one step on. The terminal is idle before anything is sent, so this
holds also where a line ends in a fault.
-/
import CommentThreads.Proofs.Terminal.Commands

namespace CommentThreads.Terminal

open CommentThreads.Client CommentThreads.Text

variable {σ : Type}

/-! ## Steps, and what is held at them -/

/-- The step after an answer. -/
def Step.next : Step → Step
  | .author => .password
  | .password => .message
  | .editPassword => .editMessage
  | .idle | .message | .editMessage | .deletePassword => .idle

theorem next_ne {step : Step} (h : step ≠ .idle) : step.next ≠ step := by
  cases step with
  | idle => exact absurd rfl h
  | _ => decide

namespace Prompt

theorem isIdle_eq_false_iff (p : Prompt) : p.isIdle = false ↔ p.step ≠ .idle :=
  decide_eq_false_iff_not

/-- At each step a prompt holds what has been answered, in a form that can be
sent, and nothing else. -/
structure Orderly (p : Prompt) : Prop where
  idle : p.step = .idle → p.name = none ∧ p.secret = none ∧ p.parent = none ∧ p.hash = none
  author : p.step = .author → p.secret = none ∧ p.hash = none
  password : p.step = .password →
    (∃ name, p.name = some (.text name)) ∧ p.secret = none ∧ p.hash = none
  message : p.step = .message →
    (∃ name, p.name = some (.text name)) ∧
      (∃ given : String, p.secret = some (given : RawText) ∧ isBlankText given = false ∧
        strip given = given) ∧
      p.hash = none
  changing : p.step = .editPassword ∨ p.step = .deletePassword →
    (∃ hash, p.hash = some hash ∧ hash ≠ "") ∧
      p.secret = none ∧ p.name = none ∧ p.parent = none
  editMessage : p.step = .editMessage →
    (∃ hash, p.hash = some hash ∧ hash ≠ "") ∧ ∃ given, p.secret = some given ∧ given ≠ ""

theorem orderly_of_sound {fit : RawText → Prop} {p : Prompt} (h : p.Sound fit) : p.Orderly := by
  cases h with
  | idle => constructor <;> simp
  | author name parent => constructor <;> simp
  | password hname parent => constructor <;> simp
  | message hname hne hstrip parent =>
    have hblank : isBlankText _ = false := (strip_ne_empty_iff _).mp (hstrip.symm ▸ hne)
    constructor <;> simp [hblank, hstrip]
  | editPassword hhash hne => constructor <;> simp [hne]
  | editMessage hhash hne hgiven hgiven_ne => constructor <;> simp [hne, hgiven_ne]
  | deletePassword hhash hne => constructor <;> simp [hne]

/-- The prompt after an answer. Where no author is answered, one is chosen. -/
def after (choose : Option Json → Json) (answer : String) (p : Prompt) : Prompt :=
  match p.step with
  | .author =>
    { p with step := .password, name := some (if answer = "" then choose p.name else .text answer) }
  | .password => { p with step := .message, secret := some answer }
  | .editPassword => { p with step := .editMessage, secret := some answer }
  | .idle | .message | .editMessage | .deletePassword => {}

theorem step_after (choose : Option Json → Json) (answer : String) (p : Prompt) :
    (p.after choose answer).step = p.step.next := by
  unfold after
  split <;> next hstep => rw [hstep]; rfl

end Prompt

/-! ## One line -/

section OneLine

variable {reply : Query → σ → Reply × σ} {setup : Setup}

/-- Two scenes that differ at most in what was printed. -/
structure Alike (s s' : Scene σ) : Prop where
  prompt : s'.terminal.prompt = s.terminal.prompt
  file : s'.terminal.file = s.terminal.file
  server : s'.server = s.server

theorem Alike.trans {s s' s'' : Scene σ} (h : Alike s s') (h' : Alike s' s'') : Alike s s'' :=
  ⟨h'.prompt.trans h.prompt, h'.file.trans h.file, h'.server.trans h.server⟩

/-- A blank answer leaves a prompt that asks for a password or a message. -/
theorem alike_of_blank {s : Scene σ} {line : String} (hline : isBlankText line = true)
    (hidle : s.terminal.prompt.step ≠ .idle) (hauthor : s.terminal.prompt.step ≠ .author) :
    Alike s ((feed setup line).outcome reply s).2 := by
  have hblank : strip line = "" := (strip_eq_empty_iff line).mpr hline
  rw [feed_eq, (Prompt.isIdle_eq_false_iff _).mpr hidle, if_neg Bool.false_ne_true, answer,
    outcome_bind_ok (outcome_print _ _ _), hblank, takeAnswer]
  split
  next hstep => exact absurd hstep hidle
  next hstep => exact absurd hstep hauthor
  all_goals exact ⟨rfl, rfl, rfl⟩

/-- A command that an idle terminal is given is carried out. -/
theorem feed_idle {s : Scene σ} (hidle : s.terminal.prompt.isIdle = true) {line : String}
    {command : Command} (hline : Command.ofLine? line = some command) :
    (feed setup line).outcome reply s = (carryOut setup command).outcome reply
      (s.showing (idleText ++ " " ++ strip line : String) .command) := by
  rw [feed_eq, if_pos hidle]
  simp only [hline]

theorem feed_command {s : Scene σ} (hidle : s.terminal.prompt = .idle) {line : String}
    {command : Command} (hline : Command.ofLine? line = some command) :
    (feed setup line).outcome reply s = (carryOut setup command).outcome reply
      (s.showing (idleText ++ " " ++ strip line : String) .command) :=
  feed_idle (congrArg Prompt.isIdle hidle) hline

theorem feed_answer {s : Scene σ} {prompt : Prompt} (hprompt : s.terminal.prompt = prompt)
    (hidle : prompt.isIdle = false) (line : String) :
    (feed setup line).outcome reply s = (takeAnswer setup (strip line) prompt).outcome reply
      (s.showing (prompt.text ++ " " ++ shownAnswer prompt (strip line) : String) .command) := by
  rw [feed_eq, hprompt, hidle, if_neg Bool.false_ne_true]
  exact outcome_bind_ok (outcome_print _ _ s)

/-- An answer that is not blank is gone on with. -/
theorem feed_given {s : Scene σ} {prompt : Prompt} (hprompt : s.terminal.prompt = prompt)
    (hidle : prompt.isIdle = false) {line complaint : String} {next : Session Unit}
    (htaken : takeAnswer setup (strip line) prompt = unlessBlank (strip line) complaint next)
    (hline : strip line ≠ "") :
    (feed setup line).outcome reply s = next.outcome reply
      (s.showing (prompt.text ++ " " ++ shownAnswer prompt (strip line) : String) .command) := by
  rw [feed_answer hprompt hidle, htaken, unlessBlank, if_neg hline]

/-- What is sent is sent by an idle terminal. -/
theorem feed_sending {s : Scene σ} {prompt : Prompt} (hprompt : s.terminal.prompt = prompt)
    (hidle : prompt.isIdle = false) {line complaint : String} {next : Session Unit}
    (htaken : takeAnswer setup (strip line) prompt =
      unlessBlank (strip line) complaint (resetPrompt >>= fun _ => next))
    (hline : strip line ≠ "") :
    (feed setup line).outcome reply s = next.outcome reply
      ((s.showing (prompt.text ++ " " ++ shownAnswer prompt (strip line) : String)
        .command).atPrompt .idle) := by
  rw [feed_given hprompt hidle htaken hline, resetPrompt, outcome_bind_ok (outcome_enter _ _)]

end OneLine

/-! ## Any server -/

section Listening

variable {reply : Query → σ → Reply × σ} {setup : Setup}

/-- Whoever answers, and however, only texts are remembered. -/
theorem supports_texts (reply : Query → σ → Reply × σ) (setup : Setup) :
    Supports reply setup (fun _ => True) (fun file _ => file.OnlyTexts) fun _ => True where
  typed _ := trivial
  texts _ _ h := h
  threads _ _ h := endsAt_of_any
    (fun _ _ _ => ⟨h, fun _ _ => ⟨⟨fun _ => trivial, fun _ _ => trivial⟩,
      fun _ _ => ⟨fun _ => trivial, fun _ _ => trivial⟩⟩, fun _ _ => trivial⟩)
    (fun _ _ _ => h) fun _ => trivial
  comment _ _ _ _ h := endsAt_of_any
    (fun _ _ _ => ⟨h, ⟨fun _ => trivial, fun _ _ => trivial⟩, fun _ _ _ _ => trivial⟩)
    (fun _ _ _ => h) fun _ => trivial
  create _ _ _ _ _ _ h _ _ := endsAt_of_any
    (fun receipt _ _ => ⟨h, fun _ _ =>
      ⟨StateFile.onlyTextsOf_remember h receipt.hash trivial, fun _ _ => trivial⟩⟩)
    (fun _ _ _ => h) fun _ => trivial
  update _ _ _ _ _ h _ _ := endsAt_of_any (fun _ _ _ => h) (fun _ _ _ => h) fun _ => trivial
  delete hash _ _ _ h _ _ := endsAt_of_any
    (fun _ _ _ => ⟨StateFile.onlyTextsOf_forgetKey h (.text hash), fun _ _ => trivial⟩)
    (fun _ _ _ => h) fun _ => trivial
  setConfig key _ _ _ h := ⟨StateFile.onlyTextsOf_setConfig h key trivial, fun _ _ => trivial⟩

/-- A terminal that has lines typed at it, one after the other. A fault ends what
is done at a line, and the next line is taken all the same. -/
def listen (reply : Query → σ → Reply × σ) (setup : Setup) : List String → Scene σ → Scene σ
  | [], s => s
  | line :: rest, s => listen reply setup rest ((feed setup line).outcome reply s).2

/-- The prompts of a terminal are sound, and only texts are remembered. -/
def Composed (s : Scene σ) : Prop :=
  Standing (Prompt.Sound fun _ => True) (fun file _ => file.OnlyTexts) s

theorem composed_feed {s : Scene σ} (h : Composed s) (line : String) :
    Composed ((feed setup line).outcome reply s).2 :=
  (upholds_feed (supports_texts reply setup) line h fun _ _ _ _ _ => .inr trivial).1

theorem composed_listen (lines : List String) {s : Scene σ} (h : Composed s) :
    Composed (listen reply setup lines s) := by
  induction lines generalizing s with
  | nil => exact h
  | cons line rest ih => exact ih (composed_feed h line)

/-! ## Answers -/

/-- What is sent is sent by an idle terminal, which stays so. -/
theorem prompt_sending {next : Session Unit} {s : Scene σ} (h : s.terminal.file.OnlyTexts)
    (hnext : Upholds reply (Standing (· = .idle) fun file _ => file.OnlyTexts)
      (fun _ => True) next) :
    (Session.outcome reply (resetPrompt >>= fun _ => next) s).2.terminal.prompt = .idle := by
  rw [resetPrompt, outcome_bind_ok (outcome_enter .idle s)]
  exact (hnext (s.atPrompt .idle) ⟨rfl, h⟩).1.prompt

/-- Where an answer leads: a blank one is asked for again, unless an author can be
chosen in its place. -/
theorem prompt_takeAnswer {s : Scene σ} (h : Composed s) (answer : String) :
    ((takeAnswer setup answer s.terminal.prompt).outcome reply s).2.terminal.prompt =
      if answer = "" ∧ s.terminal.prompt.step ≠ .author then s.terminal.prompt
      else s.terminal.prompt.after (chosenAuthor setup · s.terminal.file) answer := by
  have hsupports := supports_texts reply setup
  have hblank (complaint : String) (next : Session Unit) :
      ((unlessBlank answer complaint next).outcome reply s).2.terminal.prompt =
        if answer = "" then s.terminal.prompt else (next.outcome reply s).2.terminal.prompt := by
    unfold unlessBlank
    split <;> rfl
  have hsound := h.prompt
  generalize hprompt : s.terminal.prompt = p at hsound hblank ⊢
  cases hsound with
  | idle =>
    rw [takeAnswer, outcome_pure, hprompt]
    simp [Prompt.after]
  | author name parent =>
    rw [if_neg (by simp), takeAnswer, Prompt.after]
    by_cases hskip : answer = ""
    · rw [if_pos hskip, if_pos hskip, outcome_bind_ok (outcome_chooseAuthor (typedName? name) s)]
      rfl
    · rw [if_neg hskip, if_neg hskip]
      rfl
  | password hname parent =>
    simp only [takeAnswer, hblank, Prompt.after]
    simp [Scene.atPrompt]
  | @message name hname given hne hstrip parent =>
    have hsent := prompt_sending h.kept (upholds_create hsupports name trivial
      (some (given : RawText)) (fun _ _ => trivial) answer parent)
    simp only [takeAnswer, hblank, Option.getD_some, hsent, Prompt.after]
    simp
  | editPassword hhash hne =>
    simp only [takeAnswer, hblank, Prompt.after]
    simp [Scene.atPrompt]
  | @editMessage hash given hhash hne hgiven hgiven_ne =>
    have hsent := prompt_sending h.kept
      (upholds_update hsupports hash given trivial trivial answer)
    simp only [takeAnswer, hblank, hsent, Prompt.after]
    simp
  | @deletePassword hash hhash hne =>
    have hsent := prompt_sending h.kept
      (upholds_delete hsupports hash (answer : RawText) trivial trivial true)
    simp only [takeAnswer, hblank, hsent, Prompt.after]
    simp

/-- A line at a prompt is an answer, and leads on in the order of the steps unless
it is asked for again. -/
structure Advances (reply : Query → σ → Reply × σ) (setup : Setup) (line : String)
    (s s' : Scene σ) :
    Prop where
  answers : (feed setup line).outcome reply s =
    (answer setup s.terminal.prompt line).outcome reply s
  again_iff : s'.terminal.prompt = s.terminal.prompt ↔
    isBlankText line = true ∧ s.terminal.prompt.step ≠ .author
  forward : s'.terminal.prompt ≠ s.terminal.prompt →
    s'.terminal.prompt.step = s.terminal.prompt.step.next ∧
      s'.terminal.prompt =
        s.terminal.prompt.after (chosenAuthor setup · s.terminal.file) (strip line)

theorem advances_feed {s : Scene σ} (h : Composed s) (hprompt : s.terminal.prompt.step ≠ .idle)
    (line : String) :
    Advances reply setup line s ((feed setup line).outcome reply s).2 := by
  have hanswers : (feed setup line).outcome reply s =
      (answer setup s.terminal.prompt line).outcome reply s := by
    rw [feed_eq, (Prompt.isIdle_eq_false_iff _).mpr hprompt, if_neg Bool.false_ne_true]
  have hnext : ((feed setup line).outcome reply s).2.terminal.prompt =
      if strip line = "" ∧ s.terminal.prompt.step ≠ .author then s.terminal.prompt
      else s.terminal.prompt.after (chosenAuthor setup · s.terminal.file) (strip line) := by
    have hshown : Composed (s.showing (s.terminal.prompt.text ++ " " ++
        shownAnswer s.terminal.prompt (strip line) : String) .command) := ⟨h.prompt, h.kept⟩
    rw [hanswers, answer, outcome_bind_ok (outcome_print _ _ s)]
    exact prompt_takeAnswer hshown (strip line)
  simp only [strip_eq_empty_iff] at hnext
  have hmoves : s.terminal.prompt.after (chosenAuthor setup · s.terminal.file) (strip line) ≠
      s.terminal.prompt := by
    intro hsame
    have hstep := congrArg Prompt.step hsame
    rw [Prompt.step_after] at hstep
    exact next_ne hprompt hstep
  constructor
  · exact hanswers
  · rw [hnext]
    split
    · next hagain => exact ⟨fun _ => hagain, fun _ => rfl⟩
    · next hforward => exact ⟨fun hsame => absurd hsame hmoves, fun h => absurd h hforward⟩
  · rw [hnext]
    split
    · exact fun hmoved => absurd rfl hmoved
    · exact fun _ => ⟨Prompt.step_after _ _ _, rfl⟩

/-- After any lines, and whatever the server has done, the prompt holds what its
step needs and nothing else; and any line at a prompt is an answer. -/
theorem orderly_of_listen (reply : Query → σ → Reply × σ) (setup : Setup) {file : StateFile}
    (hfile : file.OnlyTexts) (server : σ) (lines : List String) :
    let s := listen reply setup lines ⟨.start file, server⟩
    s.terminal.prompt.Orderly ∧
      (s.terminal.prompt.step ≠ .idle →
        ∀ line, Advances reply setup line s ((feed setup line).outcome reply s).2) := by
  intro s
  have hstart : Composed (⟨.start file, server⟩ : Scene σ) := ⟨.idle, hfile⟩
  have hcomposed : Composed s := composed_listen lines hstart
  exact ⟨Prompt.orderly_of_sound hcomposed.prompt, fun hprompt line =>
    advances_feed hcomposed hprompt line⟩

/-- A commit at a terminal whose server is out of reach, as far as the message. -/
theorem orderly_of_listen_unreachable :
    let file : StateFile := ⟨.memory, [(.text "user.name", .text "Ada")], []⟩
    let reply : Query → Unit → Reply × Unit := fun _ s => (.unreachable, s)
    let setup : Setup := ⟨"intro", "guest", 0⟩
    let s := listen reply setup ["git commit", "", "secret"] ⟨.start file, ()⟩
    file.OnlyTexts ∧ s.terminal.prompt.step = .message ∧ s.terminal.prompt.Orderly ∧
      (s.terminal.prompt.step ≠ .idle →
        ∀ line, Advances reply setup line s ((feed setup line).outcome reply s).2) := by
  intro file reply setup s
  have hfile : file.OnlyTexts :=
    ⟨List.forall_mem_singleton.mpr ⟨"Ada", rfl, trivial⟩, List.forall_mem_nil _⟩
  have hmessage : s.terminal.prompt.step = .message := by decide +kernel
  exact ⟨hfile, hmessage, orderly_of_listen reply setup hfile () _⟩

end Listening

end CommentThreads.Terminal
