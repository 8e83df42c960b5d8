/-
CommentThreads.Proofs.CommandLine.Loop — the command line is the terminal with a screen.

The loop hands the lines of its input to a terminal, one after the other. What a line
means depends on the prompt that it is typed at, so what the loop does is told line by
line (`Visit`), and how it ends is told from the prompt that it ends at (`Ending`).

* `shown_eq` — what is on the screen of a printed line. On a screen without styles the
  escape sequences of the text itself are taken out as well.
* `outcome_showLines` — printed lines are shown up to one that cannot be written, and
  there the loop stops.
* `conducts_takeLines` — by induction on the lines, for any console: the lines that are
  handed on are those that `listen` takes, the screen has what is typed and what is
  printed, and an entry leaves the history for each answer that is not secret.

`conducts_converse` is the result, for any input. Nothing is assumed of the server.
-/
import CommentThreads.CommandLine.Loop
import CommentThreads.Proofs.Terminal.Show

namespace CommentThreads.CommandLine

open CommentThreads.Terminal CommentThreads.Text
open CommentThreads.Client (Dialogue Query Reply)

/-! ## A printed line on a screen -/

/-- The text of a line on a screen: between the sequences of its style, or without any
escape sequences where the screen has no styles. -/
def lineText (color : Bool) (kind : LineKind) (text : String) : List Char :=
  if color then ((colour? kind).map sequence).getD [] ++ text.toList ++ sequence "0"
  else stripSequences [] text.toList

/-- The sequence that takes styles back leaves nothing behind a text, even one that breaks
off in a sequence. -/
theorem stripSequences_reset (held text : List Char) :
    stripSequences held (text ++ sequence "0") = stripSequences held text := by
  induction text generalizing held with
  | nil => exact List.append_nil _
  | cons c rest ih =>
    rw [List.cons_append, stripSequences, stripSequences]
    simp only [ih]

theorem stripSequences_style (kind : LineKind) (text : List Char) :
    stripSequences [] (((colour? kind).map sequence).getD [] ++ text) = stripSequences [] text := by
  cases kind <;> rfl

theorem shown_eq (color : Bool) (kind : LineKind) (text : String) :
    shown color kind text = lineText color kind text ++ ['\n'] := by
  cases color with
  | true => rfl
  | false =>
    rw [shown, lineText, if_neg Bool.false_ne_true, if_neg Bool.false_ne_true, styled,
      List.append_assoc, stripSequences_style, stripSequences_reset]

/-- The lines that are meant for a screen, without the commands that the terminal
repeats. -/
def meant (printed : List Line) : List Line := printed.filter (·.kind ≠ .command)

/-- All lines that are meant for a screen can be written. -/
def AllWritten (printed : List Line) : Prop := ∀ line ∈ meant printed, line.text.isPlain = true

instance (printed : List Line) : Decidable (AllWritten printed) :=
  inferInstanceAs (Decidable (∀ line ∈ meant printed, line.text.isPlain = true))

/-- Some lines as they are written, each with a line feed, up to one that cannot be. -/
def written (color : Bool) : List Line → List Char
  | [] => []
  | ⟨kind, .plain text⟩ :: rest => lineText color kind text ++ '\n' :: written color rest
  | ⟨_, .torn ..⟩ :: _ => []

/-- What is on a screen of the lines that were printed. -/
def onScreen (color : Bool) (printed : List Line) : List Char := written color (meant printed)

/-! ## Steps of the loop -/

variable {σ α β : Type}

/-- A console, and the one who answers the requests of its terminal. -/
structure Stage (σ : Type) where
  console : Console
  server : σ

namespace Stage

/-- The terminal of a console, and the one who answers it. -/
def scene (c : Stage σ) : Scene σ := ⟨c.console.terminal, c.server⟩

/-- The stage with the terminal and the server of a scene. -/
def withScene (c : Stage σ) (s : Scene σ) : Stage σ :=
  ⟨{ c.console with terminal := s.terminal }, s.server⟩

/-- The stage with one more text on the screen. -/
def writing (c : Stage σ) (text : List Char) : Stage σ :=
  { c with console := { c.console with screen := c.console.screen ++ text } }

end Stage

section Outcome

variable {reply : Query → σ → Reply × σ}

/-- How a step of the loop ends, and the stage after it. -/
def Loop.outcome (reply : Query → σ → Reply × σ) (a : Loop α) (c : Stage σ) :
    Except Stop α × Stage σ :=
  let ended := Dialogue.run reply (a.run.run c.console) c.server
  (ended.1.1, ⟨ended.1.2, ended.2⟩)

theorem Loop.outcome_bind (a : Loop α) (f : α → Loop β) (c : Stage σ) :
    Loop.outcome reply (a >>= f) c =
      match a.outcome reply c with
      | (.ok x, c') => (f x).outcome reply c'
      | (.error stop, c') => (.error stop, c') := by
  simp only [Loop.outcome, run_bind_stateful]
  cases Dialogue.run reply (a.run.run c.console) c.server with
  | mk ended server =>
    obtain ⟨r, console⟩ := ended
    cases r <;> rfl

theorem Loop.outcome_bind_ok {a : Loop α} {f : α → Loop β} {c c' : Stage σ} {x : α}
    (h : a.outcome reply c = (.ok x, c')) :
    Loop.outcome reply (a >>= f) c = (f x).outcome reply c' := by
  rw [Loop.outcome_bind, h]

theorem Loop.outcome_get (c : Stage σ) : Loop.outcome reply get c = (.ok c.console, c) := rfl

theorem Loop.outcome_write (text : List Char) (c : Stage σ) :
    (write text).outcome reply c = (.ok (), c.writing text) := rfl

/-- What the terminal does at a step is done to the terminal of the console. -/
theorem outcome_atTerminal (reply : Query → σ → Reply × σ) (step : Session Unit) (c : Stage σ) :
    (atTerminal step).outcome reply c =
      ((step.outcome reply c.scene).1.mapError .failed,
        c.withScene (step.outcome reply c.scene).2) := by
  rw [atTerminal, Loop.outcome_bind_ok (Loop.outcome_get c)]
  have hlift : Loop.outcome reply (ExceptT.lift (StateT.lift (step.run.run c.console.terminal))) c =
      (.ok ((step.outcome reply c.scene).1, (step.outcome reply c.scene).2.terminal),
        ⟨c.console, (step.outcome reply c.scene).2.server⟩) := by
    rw [Loop.outcome, run_lift_stateful]
    rfl
  rw [Loop.outcome_bind_ok hlift]
  cases hended : step.outcome reply c.scene with
  | mk r s =>
    have hset : Loop.outcome reply (set { c.console with terminal := s.terminal })
        ⟨c.console, s.server⟩ = (.ok (), c.withScene s) := rfl
    simp only
    rw [Loop.outcome_bind_ok hset]
    cases r <;> rfl

/-- The loop writes lines up to one that cannot be written, and stops there. -/
theorem outcome_showLines (color : Bool) (lines : List Line) (c : Stage σ) :
    (showLines color lines).outcome reply c =
      (if ∀ line ∈ lines, line.text.isPlain = true then .ok () else .error .unwritable,
        c.writing (written color lines)) := by
  induction lines generalizing c with
  | nil =>
    rw [if_pos (List.forall_mem_nil _), written, Stage.writing, List.append_nil]
    rfl
  | cons line rest ih =>
    obtain ⟨kind, text⟩ := line
    cases text with
    | plain text =>
      have hhere : RawText.isPlain text = true := rfl
      rw [showLines, Loop.outcome_bind_ok (Loop.outcome_write _ c), ih, shown_eq, written]
      simp only [List.forall_mem_cons, hhere, true_and, Stage.writing, List.append_assoc,
        List.singleton_append]
    | torn start half after =>
      rw [if_neg (fun hall => Bool.false_ne_true (hall _ List.mem_cons_self)), written,
        Stage.writing, List.append_nil]
      rfl

/-- What a terminal prints at a step goes to the screen if the step goes well. -/
theorem outcome_showing (color : Bool) {step : Session Unit} {c : Stage σ} {s : Scene σ}
    (h : step.outcome reply c.scene = (.ok (), s)) {printed : List Line}
    (hprinted : s.terminal.output.drop c.console.terminal.output.length = printed) :
    (showing color step).outcome reply c =
      (if AllWritten printed then .ok () else .error .unwritable,
        (c.withScene s).writing (onScreen color printed)) := by
  have hstep := outcome_atTerminal reply step c
  rw [h] at hstep
  subst hprinted
  rw [showing, Loop.outcome_bind_ok (Loop.outcome_get c), Loop.outcome_bind_ok hstep,
    Loop.outcome_bind_ok (Loop.outcome_get _)]
  exact outcome_showLines color _ _

theorem outcome_showing_error (color : Bool) {step : Session Unit} {c : Stage σ} {s : Scene σ}
    {fault : Fault} (h : step.outcome reply c.scene = (.error fault, s)) :
    (showing color step).outcome reply c = (.error (.failed fault), c.withScene s) := by
  have hstep : (atTerminal step).outcome reply c = (.error (.failed fault), c.withScene s) := by
    rw [outcome_atTerminal, h]
    rfl
  rw [showing, Loop.outcome_bind_ok (Loop.outcome_get c), Loop.outcome_bind, hstep]

end Outcome

/-! ## The history -/

/-- The places of the last entries of a history, the last one first. -/
def lastPlaces : Option Nat → Nat → List Nat
  | none, _ => []
  | some length, n => (List.range length).reverse.take n

/-- A history loses its last entries some at a time. -/
theorem lastPlaces_add (history : Option Nat) (n m : Nat) :
    lastPlaces history (n + m) = lastPlaces history n ++ lastPlaces (history.map (· - n)) m := by
  cases history with
  | none => rfl
  | some length =>
    have hdrop : (List.range length).reverse.drop n = (List.range (length - n)).reverse := by
      rw [List.drop_reverse, List.length_range, List.take_range, Nat.min_eq_left (Nat.sub_le _ _)]
    rw [lastPlaces, List.take_add, hdrop]
    rfl

/-- The stage without the last entries of its history. -/
def Stage.forgetting (c : Stage σ) (n : Nat) : Stage σ :=
  { c with console := { c.console with
      history := c.console.history.map (· - n)
      removed := c.console.removed ++ lastPlaces c.console.history n } }

theorem Stage.forgetting_zero (c : Stage σ) : c.forgetting 0 = c := by
  obtain ⟨⟨terminal, history, removed, screen⟩, server⟩ := c
  cases history <;> simp [Stage.forgetting, lastPlaces]

theorem outcome_forgetLast (reply : Query → σ → Reply × σ) (c : Stage σ) :
    forgetLast.outcome reply c = (.ok (), c.forgetting 1) := by
  obtain ⟨⟨terminal, history, removed, screen⟩, server⟩ := c
  rcases history with _ | _ | length
  · have hkept : forgetLast.outcome reply ⟨⟨terminal, none, removed, screen⟩, server⟩ =
        (.ok (), ⟨⟨terminal, none, removed, screen⟩, server⟩) := rfl
    simp [hkept, Stage.forgetting, lastPlaces]
  · have hkept : forgetLast.outcome reply ⟨⟨terminal, some 0, removed, screen⟩, server⟩ =
        (.ok (), ⟨⟨terminal, some 0, removed, screen⟩, server⟩) := rfl
    simp [hkept, Stage.forgetting, lastPlaces]
  · have hlast : forgetLast.outcome reply
        ⟨⟨terminal, some (length + 1), removed, screen⟩, server⟩ =
          (.ok (), ⟨⟨terminal, some length, removed ++ [length], screen⟩, server⟩) := rfl
    simp [hlast, Stage.forgetting, lastPlaces, List.range_succ]

/-! ## What is conducted -/

/-- An idle terminal is told to end. -/
def Leaves (prompt : Prompt) (line : String) : Prop :=
  prompt.step = .idle ∧ (strip line = "exit" ∨ strip line = "quit")

theorem leaves_iff (prompt : Prompt) (line : String) :
    (prompt.isIdle && exitWords.contains (strip line)) = true ↔ Leaves prompt line := by
  simp [Leaves, Prompt.isIdle, exitWords]

/-- A line that is handed to the terminal: the prompt that it was typed at, and what the
terminal printed at it. -/
structure Visit where
  prompt : Prompt
  line : String
  printed : List Line

/-- A line that is handed to the terminal in a scene. -/
def visit (reply : Query → σ → Reply × σ) (setup : Setup) (s : Scene σ) (line : String) : Visit :=
  let s' := ((feed setup line).outcome reply s).2
  ⟨s.terminal.prompt, line, s'.terminal.output.drop s.terminal.output.length⟩

/-- What some lines do one after the other. -/
def visits (reply : Query → σ → Reply × σ) (setup : Setup) : List String → Scene σ → List Visit
  | [], _ => []
  | line :: rest, s =>
    visit reply setup s line :: visits reply setup rest ((feed setup line).outcome reply s).2

/-- A prompt with what is typed at it, which does not show if it is secret. -/
def asked (prompt : Prompt) (line : String) : List Char :=
  prompt.text.toList ++ ' ' :: ((if prompt.isSecret then [] else line.toList) ++ ['\n'])

/-- A prompt at which the input ends. -/
def unanswered (prompt : Prompt) : List Char :=
  prompt.text.toList ++ ' ' :: List.replicate (if prompt.isSecret then 3 else 1) '\n'

/-- What a line adds to the screen. -/
def Visit.screen (color : Bool) (v : Visit) : List Char :=
  asked v.prompt v.line ++ onScreen color v.printed

/-- An answer that is neither empty nor secret, which the history is not to keep. -/
def Visit.forgotten (v : Visit) : Bool :=
  v.prompt.step ∈ [.author, .message, .editMessage] ∧ v.line ≠ ""

/-- How the loop ends: with the input, at a line that leaves, at one that the terminal
fails at, or at one at which it prints what cannot be written. -/
inductive Ending
  | inputEnded
  | left (line : String)
  | failed (line : String) (fault : Fault)
  | unwritten (line : String)

namespace Ending

/-- The line that is taken last, and not gone on from. -/
def last : Ending → List String
  | .inputEnded => []
  | .left line | .failed line _ | .unwritten line => [line]

/-- The line that the terminal is given last, and not gone on from. -/
def tried : Ending → List String
  | .failed line _ | .unwritten line => [line]
  | _ => []

def result : Ending → Except Stop Unit
  | .failed _ fault => .error (.failed fault)
  | .unwritten _ => .error .unwritable
  | _ => .ok ()

/-- What is on the screen last, in a scene. -/
def screen (reply : Query → σ → Reply × σ) (setup : Setup) (color : Bool) (s : Scene σ) :
    Ending → List Char
  | .inputEnded => unanswered s.terminal.prompt
  | .left line | .failed line _ => asked s.terminal.prompt line
  | .unwritten line => (visit reply setup s line).screen color

/-- An ending is the one that a scene leads to, with so many lines left behind it. -/
def Fits (reply : Query → σ → Reply × σ) (setup : Setup) (s : Scene σ) (rest : List String) :
    Ending → Prop
  | .inputEnded => rest = []
  | .left line => Leaves s.terminal.prompt line
  | .failed line fault =>
    ¬Leaves s.terminal.prompt line ∧ ((feed setup line).outcome reply s).1 = .error fault
  | .unwritten line =>
    ¬Leaves s.terminal.prompt line ∧ ((feed setup line).outcome reply s).1 = .ok () ∧
      ¬AllWritten (visit reply setup s line).printed

end Ending

/-- A line is handed to the terminal, which does not fail at it, and what is printed can be
written. -/
def GoesOn (reply : Query → σ → Reply × σ) (setup : Setup) (s : Scene σ) (line : String) : Prop :=
  ¬Leaves s.terminal.prompt line ∧ ((feed setup line).outcome reply s).1 = .ok () ∧
    AllWritten (visit reply setup s line).printed

/-- What becomes of a stage that takes some lines. They are those that are handed on, the
one that is the last, and those that are not taken any more. The terminal, what it keeps
and its server are as after the lines that it was given. The screen goes on with the
prompts, what is typed at those that are not secret and what is printed; and the history
loses an entry for each answer that it is not to keep. -/
structure Conducts (reply : Query → σ → Reply × σ) (setup : Setup) (color : Bool) (c : Stage σ)
    (lines handed : List String) (ending : Ending) (rest : List String)
    (ended : Except Stop Unit × Stage σ) : Prop where
  lines_eq : lines = handed ++ (ending.last ++ rest)
  goesOn : ∀ before line after, handed = before ++ line :: after →
    GoesOn reply setup (listen reply setup before c.scene) line
  ends : ending.Fits reply setup (listen reply setup handed c.scene) rest
  result_eq : ended.1 = ending.result
  scene_eq : ended.2.scene = listen reply setup (handed ++ ending.tried) c.scene
  screen_eq : ended.2.console.screen = c.console.screen ++
    ((visits reply setup handed c.scene).flatMap (Visit.screen color) ++
      ending.screen reply setup color (listen reply setup handed c.scene))
  history_eq : ended.2.console.history = c.console.history.map
    (· - (visits reply setup (handed ++ ending.tried) c.scene).countP Visit.forgotten)
  removed_eq : ended.2.console.removed = c.console.removed ++ lastPlaces c.console.history
    ((visits reply setup (handed ++ ending.tried) c.scene).countP Visit.forgotten)

/-! ## One line -/

theorem promptText_some (prompt : Prompt) (line : String) :
    promptText prompt (some line) = asked prompt line := by
  cases hsecret : prompt.isSecret <;> simp [promptText, asked, hsecret]

theorem promptText_none (prompt : Prompt) : promptText prompt none = unanswered prompt := by
  cases hsecret : prompt.isSecret <;> simp [promptText, unanswered, hsecret, List.replicate]

section OneLine

variable {reply : Query → σ → Reply × σ} {setup : Setup} {color : Bool} {line : String}
  {c : Stage σ}

/-- The stage as it is when a line is handed to the terminal. -/
def Stage.answered (c : Stage σ) (line : String) : Stage σ :=
  c.forgetting (if Visit.forgotten ⟨c.console.terminal.prompt, line, []⟩ then 1 else 0)

theorem outcome_takeLine_of_leaves (h : Leaves c.console.terminal.prompt line) :
    (takeLine setup color line).outcome reply c = (.ok false, c) := by
  rw [takeLine, Loop.outcome_bind_ok (Loop.outcome_get c)]
  simp only [(leaves_iff _ _).mpr h, if_true]
  rfl

theorem outcome_takeLine (h : ¬Leaves c.console.terminal.prompt line) :
    (takeLine setup color line).outcome reply c =
      Loop.outcome reply (showing color (feed setup line) >>= fun _ => pure true)
        (c.answered line) := by
  have hopen : (!c.console.terminal.prompt.isIdle && !c.console.terminal.prompt.isSecret &&
      decide (line ≠ "")) = Visit.forgotten ⟨c.console.terminal.prompt, line, []⟩ := by
    rw [Prompt.isIdle, Prompt.isSecret, Visit.forgotten]
    cases c.console.terminal.prompt.step <;> simp [Step.isSecret]
  rw [takeLine, Loop.outcome_bind_ok (Loop.outcome_get c)]
  simp only [hopen]
  rw [if_neg (mt (leaves_iff _ _).mp h), Stage.answered]
  cases Visit.forgotten ⟨c.console.terminal.prompt, line, []⟩ with
  | true =>
    simp only [if_true]
    rw [Loop.outcome_bind_ok (outcome_forgetLast reply c)]
  | false =>
    simp only [Bool.false_eq_true, if_false, Stage.forgetting_zero]

/-- What is left to show of a line that the terminal was given. -/
theorem outcome_takeLine_ok {s : Scene σ} (h : ¬Leaves c.console.terminal.prompt line)
    (hfeed : (feed setup line).outcome reply c.scene = (.ok (), s)) {printed : List Line}
    (hprinted : (visit reply setup c.scene line).printed = printed) :
    (takeLine setup color line).outcome reply c =
      (if AllWritten printed then .ok true else .error .unwritable,
        ((c.answered line).withScene s).writing (onScreen color printed)) := by
  rw [visit, hfeed] at hprinted
  have hshow := outcome_showing (c := c.answered line) color hfeed hprinted
  rw [outcome_takeLine h, Loop.outcome_bind, hshow]
  by_cases hwritten : AllWritten printed
  · rw [if_pos hwritten, if_pos hwritten]
    rfl
  · rw [if_neg hwritten, if_neg hwritten]

theorem outcome_takeLine_error {s : Scene σ} {fault : Fault}
    (h : ¬Leaves c.console.terminal.prompt line)
    (hfeed : (feed setup line).outcome reply c.scene = (.error fault, s)) :
    (takeLine setup color line).outcome reply c =
      (.error (.failed fault), (c.answered line).withScene s) := by
  have hshow := outcome_showing_error (c := c.answered line) color hfeed
  rw [outcome_takeLine h, Loop.outcome_bind, hshow]

end OneLine

/-! ## All lines -/

section Lines

variable {reply : Query → σ → Reply × σ} {setup : Setup} {color : Bool}

/-- The stage after a line that the terminal was given, and did not fail at. -/
def Stage.handed (c : Stage σ) (color : Bool) (line : String) (s : Scene σ)
    (printed : List Line) : Stage σ :=
  (((c.writing (asked c.console.terminal.prompt line)).answered line).withScene s).writing
    (onScreen color printed)

/-- A line that is handed on comes before those that are handed on after it. -/
theorem Conducts.cons {c : Stage σ} {line : String} {s : Scene σ} {lines handed rest : List String}
    {ending : Ending} {ended : Except Stop Unit × Stage σ}
    (hnot : ¬Leaves c.console.terminal.prompt line)
    (hfeed : (feed setup line).outcome reply c.scene = (.ok (), s))
    (hwritten : AllWritten (visit reply setup c.scene line).printed)
    (h : Conducts reply setup color
      (c.handed color line s (visit reply setup c.scene line).printed) lines handed ending rest
      ended) :
    Conducts reply setup color c (line :: lines) (line :: handed) ending rest ended := by
  have hscene : (c.handed color line s (visit reply setup c.scene line).printed).scene = s := rfl
  have hlisten (later : List String) : listen reply setup (line :: later) c.scene =
      listen reply setup later s := by
    rw [Terminal.listen, hfeed]
  have hvisits (later : List String) : visits reply setup (line :: later) c.scene =
      visit reply setup c.scene line :: visits reply setup later s := by
    rw [visits, hfeed]
  constructor
  case lines_eq => rw [h.lines_eq, List.cons_append]
  case goesOn =>
    intro before other after heq
    cases before with
    | nil =>
      obtain ⟨rfl, -⟩ := List.cons.inj heq
      exact ⟨hnot, by rw [Terminal.listen, hfeed], hwritten⟩
    | cons first before =>
      obtain ⟨rfl, hrest⟩ := List.cons.inj heq
      rw [hlisten]
      exact h.goesOn before other after hrest
  case ends =>
    rw [hlisten]
    exact h.ends
  case result_eq => exact h.result_eq
  case scene_eq =>
    rw [List.cons_append, hlisten]
    exact h.scene_eq
  case screen_eq =>
    rw [hvisits, hlisten, h.screen_eq, hscene]
    simp only [Stage.handed, Stage.writing, Stage.withScene, Stage.answered, Stage.forgetting,
      List.flatMap_cons, Visit.screen, List.append_assoc]
    rfl
  case history_eq =>
    rw [List.cons_append, hvisits, h.history_eq, hscene, List.countP_cons, Nat.add_comm]
    simp only [Stage.handed, Stage.writing, Stage.withScene, Stage.answered, Stage.forgetting,
      Option.map_map, Function.comp_def, Nat.sub_sub]
    rfl
  case removed_eq =>
    rw [List.cons_append, hvisits, h.removed_eq, hscene, List.countP_cons, Nat.add_comm,
      lastPlaces_add, ← List.append_assoc]
    rfl

/-- Where the loop ends before any line is handed on. -/
theorem conducts_of_fits {c : Stage σ} {ending : Ending} {rest : List String}
    {ended : Except Stop Unit × Stage σ} (h : ending.Fits reply setup c.scene rest)
    (hended : ended = (ending.result,
      ((c.writing (ending.screen reply setup color c.scene)).forgetting
        ((visits reply setup ending.tried c.scene).countP Visit.forgotten)).withScene
          (listen reply setup ending.tried c.scene))) :
    Conducts reply setup color c (ending.last ++ rest) [] ending rest ended := by
  rw [hended]
  refine ⟨rfl, ?_, h, rfl, rfl, rfl, rfl, rfl⟩
  rintro (_ | _) line after ⟨⟩

/-- The prompt and what was typed are on the screen before a line is taken. -/
theorem outcome_takeLines_cons (line : String) (rest : List String) (c : Stage σ) :
    (takeLines setup color (line :: rest)).outcome reply c =
      Loop.outcome reply (takeLine setup color line >>= fun goOn =>
        if goOn then takeLines setup color rest else pure ())
        (c.writing (asked c.console.terminal.prompt line)) := by
  rw [takeLines, Loop.outcome_bind_ok (Loop.outcome_get c), promptText_some,
    Loop.outcome_bind_ok (Loop.outcome_write _ c)]

/-- The loop takes lines as long as it goes on. -/
theorem conducts_takeLines (lines : List String) (c : Stage σ) :
    ∃ handed ending rest, Conducts reply setup color c lines handed ending rest
      ((takeLines setup color lines).outcome reply c) := by
  induction lines generalizing c with
  | nil =>
    have hfits : Ending.inputEnded.Fits reply setup c.scene [] := rfl
    refine ⟨[], .inputEnded, [], conducts_of_fits hfits ?_⟩
    rw [takeLines, Loop.outcome_bind_ok (Loop.outcome_get c), promptText_none,
      Loop.outcome_write]
    exact congrArg (Prod.mk _) (Stage.forgetting_zero _).symm
  | cons line rest ih =>
    rw [outcome_takeLines_cons]
    obtain ⟨c', hc'⟩ : ∃ c', c' = c.writing (asked c.console.terminal.prompt line) := ⟨_, rfl⟩
    have hprompt : c'.console.terminal.prompt = c.console.terminal.prompt := by rw [hc']; rfl
    have hscene : c'.scene = c.scene := by rw [hc']; rfl
    rw [← hc']
    by_cases hleaves : Leaves c.console.terminal.prompt line
    · have hfits : (Ending.left line).Fits reply setup c.scene rest := hleaves
      refine ⟨[], .left line, rest, conducts_of_fits hfits ?_⟩
      rw [← hprompt] at hleaves
      rw [Loop.outcome_bind_ok (outcome_takeLine_of_leaves hleaves), hc']
      exact congrArg (Prod.mk _) (Stage.forgetting_zero _).symm
    · have hnot := hleaves
      rw [← hprompt] at hnot
      cases hfeed : (feed setup line).outcome reply c.scene with
      | mk r s =>
        have hfeed' := hfeed
        rw [← hscene] at hfeed'
        cases r with
        | ok _ =>
          have hprinted : (visit reply setup c'.scene line).printed =
              (visit reply setup c.scene line).printed := by rw [hscene]
          have htaken : (takeLine setup color line).outcome reply c' = _ :=
            outcome_takeLine_ok hnot hfeed' hprinted
          by_cases hwritten : AllWritten (visit reply setup c.scene line).printed
          · obtain ⟨handed, ending, rest', h⟩ :=
              ih (c.handed color line s (visit reply setup c.scene line).printed)
            refine ⟨line :: handed, ending, rest', ?_⟩
            rw [if_pos hwritten] at htaken
            rw [Loop.outcome_bind_ok htaken, hc']
            exact h.cons hleaves hfeed hwritten
          · have hfits : (Ending.unwritten line).Fits reply setup c.scene rest :=
              ⟨hleaves, by rw [hfeed], hwritten⟩
            refine ⟨[], .unwritten line, rest, conducts_of_fits hfits ?_⟩
            rw [if_neg hwritten] at htaken
            rw [Loop.outcome_bind, htaken, hc']
            simp only [Ending.tried, Terminal.listen, hfeed, visits, List.countP_singleton,
              Ending.screen, Visit.screen, Stage.writing, Stage.withScene, Stage.answered,
              Stage.forgetting, List.append_assoc]
            rfl
        | error fault =>
          have hfits : (Ending.failed line fault).Fits reply setup c.scene rest :=
            ⟨hleaves, by rw [hfeed]⟩
          refine ⟨[], .failed line fault, rest, conducts_of_fits hfits ?_⟩
          rw [Loop.outcome_bind, outcome_takeLine_error hnot hfeed', hc']
          simp only [Ending.tried, Terminal.listen, hfeed, visits, List.countP_singleton]
          rfl

end Lines

/-! ## The command line -/

/-- What a terminal says when it starts. -/
def welcome : List Line := welcomeLines.map fun (line : String) => ⟨.muted, line⟩

theorem allWritten_welcome : AllWritten welcome := by
  intro line hline
  obtain ⟨text, -, rfl⟩ := List.mem_map.mp (List.mem_filter.mp hline).1
  rfl

/-- A stage on which the user has been welcomed. -/
def welcomed (color : Bool) (file : StateFile) (history : Option Nat) (server : σ) : Stage σ :=
  ⟨⟨⟨{}, file, welcome⟩, history, [], onScreen color welcome⟩, server⟩

theorem outcome_greet (reply : Query → σ → Reply × σ) (file : StateFile) (server : σ) :
    greet.outcome reply ⟨.start file, server⟩ = (.ok (), ⟨⟨{}, file, welcome⟩, server⟩) := by
  have hlines : ∀ line ∈ welcomeLines, '\n' ∉ line.toList := by decide
  have hprints : PrintsUpTo reply True greet () welcome := by
    rw [welcome, List.map_eq_flatMap]
    refine printsUpTo_for fun line hline u => ?_
    exact printsUpTo_bind (printsUpTo_line (oneLine_plain.mpr (hlines line hline)) .muted)
      (printsUpTo_pure _)
  exact hprints.prints ⟨.start file, server⟩

/-- What is left of a conversation once the user has been welcomed. -/
theorem outcome_converse (reply : Query → σ → Reply × σ) (setup : Setup) (color : Bool)
    (file : StateFile) (history : Option Nat) (server : σ) (input : String) :
    (converse setup color input).outcome reply ⟨.start file history, server⟩ =
      (takeLines setup color ((inputLines input.toList).map String.ofList)).outcome reply
        (welcomed color file history server) := by
  have hprinted : welcome.drop (Console.start file history).terminal.output.length = welcome := rfl
  have hgreet := outcome_showing (c := ⟨.start file history, server⟩) color
    (outcome_greet reply file server) hprinted
  rw [if_pos allWritten_welcome] at hgreet
  rw [converse, Loop.outcome_bind_ok hgreet]
  rfl

/-- The command line hands the lines of its input to the terminal, as long as it goes on. -/
theorem conducts_converse (reply : Query → σ → Reply × σ) (setup : Setup) (color : Bool)
    (file : StateFile) (history : Option Nat) (server : σ) (input : String) :
    ∃ handed ending rest, Conducts reply setup color (welcomed color file history server)
      ((inputLines input.toList).map String.ofList) handed ending rest
      ((converse setup color input).outcome reply ⟨.start file history, server⟩) := by
  rw [outcome_converse]
  exact conducts_takeLines _ _

/-- A text that holds an escape sequence is returned whole, and shown without it on a
screen that has no styles. A configured name with a lone half is returned as well, and ends
the loop before the line after it. -/
theorem converse_departs :
    let reply : Query → Unit → Reply × Unit := fun _ s => (.unreachable, s)
    let setup : Setup := ⟨"p", "Guest", 0⟩
    let file : StateFile := ⟨.memory, [], []⟩
    let torn : StateFile := ⟨.memory, [(.text authorKey, .text (.torn "" 0 ""))], []⟩
    let asking : String := "git config user.name\nhelp\n"
    ((listen reply setup ["\x1b[31mred"] (welcomed false file none ()).scene).terminal.output =
        welcome ++ [⟨.command, "guest@post:~$ \x1b[31mred"⟩,
          ⟨.error, "Command not found: \x1b[31mred"⟩,
          ⟨.error, "Type 'help' for available commands."⟩] ∧
      ((converse setup false "\x1b[31mred\n").outcome reply
          ⟨.start file none, ()⟩).2.console.screen =
        onScreen false welcome ++ ("guest@post:~$ \x1b[31mred\n" ++ "Command not found: red\n" ++
          "Type 'help' for available commands.\n" ++ "guest@post:~$ \n").toList) ∧
    ((feed setup "git config user.name").outcome reply (welcomed true torn none ()).scene).1.isOk ∧
      ((converse setup true asking).outcome reply ⟨.start torn none, ()⟩).1.isOk = false ∧
      ((converse setup true asking).outcome reply ⟨.start torn none, ()⟩).2.console.screen =
        onScreen true welcome ++ "guest@post:~$ git config user.name\n".toList := by
  intro reply setup file torn asking
  simp only [outcome_converse]
  decide +kernel

end CommentThreads.CommandLine
