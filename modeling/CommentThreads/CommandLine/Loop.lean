/-
CommentThreads.CommandLine.Loop — lines that are typed go to the terminal,
and what it prints goes to the screen.

The loop ends with the input, or when an idle terminal is told `exit` or
`quit`; at any other prompt these words are answers. The prompt and what
was typed are on the screen already, so the terminal's own echo of them
is not shown, and what is typed at a secret prompt shows nowhere. Answers
that are no passwords are taken out of the history of commands. A printed
line with a lone half of a surrogate pair in it cannot be shown and ends
the loop.
-/
import CommentThreads.CommandLine.Style
import CommentThreads.Terminal.Feed

namespace CommentThreads.CommandLine

open CommentThreads.Terminal CommentThreads.Text

/-- The terminal, the length of the history if one is kept, the places
taken out of it, and what is on the screen. -/
structure Console where
  terminal : State
  history : Option Nat
  removed : List Nat
  screen : List Char

/-- The console before anything is shown. -/
def Console.start (file : StateFile) (history : Option Nat) : Console :=
  ⟨.start file, history, [], []⟩

/-- Why the loop stops before its end: the terminal fails, or what it printed
cannot be shown. -/
inductive Stop
  | failed (fault : Fault)
  | unwritable
deriving Repr

/-- What is said when the loop stops. -/
def Stop.message : Stop → String
  | .failed fault => fault.message
  | .unwritable => "a line cannot be shown"

/-- A step of the loop. -/
abbrev Loop (α : Type) := ExceptT Stop (StateT Console Client.Dialogue) α

/-- Show some text. -/
def write (text : List Char) : Loop Unit :=
  modify fun c => { c with screen := c.screen ++ text }

/-- Let the terminal make a step. -/
def atTerminal (step : Session Unit) : Loop Unit := do
  let c ← get
  let (result, terminal) ← ExceptT.lift (StateT.lift (step.run.run c.terminal))
  set { c with terminal := terminal }
  match result with
  | .ok () => return ()
  | .error fault => throw (.failed fault)

/-- Show printed lines, up to one that has no written form. -/
def showLines (color : Bool) : List Line → Loop Unit
  | [] => return ()
  | ⟨kind, .plain text⟩ :: rest => do
    write (shown color kind text)
    showLines color rest
  | ⟨_, .torn ..⟩ :: _ => throw .unwritable

/-- Let the terminal make a step, and show what it printed; nothing if it
fails. -/
def showing (color : Bool) (step : Session Unit) : Loop Unit := do
  let before := (← get).terminal.output.length
  atTerminal step
  let printed := (← get).terminal.output.drop before
  showLines color (printed.filter (·.kind ≠ .command))

/-- Take the last entry out of the history, if there is one. -/
def forgetLast : Loop Unit :=
  modify fun c =>
    match c.history with
    | some (n + 1) => { c with history := some n, removed := c.removed ++ [n] }
    | _ => c

/-- The words that end the loop. -/
def exitWords : List String := ["exit", "quit"]

/-- What is on the screen once a prompt was answered, or the input ended at
it. What is typed at a secret prompt does not show. -/
def promptText (prompt : Prompt) (typed : Option String) : List Char :=
  prompt.text.toList ++ ' ' :: match prompt.isSecret, typed with
    | false, some line => line.toList ++ ['\n']
    | false, none => ['\n']
    | true, some _ => ['\n']
    | true, none => ['\n', '\n', '\n']

/-- Take a line that was typed; tells whether to go on. -/
def takeLine (setup : Setup) (color : Bool) (line : String) : Loop Bool := do
  let prompt := (← get).terminal.prompt
  if prompt.isIdle && exitWords.contains (strip line) then return false
  if !prompt.isIdle && !prompt.isSecret && line ≠ "" then forgetLast
  showing color (feed setup line)
  return true

/-- Take the lines of the input, one after the other. -/
def takeLines (setup : Setup) (color : Bool) : List String → Loop Unit
  | [] => do write (promptText (← get).terminal.prompt none)
  | line :: rest => do
    write (promptText (← get).terminal.prompt (some line))
    if ← takeLine setup color line then takeLines setup color rest

/-- Welcome the user and take all lines of an input. -/
def converse (setup : Setup) (color : Bool) (input : String) : Loop Unit := do
  showing color greet
  takeLines setup color ((inputLines input.toList).map String.ofList)

/-- Text in which a line feed stands for each carriage return with a line
feed. -/
def unixLines : List Char → List Char
  | '\r' :: '\n' :: rest => '\n' :: unixLines rest
  | c :: rest => c :: unixLines rest
  | [] => []

end CommentThreads.CommandLine
