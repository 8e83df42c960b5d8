/-
CommentThreads.Terminal.Feed — one line typed at a terminal.

An idle terminal takes a line as a command. At any other prompt the line,
without the white space around it, is the answer; a blank answer is asked
for again, except for the author's. A password is shown as stars.
-/
import CommentThreads.Terminal.Commands

namespace CommentThreads.Terminal

open CommentThreads.Text

/-- Show what a terminal shows when it starts. -/
def greet : Session Unit := do
  for line in welcomeLines do
    print line .muted

/-- The answer as it is shown: a star for each character of a password. -/
def shownAnswer (prompt : Prompt) (answer : String) : String :=
  if prompt.isSecret then String.ofList (List.replicate answer.length '*') else answer

/-- Go on with an answer, unless it is blank. -/
def unlessBlank (answer complaint : String) (next : Session Unit) : Session Unit :=
  if answer = "" then sayError complaint else next

/-- What is said to a blank password. -/
def passwordRequired : String := "Error: Password is required"

/-- What is said to a blank message. -/
def messageRequired : String := "Error: Message cannot be empty"

/-- Take the answer to a prompt. Before anything is sent the prompt is idle
again. -/
def takeAnswer (setup : Setup) (answer : String) (p : Prompt) : Session Unit :=
  match p.step with
  | .idle => return ()
  | .author => do
    if answer = "" then
      let chosen ← chooseAuthor setup p.name
      print ("Author skipped, using " ++ chosen.display) .muted
      enter { p with step := .password, name := some chosen }
    else enter { p with step := .password, name := some (.text answer) }
  | .password =>
    unlessBlank answer passwordRequired <|
      enter { p with step := .message, secret := some answer }
  | .message =>
    unlessBlank answer messageRequired do
      resetPrompt
      create setup (p.name.getD .null) p.secret answer p.parent
  | .editPassword =>
    unlessBlank answer passwordRequired <|
      enter { p with step := .editMessage, secret := some answer }
  | .editMessage =>
    unlessBlank answer messageRequired do
      resetPrompt
      update setup p.hash p.secret answer
  | .deletePassword =>
    unlessBlank answer passwordRequired do
      resetPrompt
      delete setup p.hash (.text answer) true

/-- Take a line as the answer to a prompt. -/
def answer (setup : Setup) (prompt : Prompt) (line : String) : Session Unit := do
  let given := strip line
  print (prompt.text ++ " " ++ shownAnswer prompt given : String) .command
  takeAnswer setup given prompt

/-- Take a line. -/
def feed (setup : Setup) (line : String) : Session Unit := do
  let prompt := (← get).prompt
  if prompt.isIdle then
    if let some command := Command.ofLine? line then
      print (idleText ++ " " ++ strip line : String) .command
      carryOut setup command
  else answer setup prompt line

end CommentThreads.Terminal
