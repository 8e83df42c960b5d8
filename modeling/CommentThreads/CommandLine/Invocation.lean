/-
CommentThreads.CommandLine.Invocation — one use of the terminal, from its
arguments to its exit code.

`start` says what the arguments come to before any terminal runs, and
`converseAt` runs a terminal on what is kept at a place. A state that
cannot be loaded stops the terminal before it has shown anything.
-/
import CommentThreads.CommandLine.Loop
import CommentThreads.CommandLine.Usage

namespace CommentThreads.CommandLine

open CommentThreads.Terminal

/-- What the arguments come to: a terminal with some options, or a text
that is shown in its place and the exit code that goes with it. -/
inductive Start
  | terminal (options : Options)
  | told (text : String) (exitCode : Nat)
deriving DecidableEq, Repr

/-- What the arguments come to. An error in them has an exit code of its
own. -/
def start (settings : Settings) (arguments : List String) : Start :=
  match parse settings arguments with
  | .ok (.run options) => .terminal options
  | .ok .help => .told (helpText settings) 0
  | .error e => .told (errorText e) 2

/-- The exit code of a terminal that came to its end, or stopped before. -/
def exitCode {α : Type} : Except Stop α → Nat
  | .ok _ => 0
  | .error _ => 1

/-- Load the state at a place, welcome the user and take all lines of an
input; gives how it ended and what the console then is. -/
def converseAt (place : StateFile.Place) (history : Option Nat) (setup : Setup) (color : Bool)
    (input : String) : Client.Dialogue (Except Stop Unit × Console) :=
  match StateFile.load place with
  | .ok file => (converse setup color input).run.run (.start file history)
  | .error fault => return (.error (.failed (.file fault)), .start ⟨place, [], []⟩ history)

end CommentThreads.CommandLine
