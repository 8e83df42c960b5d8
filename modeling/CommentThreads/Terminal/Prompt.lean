/-
CommentThreads.Terminal.Prompt — what the terminal is waiting for, and what
has been answered so far.

A prompt is a step and what was given before it: a name for the author, a
password, the hash of the comment that is answered, and the hash of the
comment that is changed. The record could hold any of them at any step;
going on sets the step and what the answer gives and leaves the rest, and
`Prompt.idle` forgets them all. Each step has a prompt that holds what the
step needs and nothing else.
-/
import CommentThreads.Json.Basic

namespace CommentThreads.Terminal

/-- What the next line is taken for: a command, or the answer to one of the
questions of a commit, an edit or a removal. -/
inductive Step
  | idle
  | author
  | password
  | message
  | editPassword
  | editMessage
  | deletePassword
deriving DecidableEq, Repr

/-- The prompt of an idle terminal. -/
def idleText : String := "guest@post:~$"

namespace Step

/-- The prompt that is shown at a step. -/
def text : Step → String
  | .idle => idleText
  | .author => "Author (optional, press Enter to skip):"
  | .password => "Password (required for edit/delete):"
  | .message => "Message:"
  | .editPassword => "Password:"
  | .editMessage => "Message:"
  | .deletePassword => "Password:"

/-- What is typed at a step is a password. -/
def isSecret : Step → Bool
  | .password | .editPassword | .deletePassword => true
  | _ => false

end Step

/-- A step, and what was given before it. The name of the author may come
from the configuration, which holds any values. -/
structure Prompt where
  step : Step := .idle
  name : Option Json := none
  secret : Option RawText := none
  parent : Option String := none
  hash : Option RawText := none
deriving Repr

namespace Prompt

/-- The prompt that is shown. -/
def text (p : Prompt) : String := p.step.text

/-- What is typed is a password. -/
def isSecret (p : Prompt) : Bool := p.step.isSecret

/-- The terminal waits for a command. -/
def isIdle (p : Prompt) : Bool := p.step = .idle

/-! ## The prompt of each step -/

/-- Wait for a command; nothing is kept. -/
@[match_pattern] abbrev idle : Prompt := ⟨.idle, none, none, none, none⟩

/-- Ask for the author of a new comment. -/
@[match_pattern] abbrev author (name : Option Json) (parent : Option String) : Prompt :=
  ⟨.author, name, none, parent, none⟩

/-- Ask for the password of a new comment. -/
@[match_pattern] abbrev password (name : Json) (parent : Option String) : Prompt :=
  ⟨.password, some name, none, parent, none⟩

/-- Ask for the message of a new comment. -/
@[match_pattern] abbrev message (name : Json) (secret : RawText) (parent : Option String) :
    Prompt :=
  ⟨.message, some name, some secret, parent, none⟩

/-- Ask for the password of a comment that is edited. -/
@[match_pattern] abbrev editPassword (hash : RawText) : Prompt :=
  ⟨.editPassword, none, none, none, some hash⟩

/-- Ask for the new message of a comment. -/
@[match_pattern] abbrev editMessage (hash secret : RawText) : Prompt :=
  ⟨.editMessage, none, some secret, none, some hash⟩

/-- Ask for the password of a comment that is removed. -/
@[match_pattern] abbrev deletePassword (hash : RawText) : Prompt :=
  ⟨.deletePassword, none, none, none, some hash⟩

end Prompt

end CommentThreads.Terminal
