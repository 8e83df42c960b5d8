/-
CommentThreads.Command.Parser — from a line to the command it asks for.

A line of white space asks for nothing. Any other line has a first token,
so it always gives a command, if only a mistaken one.
-/
import CommentThreads.Command.Basic
import CommentThreads.Command.Tokens
import CommentThreads.Text.Words

namespace CommentThreads.Command

open CommentThreads.Text

/-- The keys that can be configured. -/
def configKeys : List String := ["user.name"]

/-- A draft with what one flag says. A flag with nothing behind the equals
sign takes back what was given before; other words say nothing. -/
def addFlag (draft : Draft) (word : String) : Draft :=
  match following? "--author=" word, following? "--password=" word,
    following? "--fixup=" word with
  | some value, _, _ => { draft with author := nonEmpty? value }
  | none, some value, _ => { draft with password := nonEmpty? value }
  | none, none, some value => { draft with parent := nonEmpty? value }
  | none, none, none => draft

/-- A draft with what the words of a line say, from left to right. The word
behind `-m` is the message, whatever it looks like. -/
def addFlags (draft : Draft) : List String → Draft
  | [] => draft
  | [word] => addFlag draft word
  | word :: next :: rest =>
    if word = "-m" then addFlags { draft with message := some next } rest
    else addFlags (addFlag draft word) (next :: rest)

/-- The word behind the first occurrence of a flag; empty if there is none
behind it, and nothing if the flag is not there. -/
def wordAfter? (flag : String) : List String → Option String
  | [] => none
  | word :: rest => if word = flag then some (rest.headD "") else wordAfter? flag rest

/-- A command that takes a hash behind a flag. -/
def withHashAfter (flag : String) (words : List String) (command : String → Command)
    (withoutFlag withoutHash : Mistake) : Command :=
  match wordAfter? flag words with
  | none => .mistaken withoutFlag
  | some hash => if hash = "" then .mistaken withoutHash else command hash

/-- What `config` asks for, from the words behind it. A value of white
space only is none. -/
def configOf : List String → Command
  | [] => .mistaken .configWithoutKey
  | "--get" :: key :: _ =>
    if configKeys.contains key then .config key none else .mistaken .configOtherKey
  | key :: rest =>
    if configKeys.contains key then .config key (nonEmpty? (strip (rest.headD "")))
    else .mistaken .configOtherKey

/-- What a subcommand asks for, from the words behind it. -/
def subcommand (name : String) (words : List String) : Command :=
  match name with
  | "log" => .log (words.contains "--oneline")
  | "commit" => .commit (addFlags .empty words)
  | "show" =>
    match words with
    | [] => .mistaken .showWithoutHash
    | hash :: _ => .inspect hash
  | "rebase" => withHashAfter "-i" words .rebase .rebaseNotInteractive .rebaseWithoutHash
  | "reset" => withHashAfter "--hard" words .reset .resetNotHard .resetWithoutHash
  | "config" => configOf words
  | "reflog" => .reflog
  | other => .mistaken (.unknownSubcommand other)

/-- What a list of tokens asks for. -/
def ofTokens? : List String → Option Command
  | [] => none
  | ["help"] => some .help
  | ["git"] => some (.mistaken .noSubcommand)
  | ["git", "--help"] => some .help
  | "git" :: name :: words => some (subcommand name words)
  | word :: _ => some (.mistaken (.notFound word))

/-- What a line asks for; nothing if it is white space only. -/
def ofLine? (line : String) : Option Command :=
  ofTokens? (tokens (strip line))

end CommentThreads.Command
