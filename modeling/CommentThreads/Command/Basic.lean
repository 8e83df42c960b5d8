/-
CommentThreads.Command.Basic — what a line typed at the terminal can ask
for.

`Command` is the request, `Draft` a comment as far as the line gives it,
and `Mistake` why a line asks for nothing that can be done.
-/

namespace CommentThreads

/-- A comment to be made. What the line leaves open is asked for later or
filled in. -/
structure Draft where
  author : Option String
  password : Option String
  message : Option String
  parent : Option String
deriving DecidableEq, Repr

/-- A draft of which nothing is known. -/
def Draft.empty : Draft := ⟨none, none, none, none⟩

/-- Why a line cannot be carried out. -/
inductive Mistake
  | notFound (word : String)
  | noSubcommand
  | unknownSubcommand (word : String)
  | showWithoutHash
  | rebaseNotInteractive
  | rebaseWithoutHash
  | resetNotHard
  | resetWithoutHash
  | configWithoutKey
  | configOtherKey
deriving DecidableEq, Repr

/-- The wording of a mistake. -/
def Mistake.message : Mistake → String
  | .notFound word => "Command not found: " ++ word ++ "\nType 'help' for available commands."
  | .noSubcommand => "usage: git <command> [<args>]\nType 'help' for available commands."
  | .unknownSubcommand word => "git: '" ++ word ++ "' is not a git command. See 'help'."
  | .showWithoutHash => "usage: git show <hash>"
  | .rebaseNotInteractive =>
    "Only interactive rebase is supported. Use: git rebase -i <hash>"
  | .rebaseWithoutHash => "usage: git rebase -i <hash>"
  | .resetNotHard => "Only hard reset is supported. Use: git reset --hard <hash>"
  | .resetWithoutHash => "usage: git reset --hard <hash>"
  | .configWithoutKey => "usage: git config user.name \"<name>\""
  | .configOtherKey => "Only user.name config is supported."

/-- A request. `config` with a value sets the key, and without one shows it. -/
inductive Command
  | help
  | log (oneline : Bool)
  | commit (draft : Draft)
  | inspect (hash : String)
  | rebase (hash : String)
  | reset (hash : String)
  | config (key : String) (value : Option String)
  | reflog
  | mistaken (mistake : Mistake)
deriving DecidableEq, Repr

end CommentThreads
