/-
CommentThreads.Terminal.Help — the texts that a terminal shows about
itself.
-/
import CommentThreads.Text.Words

namespace CommentThreads.Terminal

/-- What is shown when a terminal starts. -/
def welcomeLines : List String := [
  "# Write a comment using git commands",
  "# Example: git commit --author=\"Your Name\" --password=\"secret\" -m \"Your comment\"",
  "# Type 'help' for more commands"]

/-- What is shown when help is asked for, line by line. -/
def helpLines : List String := [
  "git-comment - Git-style terminal comment system",
  "",
  "SYNOPSIS",
  "    git log [--oneline] [--comments]",
  "    git commit [-m <message>] [--author=<name>] [--password=<pass>] [--fixup=<hash>]",
  "    git show <hash>",
  "    git rebase -i <hash>",
  "    git reset --hard <hash>",
  "    git config user.name <name>",
  "    git reflog",
  "    help",
  "",
  "COMMANDS",
  "",
  "  git log [--oneline]",
  "      Show comment history in git log format",
  "",
  "      Options:",
  "        --oneline    Show compact one-line format",
  "        --comments   Show only comments (default)",
  "",
  "  git commit -m \"<message>\" [--author=\"<name>\"] [--password=\"<pass>\"]",
  "      Create a new comment",
  "",
  "      Options:",
  "        -m <message>       Comment message",
  "        --author=<name>    Author name (default: user.name or Guest)",
  "        --password=<pass>  Password for edit/delete (optional)",
  "        --fixup=<hash>     Reply to an existing comment",
  "",
  "      Without -m, asks for author, password and message in turn.",
  "",
  "  git show <hash>",
  "      Show detailed information about a specific comment",
  "",
  "  git rebase -i <hash>",
  "      Edit an existing comment (requires password)",
  "",
  "  git reset --hard <hash>",
  "      Delete a comment (requires password). A 7-character short hash is",
  "      accepted.",
  "",
  "  git config user.name \"<name>\"",
  "  git config --get user.name",
  "      Set or show the default author name",
  "",
  "  git reflog",
  "      Show comments you created from this terminal",
  "",
  "  help, git --help",
  "      Show this help message",
  "",
  "PASSWORD & AUTHENTICATION",
  "",
  "  * Comments without password: read-only (cannot edit/delete)",
  "  * Comments with password: editable (can edit/delete with password)",
  "",
  "  Passwords are hashed on the server. The passwords of comments you create",
  "  here are remembered locally so edit/delete can skip the prompt.",
  "",
  "EXAMPLES",
  "",
  "  $ git commit -m \"Nice blog!\"",
  "  $ git commit --author=\"John Doe\" --password=\"1234\" -m \"Great article!\"",
  "  $ git log --oneline",
  "  $ git rebase -i a3f8e2b1",
  "  $ git reset --hard a3f8e2b",
  "  $ git commit --fixup=a3f8e2b1 -m \"Thanks for the comment!\"",
  "  $ git config user.name \"John Doe\"",
  ""]

/-- What is shown when help is asked for. -/
def helpText : String := Text.joinWith "\n" helpLines

end CommentThreads.Terminal
