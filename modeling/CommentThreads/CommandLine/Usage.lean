/-
CommentThreads.CommandLine.Usage — the explanation of the options, and
the report of an error in them.

The explanation is laid out in two columns for a screen of 80 characters,
of which two stay free.
-/
import CommentThreads.CommandLine.Options
import CommentThreads.Text.Lines

namespace CommentThreads.CommandLine

open CommentThreads.Text

/-- The name that the terminal is started by. -/
def programName : String := "git-comments"

/-- How to write an invocation. -/
def usageLine : String := "Usage: " ++ programName ++ " [OPTIONS]"

/-- A row of the explanation: an option and the words about it, each behind
the gap before it. -/
structure Row where
  option : String
  words : List (String × String)
deriving Repr

/-- The words of a sentence, one blank between them. -/
def sentence (s : String) : List (String × String) :=
  match pieces ' ' s with
  | [] => []
  | word :: rest => ("", word) :: rest.map (" ", ·)

/-- What is said of a value that stands in where none is given. -/
def defaultNote (value : String) : List (String × String) :=
  [("  ", "[default:"), (" ", value ++ "]")]

/-- The rows of the explanation. -/
def rows (settings : Settings) : List Row :=
  [⟨"--post-id TEXT", sentence "Post whose comments to work on." ++ [("  ", "[required]")]⟩,
    ⟨"--api-url TEXT", sentence "Comment server base URL." ++ defaultNote settings.apiUrl⟩,
    ⟨"--state-file TEXT", sentence "Where user.name and the reflog are kept." ++
      defaultNote settings.stateFile⟩,
    ⟨"-v, --verbose", sentence "Log HTTP and prompt-state details."⟩,
    ⟨"--help", sentence "Show this message and exit."⟩]

/-- How wide the explanation is. -/
def screenWidth : Nat := 78

/-- Lay words out over lines of some width, with no gap at a line's start. -/
def wrap (width : Nat) (line : String) : List (String × String) → List String
  | [] => [line]
  | (gap, word) :: rest =>
    if line = "" then wrap width word rest
    else if line.length + gap.length + word.length ≤ width then
      wrap width (line ++ gap ++ word) rest
    else line :: wrap width word rest

/-- Blanks. -/
def blanks (n : Nat) : String := String.ofList (List.replicate n ' ')

/-- The lines of a row; `column` is where the words begin. -/
def rowLines (column : Nat) (row : Row) : List String :=
  let start := "  " ++ row.option
  match wrap (screenWidth - column) "" row.words with
  | [] => [start]
  | first :: rest =>
    (start ++ blanks (column - start.length) ++ first) :: rest.map (blanks column ++ ·)

/-- The whole explanation. -/
def helpText (settings : Settings) : String :=
  let rows := rows settings
  let column := (rows.map (·.option.length)).foldl max 0 + 4
  joinWith "\n" ([usageLine, "", "  Interactive git-style comment terminal.", "", "Options:"] ++
    rows.flatMap (rowLines column)) ++ "\n"

/-- The report of an error. -/
def errorText (e : UsageError) : String :=
  let header := usageLine ++ "\nTry '" ++ programName ++ " --help' for help.\n\n"
  (if e.showsUsage then header else "") ++ "Error: " ++ e.message ++ "\n"

end CommentThreads.CommandLine
