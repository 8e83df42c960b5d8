/-
CommentThreads.CommandLine.Options — the options with which the terminal
is started.

A long option takes its value behind an equals sign or from the next
argument, whatever that looks like. Short flags can be joined. Of an
option that is given twice the last one counts. After `--` everything is
an argument, and the terminal takes no arguments.
-/
import CommentThreads.Settings
import CommentThreads.Text.Quoted
import CommentThreads.Text.Similarity

namespace CommentThreads.CommandLine

open CommentThreads.Text

/-- How the terminal is to run. -/
structure Options where
  post : String
  apiUrl : String
  stateFile : String
  verbose : Bool
deriving DecidableEq, Repr

/-- What is asked for: a terminal, or an explanation. -/
inductive Request
  | run (options : Options)
  | help
deriving DecidableEq, Repr

/-- Why nothing can be started. -/
inductive UsageError
  | noSuchOption (name : String) (similar : List String)
  | needsArgument (name : String)
  | takesNoValue (name : String)
  | missingOption (name : String)
  | extraArguments (arguments : List String)
deriving DecidableEq, Repr

/-- A word in quotation marks. -/
def marked (word : String) : String := quote word

/-- What is said about similar options. Several are named in alphabetical
order. -/
def suggestion (names : List String) : String :=
  match names with
  | [] => ""
  | [name] => " Did you mean " ++ marked name ++ "?"
  | _ =>
    let sorted := names.mergeSort fun a b => a ≤ b
    " (Did you mean one of: " ++ joinWith ", " (sorted.map marked) ++ "?)"

/-- The wording of an error. -/
def UsageError.message : UsageError → String
  | .noSuchOption name similar => "No such option " ++ marked name ++ "." ++ suggestion similar
  | .needsArgument name => "Option " ++ marked name ++ " requires an argument."
  | .takesNoValue name => "Option " ++ marked name ++ " does not take a value."
  | .missingOption name => "Missing option " ++ marked name ++ "."
  | .extraArguments [argument] => "Got unexpected extra argument (" ++ argument ++ ")"
  | .extraArguments arguments =>
    "Got unexpected extra arguments (" ++ joinWith " " arguments ++ ")"

/-- The error is about a name or a number of arguments, and the usage is
shown before it. -/
def UsageError.showsUsage : UsageError → Bool
  | .needsArgument _ => false
  | .takesNoValue _ => false
  | _ => true

/-- The options that can be given. -/
inductive Name
  | postId
  | apiUrl
  | stateFile
  | verbose
  | help
deriving DecidableEq, Repr

/-- The long spellings. -/
def longNames : List (String × Name) :=
  [("--post-id", .postId), ("--api-url", .apiUrl), ("--state-file", .stateFile),
    ("--verbose", .verbose), ("--help", .help)]

/-- An option that stands for itself. -/
def Name.isFlag : Name → Bool
  | .verbose => true
  | .help => true
  | _ => false

/-- What was given: options with their values, in order, and arguments. A
flag's value is empty. -/
structure Given where
  options : List (Name × String)
  arguments : List String
deriving DecidableEq, Repr

/-- One more option. -/
def Given.addOption (name : Name) (value : String) (g : Given) : Given :=
  { g with options := g.options ++ [(name, value)] }

/-- One more argument. -/
def Given.addArgument (argument : String) (g : Given) : Given :=
  { g with arguments := g.arguments ++ [argument] }

/-- The flags joined behind one dash. -/
def shortFlags : List Char → Given → Except UsageError Given
  | [], g => .ok g
  | c :: rest, g =>
    if c = 'v' then shortFlags rest (g.addOption .verbose "")
    else .error (.noSuchOption (String.ofList ['-', c]) [])

/-- An argument that begins with a dash, in its parts: what stands before
the first equals sign, and what stands behind it. -/
def splitOption (argument : String) : String × Option String :=
  let s := argument.toList
  let name := s.takeWhile (· ≠ '=')
  (String.ofList name,
    if s.contains '=' then some (String.ofList (s.drop (name.length + 1))) else none)

/-- An option as it is spelled, which may wait for its value. -/
abbrev Waiting := Option (Name × String)

/-- An argument that begins with a dash: what is given with it, and the
option that waits for the next argument. -/
def readOption (argument : String) (g : Given) : Except UsageError (Waiting × Given) :=
  let (name, value) := splitOption argument
  match longNames.lookup name, value with
  | some option, some value =>
    if option.isFlag then .error (.takesNoValue name)
    else .ok (none, g.addOption option value)
  | some option, none =>
    if option.isFlag then .ok (none, g.addOption option "") else .ok (some (option, name), g)
  | none, _ =>
    if startsWith argument "--" then
      .error (.noSuchOption name (closeWords name (longNames.map Prod.fst)))
    else (shortFlags (argument.toList.drop 1) g).map (none, ·)

/-- Read the arguments one after the other. -/
def scan (waiting : Waiting) (g : Given) : List String → Except UsageError Given
  | [] =>
    match waiting with
    | none => .ok g
    | some (_, name) => .error (.needsArgument name)
  | argument :: rest =>
    match waiting with
    | some (option, _) => scan none (g.addOption option argument) rest
    | none =>
      if argument = "--" then .ok { g with arguments := g.arguments ++ rest }
      else if !startsWith argument "-" || argument = "-" then
        scan none (g.addArgument argument) rest
      else do
        let (waiting, g) ← readOption argument g
        scan waiting g rest

/-- The last value of an option. -/
def Given.value? (name : Name) (g : Given) : Option String :=
  g.options.reverse.lookup name

/-- What some arguments ask for; what is not given comes from the settings. -/
def parse (settings : Settings) (arguments : List String) : Except UsageError Request := do
  let g ← scan none ⟨[], []⟩ arguments
  if (g.value? .help).isSome then return .help
  match g.value? .postId with
  | none => throw (.missingOption "--post-id")
  | some post =>
    if g.arguments.isEmpty then
      return .run ⟨post, (g.value? .apiUrl).getD settings.apiUrl,
        (g.value? .stateFile).getD settings.stateFile, (g.value? .verbose).isSome⟩
    else throw (.extraArguments g.arguments)

end CommentThreads.CommandLine
