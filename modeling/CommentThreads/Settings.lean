/-
CommentThreads.Settings — what an operator can set, and reading it from
environment variables.

A variable is the name of a setting behind `GIT_COMMENTS_`, in letters of
either case. Texts are taken as they are, lists are JSON, and a number may
have white space around it, a plus sign, leading zeros, underscores
between its digits, and zeros behind a point.
-/
import CommentThreads.Text.Blank
import CommentThreads.Text.Words
import CommentThreads.Validation

namespace CommentThreads

open Text

/-- The settings of the service and of the terminal. -/
structure Settings where
  appName : String
  backend : String
  collection : String
  allowedHosts : List RawText
  allowedOrigins : List RawText
  maxMessageKb : Int
  defaultAuthor : String
  apiUrl : String
  stateFile : String
deriving DecidableEq, Repr

namespace Settings

/-- The settings where nothing is set. -/
def standard : Settings where
  appName := "git-comments"
  backend := "firestore"
  collection := "kv"
  allowedHosts := ["*"]
  allowedOrigins := ["*"]
  maxMessageKb := 10
  defaultAuthor := "Guest"
  apiUrl := "http://localhost:8000"
  stateFile := "~/.git-comments.json"

/-- The most bytes that a message may have. -/
def maxMessageBytes (s : Settings) : Int := s.maxMessageKb * 1024

/-- The entries of the settings, by their names. -/
def toJson (s : Settings) : Json :=
  .object [("app_name", .text s.appName), ("kv_backend", .text s.backend),
    ("kv_collection", .text s.collection),
    ("allowed_hosts", .list (s.allowedHosts.map .text)),
    ("allowed_origins", .list (s.allowedOrigins.map .text)),
    ("max_message_kb", .int s.maxMessageKb), ("default_author", .text s.defaultAuthor),
    ("api_url", .text s.apiUrl), ("state_file", .text s.stateFile)]

/-! ## Numbers in variables -/

/-- White space around a number. The information separators are none here. -/
def isPadding (c : Char) : Bool :=
  isBlank c && !(0x1C ≤ c.toNat && c.toNat ≤ 0x1F)

/-- A number without the zeros in front of it, and the underscores between
those. A number that is all zeros keeps its last character. -/
def dropLeadingZeros (s : List Char) : List Char :=
  if s.head? = some '0' then
    let rest := s.dropWhile fun c => c = '0' || c = '_'
    match rest.head? with
    | none => s.drop (s.length - 1)
    | some '.' => '0' :: rest
    | some _ => rest
  else s

/-- A number without a point that only zeros follow. -/
def dropZeroFraction (s : List Char) : List Char :=
  let whole := s.takeWhile (· ≠ '.')
  if (s.drop (whole.length + 1)).all (· = '0') then whole else s

/-- Two underscores next to each other. -/
def hasDoubleUnderscore : List Char → Bool
  | a :: b :: rest => (a = '_' && b = '_') || hasDoubleUnderscore (b :: rest)
  | _ => false

/-- A number without the underscores inside it. -/
def dropUnderscores (s : List Char) : List Char :=
  if s.head? = some '_' || s.getLast? = some '_' || hasDoubleUnderscore s then s
  else s.filter (· ≠ '_')

/-- An integer without a leading zero, with a minus sign if negative. -/
def plainInteger? (s : List Char) : Option Int :=
  let negative := s.head? = some '-'
  let digits := if negative then s.drop 1 else s
  if digits.isEmpty || !digits.all isDigit then none
  else if digits.head? = some '0' && digits.length > 1 then none
  else some (if negative then -(ofDigits digits : Int) else ofDigits digits)

/-- The integer that a variable holds. -/
def integer? (s : String) : Option Int :=
  let s := ((s.toList.dropWhile isPadding).reverse.dropWhile isPadding).reverse
  match plainInteger? s with
  | some n => some n
  | none =>
    let unsigned := if s.head? = some '+' then s.drop 1 else s
    if s.head? = some '+' && unsigned.head? = some '-' then none
    else plainInteger? (dropUnderscores (dropZeroFraction (dropLeadingZeros unsigned)))

/-! ## The environment -/

/-- Environment variables with their values. -/
abbrev Environment := List (String × String)

/-- What all variables of the settings begin with. -/
def variableStart : String := "git_comments_"

/-- The names of the settings. -/
def names : List String :=
  ["app_name", "kv_backend", "kv_collection", "allowed_hosts", "allowed_origins",
    "max_message_kb", "default_author", "api_url", "state_file"]

/-- The two plain spellings of a setting's variable: all in capital letters
and all in small ones. -/
def spellings (name : String) : List String :=
  let small := variableStart ++ name
  [String.ofList (small.toList.map Char.toUpper), small]

/-- A name in small letters of ASCII. -/
def lowered (s : String) : String := String.ofList (s.toList.map Char.toLower)

/-- The value of a setting's variable; of several spellings the last. -/
def lookup? (env : Environment) (name : String) : Option String :=
  (env.reverse.find? fun (key, _) => lowered key = variableStart ++ name).map Prod.snd

/-- Why an environment gives no settings: a list is not written in JSON, or
values are of the wrong kind. -/
inductive Fault
  | notJson (name : String)
  | invalid (errors : List FieldError)
deriving Repr

/-- A list setting as JSON; a variable that says null is as good as unset. -/
def listValue? (env : Environment) (name : String) : Except Fault (Option Json) :=
  match lookup? env name with
  | none => .ok none
  | some s =>
    match Json.ofFileText s.toList with
    | .ok v => .ok v.nonNull?
    | .error _ => .error (.notJson name)

/-- A setting that is a text. -/
def textSetting (env : Environment) (name default : String) : Validated String :=
  .valid ((lookup? env name).getD default)

/-- A setting that is a list of texts. -/
def listSetting (name : String) (value : Option Json) (default : List RawText) :
    Validated (List RawText) :=
  match value with
  | none => .valid default
  | some v => (FieldReader.listOf .text v).under (.key name)

/-- A setting that is an integer. -/
def integerSetting (env : Environment) (name : String) (default : Int) : Validated Int :=
  match lookup? env name with
  | none => .valid default
  | some s =>
    match integer? s with
    | some n => .valid n
    | none => (Validated.fail .notInteger (.text s)).under (.key name)

/-- The settings that some environment variables give. -/
def ofEnvironment (env : Environment) : Except Fault Settings := do
  let hosts ← listValue? env "allowed_hosts"
  let origins ← listValue? env "allowed_origins"
  let settings := Settings.mk
    <$> textSetting env "app_name" standard.appName
    <*> textSetting env "kv_backend" standard.backend
    <*> textSetting env "kv_collection" standard.collection
    <*> listSetting "allowed_hosts" hosts standard.allowedHosts
    <*> listSetting "allowed_origins" origins standard.allowedOrigins
    <*> integerSetting env "max_message_kb" standard.maxMessageKb
    <*> textSetting env "default_author" standard.defaultAuthor
    <*> textSetting env "api_url" standard.apiUrl
    <*> textSetting env "state_file" standard.stateFile
  settings.toExcept.mapError .invalid

end Settings

end CommentThreads
