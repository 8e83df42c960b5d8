/-
CommentThreads.Main — the terminal as a program.

The command line and the settings say how it runs. The service runs within
the program, over an empty store in memory, so comments last as long as
the program does; what the terminal itself remembers is kept in its file.
Everything that is decided is decided elsewhere: here lines are read,
files are read and written, and random numbers and times are fetched.
-/
import CommentThreads.CommandLine.Invocation
import CommentThreads.Server.Service
import Std.Time.DateTime.Timestamp
import Std.Time.Zoned.Database

namespace CommentThreads.Main

open CommentThreads.CommandLine CommentThreads.Terminal

/-- The service, and what it keeps. -/
structure Host where
  service : Server.Service
  store : Store.Backend

/-- How many random numbers a single request can need. -/
def numbersPerRequest : Nat := 8

/-- Bytes as hexadecimal digits. -/
def hexDigits (bytes : List UInt8) : String :=
  String.ofList (bytes.flatMap fun b => Text.hex 2 b.toNat)

/-- Random bytes. -/
def randomBytes (count : Nat) : IO (List UInt8) := do
  return (← IO.getRandomBytes count.toUSize).toList

/-- The time in microseconds since the start of 1970. -/
def currentMicros : IO Int := do
  return (← Std.Time.Timestamp.now).toNanosecondsSinceUnixEpoch.val / 1000

/-- By how many minutes local time is ahead of universal time; none if the
system does not say where it is. -/
def localZone : IO Int := do
  try
    let rules ← Std.Time.Database.defaultGetLocalZoneRules
    return (rules.timezoneAt (← Std.Time.Timestamp.now)).offset.second.val / 60
  catch _ => return 0

/-- The random numbers and the time for one request. -/
def supply : IO Store.Supply := do
  let numbers ← (List.range numbersPerRequest).mapM fun _ => hexDigits <$> randomBytes 16
  let micros ← currentMicros
  return ⟨fun k => numbers.getD k "", fun _ => micros, 0, 0⟩

/-- Hold a dialogue with the service. -/
def hold {α : Type} : Client.Dialogue α → StateT Host IO α
  | .done a => return a
  | .ask query next => do
    let host ← get
    let salt ← Password.Salt.text <$> randomBytes 16
    let service := { host.service with salt := salt }
    let (response, site) :=
      (Server.respond service (query.toRequest "localhost")).run ⟨host.store, ← supply⟩
    set { host with store := site.store }
    hold (next (.ofResponse response))

/-- The path with the home directory for a leading tilde. -/
def expandHome (path : String) : IO String := do
  match Text.following? "~/" path, ← IO.getEnv "HOME" with
  | some rest, some home => return home ++ "/" ++ rest
  | _, _ => return path

/-- There is a directory at a path. -/
def isDirectory (path : String) : IO Bool := do
  try (← IO.FS.realPath path).isDir catch _ => return false

/-- The bytes of a file that can be read. -/
def fileBytes? (path : String) : IO (Option (List UInt8)) := do
  try return some (← IO.FS.readBinFile path).toList catch _ => return none

/-- What is at a path. -/
def placeAt (path : String) : IO StateFile.Place := do
  if path = "" then return .memory
  else if ← isDirectory path then return .directory
  else return .file (← fileBytes? path)

/-- The directories above a path. -/
def directoryOf (path : String) : String :=
  String.ofList ((path.toList.reverse.dropWhile (· ≠ '/')).reverse)

/-- Write what has changed. -/
def writePlace (path : String) (before after : StateFile.Place) : IO Unit := do
  match after with
  | .file (some bytes) =>
    if before ≠ after then
      let directory := directoryOf path
      if directory ≠ "" then IO.FS.createDirAll directory
      IO.FS.writeBinFile path ⟨bytes.toArray⟩
  | _ => return ()

/-- A program under way: where its state is kept, how it was set up, whether
its screen has colours, and how it stands. -/
structure Running where
  path : String
  setup : Setup
  color : Bool
  console : Console

/-- Make a step of the loop: show what it shows, and keep what it changes. -/
def step {α : Type} (loop : Loop α) (r : Running) :
    StateT Host IO (Except Stop α × Running) := do
  let (result, console) ← hold (loop.run.run r.console)
  IO.print (String.ofList console.screen)
  writePlace r.path r.console.terminal.file.place console.terminal.file.place
  return (result, { r with console := { console with screen := [] } })

/-- The exit code of a terminal that has ended; why it stopped is reported. -/
def finish {α : Type} (result : Except Stop α) : IO UInt32 := do
  if let .error stop := result then IO.eprintln ("Error: " ++ stop.message)
  return (exitCode result).toUInt32

/-- Take lines until the loop or the input ends. -/
partial def takeAll (r : Running) : StateT Host IO UInt32 := do
  let stdout ← IO.getStdout
  stdout.putStr (r.console.terminal.prompt.text ++ " ")
  stdout.flush
  let line ← (← IO.getStdin).getLine
  if line = "" then
    IO.println ""
    return 0
  let typed := String.ofList (((Text.inputLines line.toList).head?).getD [])
  match ← step (takeLine r.setup r.color typed) r with
  | (.ok true, r) => takeAll r
  | (result, _) => finish result

/-- The variables of the environment that settings are read from. -/
def environment : IO Settings.Environment := do
  let names := Settings.names.flatMap Settings.spellings
  let found ← names.mapM fun name => do return (← IO.getEnv name).map (name, ·)
  return found.filterMap id

/-- Run a terminal with some options. -/
def runTerminal (settings : Settings) (options : Options) : IO UInt32 := do
  let path ← expandHome options.stateFile
  match StateFile.load (← placeAt path) with
  | .error fault => finish (.error (.failed (.file fault)) : Except Stop Unit)
  | .ok file =>
    let host : Host := ⟨⟨settings, "", true⟩, .memory .empty⟩
    let setup : Setup := ⟨options.post, settings.defaultAuthor, ← localZone⟩
    let color ← (← IO.getStdout).isTty
    let session : StateT Host IO UInt32 := do
      match ← step (showing color greet) ⟨path, setup, color, .start file none⟩ with
      | (.ok _, r) => takeAll r
      | (result, _) => finish result
    session.run' host

/-- Run the terminal that the arguments and the environment describe. -/
def run (arguments : List String) : IO UInt32 := do
  match Settings.ofEnvironment (← environment) with
  | .error _ =>
    IO.eprintln "Error: the settings in the environment cannot be read"
    return 1
  | .ok settings =>
    match CommandLine.start settings arguments with
    | .terminal options => runTerminal settings options
    | .told text code =>
      (if code = 0 then IO.print else IO.eprint) text
      return code.toUInt32

end CommentThreads.Main

/-- Run the terminal. -/
def main (arguments : List String) : IO UInt32 :=
  CommentThreads.Main.run arguments
