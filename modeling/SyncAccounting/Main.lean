import SyncAccounting.CommandLine
import Std.Time.DateTime.Timestamp

/-!
The program: it gathers the files, variables and times that a command asks for, and prints and
writes what the command says.
-/

set_option autoImplicit false

namespace SyncAccounting.CommandLine

/-- The code of the error that a directory, once opened, cannot be read as a file. -/
def isDirectoryCode : UInt32 := 21

/-- What a path names; a file that cannot be opened is as good as missing. -/
def readResource (path : String) : IO Resource := do
  try
    return .file (← IO.FS.readBinFile path)
  catch
    | .inappropriateType _ code _ =>
      return if code = isDirectoryCode then .directory else .missing
    | _ => return .missing

/-- The variables that a file refers to, where they are set. The system gives their values as text,
so that none is left out for its bytes. -/
def readEnvironment (resource : Resource) : IO Environment := do
  let text := (resource.content?.bind String.fromUTF8?).getD ""
  let mut environment : Environment := []
  for piece in Template.pieces text.toList do
    if let .reference name := piece then
      if let some value ← IO.getEnv (String.ofList name) then
        environment := environment ++ [(String.ofList name, value.toUTF8)]
  return environment

def gather (config other : Option String) : IO World := do
  let read (path? : Option String) : IO Resource := path?.elim (return .missing) readResource
  let settings ← read config
  let content ← read other
  return {
    environment := ← readEnvironment settings
    resource := fun path => if other = some path then content else settings
    canWrite := fun _ => true
    timestamp := 0 }

def replayNow (options : ReplayOptions) : IO Outcome := do
  let w ← gather options.config (some options.transcript)
  match prepare w options with
  | .error e => return .failure e
  | .ok job =>
    let mut replay := job.start
    for line in job.lines do
      replay := replay.feed (← IO.monoNanosNow) line
    let now ← Std.Time.Timestamp.now
    return finish { w with timestamp := .ofInt now.toMillisecondsSinceUnixEpoch.toInt } job replay

def answer : Request → IO Outcome
  | .run (.replay options) => replayNow options
  | .run (.config path) => return runConfig (← gather (some path) none) path
  | .version => return .success versionText
  | .help => return .success helpText
  | .misuse => return .misuse

def complain (e : CommandError) : IO Unit := do
  IO.eprintln ("Error: " ++ e.message)
  for cause in e.causes do
    IO.eprintln ("Caused by: " ++ cause)

def settle (outcome : Outcome) : IO UInt32 := do
  IO.print outcome.stdout
  for (path, text) in outcome.written do
    try
      IO.FS.writeFile path text
    catch _ =>
      complain (.stateUnwritable path)
      return 1
  if let some e := outcome.error then complain e
  return outcome.exitCode

end SyncAccounting.CommandLine

open SyncAccounting.CommandLine in
def main (arguments : List String) : IO UInt32 := do
  let request := request arguments
  if request = .misuse then IO.eprint helpText
  settle (← answer request)
