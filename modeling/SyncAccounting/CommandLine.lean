import SyncAccounting.Attempt.Statistics
import SyncAccounting.CommandLine.Arguments
import SyncAccounting.Settings.Source
import SyncAccounting.Transcript
import SyncAccounting.Wire.Report

/-!
The commands: to replay a transcript and report what became of it, and to check a file of settings.
A command is a function from the files that it may read to what it prints and writes.
-/

set_option autoImplicit false

namespace SyncAccounting.CommandLine

open Json

inductive Resource where
  | missing
  | directory
  | file (content : ByteArray)

def Resource.content? : Resource → Option ByteArray
  | file content => some content
  | missing | directory => none

/-- What a command finds: variables, files, which files it may write, and the time. -/
structure World where
  environment : Environment
  resource : String → Resource
  canWrite : String → Bool
  /-- Milliseconds since 1970. -/
  timestamp : Int64

inductive CommandError where
  | settingsUnusable (path : String) (cause : SettingsError)
  | settingsInvalid (problems : List Settings.Problem)
  | transcriptMissing (path : String)
  | transcriptFault (fault : Transcript.Fault)
  | stateUnwritable (path : String)
  deriving DecidableEq

namespace CommandError

def message : CommandError → String
  | settingsUnusable path _ => "Failed to parse tracker config: " ++ path
  | settingsInvalid problems => Settings.problemsText problems
  | transcriptMissing path => "Failed to open transcript: " ++ path
  | transcriptFault fault => fault.message
  | stateUnwritable path => "Failed to write state file: " ++ path

def causes : CommandError → List String
  | settingsUnusable _ cause => [cause.message]
  | _ => []

end CommandError

structure Outcome where
  exitCode : UInt32
  stdout : String
  written : List (String × String)
  error : Option CommandError

namespace Outcome

def success (stdout : String) : Outcome := ⟨0, stdout, [], none⟩

def failure (error : CommandError) : Outcome := ⟨1, "", [], some error⟩

def misuse : Outcome := ⟨2, "", [], none⟩

end Outcome

def settings (w : World) (path? : Option String) : Except CommandError Settings := do
  let s ← match path? with
    | none => .ok .default
    | some path =>
      match Settings.ofFile w.environment path (w.resource path).content? with
      | .ok s => .ok s
      | .error cause => .error (.settingsUnusable path cause)
  if s.problems.isEmpty then return s else throw (.settingsInvalid s.problems)

/-! ### Checking settings -/

def settingsReport (s : Settings) : String :=
  "max_pending_state_bytes: " ++ s.maxPendingStateBytes.text ++ "\n" ++
  "commit_tracking_enabled: " ++ toString s.commitTrackingEnabled ++ "\n" ++
  "log_checkpoints:         " ++ toString s.logCheckpoints ++ "\n\nConfig is valid.\n"

def runConfig (w : World) (path : String) : Outcome :=
  match settings w (some path) with
  | .ok s => .success (settingsReport s)
  | .error e => .failure e

/-! ### Replaying a transcript -/

structure Job where
  options : ReplayOptions
  start : Replay
  lines : List (List UInt8)

def prepare (w : World) (options : ReplayOptions) : Except CommandError Job := do
  let s ← settings w options.config
  match w.resource options.transcript with
  | .missing => throw (.transcriptMissing options.transcript)
  | .directory => throw (.transcriptFault (.unreadable 1))
  | .file content =>
    return ⟨options, .start (.ofSettings s), Transcript.lines content.data.toList⟩

def report (w : World) (options : ReplayOptions) (r : Replay) : Value :=
  let summary := r.attempt.summary
  .object
    [("summary", SyncSummary.codec.write summary),
     ("failure_reason",
       FailureReason.codec.optional.write (r.attempt.failureReason w.timestamp options.attempt)),
     ("made_progress", .bool summary.madeProgress),
     ("rejected_messages", .count r.rejected)]

def stateText (a : Attempt) : Option String :=
  a.committedState.map fun state => (MergedCheckpoint.codec.write state).pretty

/-- The outcome of a replay that has stopped: a report, and the state in a file where one is asked
for and there is one. -/
def finish (w : World) (job : Job) (r : Replay) : Outcome :=
  match r.fault with
  | some fault => .failure (.transcriptFault fault)
  | none =>
    let printed : Outcome := .success ((report w job.options r).pretty ++ "\n")
    match job.options.stateOut, stateText r.attempt with
    | some path, some text =>
      if w.canWrite path then { printed with written := [(path, text)] }
      else { printed with exitCode := 1, error := some (.stateUnwritable path) }
    | _, _ => printed

def runReplay (w : World) (clock : Nat → Instant) (options : ReplayOptions) : Outcome :=
  match prepare w options with
  | .ok job => finish w job (job.start.feedAll clock job.lines)
  | .error e => .failure e

/-! ### Calls -/

def versionText : String := "syncledger 0.1.0\n"

def helpText : String :=
  "Usage: syncledger [--log-level LEVEL] replay TRANSCRIPT [--config FILE] [--attempt N] " ++
  "[--state-out FILE]\n       syncledger [--log-level LEVEL] config FILE\n"

def run (w : World) (clock : Nat → Instant) (arguments : List String) : Outcome :=
  match request arguments with
  | .run (.replay options) => runReplay w clock options
  | .run (.config path) => runConfig w path
  | .version => .success versionText
  | .help => .success helpText
  | .misuse => .misuse

end SyncAccounting.CommandLine
