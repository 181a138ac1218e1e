import SyncAccounting.Json.Printer
import SyncAccounting.StreamKey
import SyncAccounting.Tally

/-!
The messages that the source and the destination of a sync send: records, checkpoints, estimates
of what is to come, and traces of errors and of the progress of streams.
-/

set_option autoImplicit false

namespace SyncAccounting

structure RecordMessage where
  stream : StreamKey
  data : Json.Value
  byteSize : Count

def RecordMessage.ofData (stream : StreamKey) (data : Json.Value) : RecordMessage :=
  ⟨stream, data, data.byteSize⟩

inductive CheckpointKind where
  | global
  | stream
  | legacy
  deriving DecidableEq, Inhabited

namespace CheckpointKind

def names : List (String × CheckpointKind) :=
  [("global", global), ("stream", stream), ("legacy", legacy)]

def text : CheckpointKind → String
  | global => "global"
  | stream => "stream"
  | legacy => "legacy"

def label : CheckpointKind → String
  | global => "Global"
  | stream => "Stream"
  | legacy => "Legacy"

end CheckpointKind

/-- A point from which a sync can go on: of the whole sync or of one stream. The source sends one
after the records before it, and the destination sends it back once these are safe. -/
inductive Checkpoint where
  | global (data : Json.Value)
  | stream (stream : StreamKey) (data : Json.Value)
  | legacy (data : Json.Value)

namespace Checkpoint

def kind : Checkpoint → CheckpointKind
  | global _ => .global
  | stream _ _ => .stream
  | legacy _ => .legacy

def data : Checkpoint → Json.Value
  | global d => d
  | stream _ d => d
  | legacy d => d

def stream? : Checkpoint → Option StreamKey
  | stream s _ => some s
  | _ => none

end Checkpoint

structure Estimate where
  bytes : Count
  records : Count
  deriving DecidableEq, Inhabited

inductive EstimateMessage where
  | stream (stream : StreamKey) (estimate : Estimate)
  | sync (estimate : Estimate)
  deriving DecidableEq

def EstimateMessage.estimate : EstimateMessage → Estimate
  | stream _ e => e
  | sync e => e

inductive FailureType where
  | configError
  | systemError
  deriving DecidableEq, Inhabited

def FailureType.names : List (String × FailureType) :=
  [("config_error", configError), ("system_error", systemError)]

structure TraceError where
  message : String
  internalMessage : Option String
  stackTrace : Option String
  failureType : FailureType
  deriving DecidableEq

inductive StreamStatus where
  | started
  | running
  | complete
  | incomplete
  deriving DecidableEq, Inhabited

def StreamStatus.names : List (String × StreamStatus) :=
  [("started", started), ("running", running), ("complete", complete), ("incomplete", incomplete)]

inductive TracePayload where
  | error (error : TraceError)
  | streamStatus (stream : StreamKey) (status : StreamStatus)
  deriving DecidableEq

structure TraceMessage where
  emittedAt : Binary64
  payload : TracePayload
  deriving DecidableEq

def TraceMessage.error? (t : TraceMessage) : Option TraceError :=
  match t.payload with
  | .error e => some e
  | .streamStatus _ _ => none

inductive Message where
  | record (r : RecordMessage)
  | checkpoint (c : Checkpoint)
  | estimate (e : EstimateMessage)
  | trace (t : TraceMessage)

inductive Side where
  | source
  | destination
  deriving DecidableEq, Inhabited

namespace Side

def names : List (String × Side) := [("source", source), ("destination", destination)]

def text : Side → String
  | source => "source"
  | destination => "destination"

end Side

end SyncAccounting
