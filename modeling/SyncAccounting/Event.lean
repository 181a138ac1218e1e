import SyncAccounting.Fault
import SyncAccounting.Message

/-!
What is logged while a sync is accounted for, and how an entry of the log reads.
-/

set_option autoImplicit false

namespace SyncAccounting

inductive Level where
  | error
  | warn
  | debug
  deriving DecidableEq

def Level.text : Level → String
  | error => "ERROR"
  | warn => "WARN"
  | debug => "DEBUG"

inductive Event where
  /-- A stream was seen for the first time. -/
  | streamObserved (stream : StreamKey) (position : Nat)
  | estimateRejected (fault : Fault)
  /-- The destination sent a message that only the source should send. -/
  | destinationIgnored
  /-- The ledger failed at a checkpoint. -/
  | countsUnreliable (checkpoint : CheckpointIndex) (fault : Fault)
  /-- The ledger failed because an access to it was cut short. -/
  | accessInterrupted
  /-- An acknowledgement carries other data than the checkpoint it stands for. -/
  | payloadMismatch (checkpoint : CheckpointIndex)
  /-- Delays are no longer measured. -/
  | delaysAbandoned (checkpoint : CheckpointIndex) (pending : Nat)
  | checkpointSeen (side : Side) (checkpoint : CheckpointIndex) (kind : CheckpointKind)
  /-- The first error of a side. -/
  | errorReported (side : Side) (message : String)
  /-- A later error of a side. -/
  | errorIgnored (side : Side) (message : String)
  deriving DecidableEq

namespace Event

def level : Event → Level
  | countsUnreliable _ _ | accessInterrupted => .error
  | streamObserved _ _ | checkpointSeen _ _ _ | errorIgnored _ _ => .debug
  | estimateRejected _ | destinationIgnored | payloadMismatch _ | delaysAbandoned _ _
  | errorReported _ _ => .warn

/-- The text of an entry; an error of a side speaks for itself. -/
def text : Event → String
  | streamObserved _ _ => "New stream observed"
  | estimateRejected _ => "Rejected source estimate"
  | destinationIgnored => "Ignoring record or estimate emitted by the destination"
  | countsUnreliable _ _ => "Committed counts are no longer reliable for this attempt"
  | accessInterrupted => "Tracker lock poisoned; committed counts are no longer reliable"
  | payloadMismatch _ =>
    "Destination checkpoint payload differs from the source checkpoint at the same position"
  | delaysAbandoned _ _ =>
    "Too many unacknowledged checkpoints; commit latency no longer tracked"
  | checkpointSeen .source _ _ => "Source checkpoint"
  | checkpointSeen .destination _ _ => "Destination acknowledged checkpoint"
  | errorReported _ message | errorIgnored _ message => message

def details : Event → List (String × String)
  | streamObserved stream position => [("stream", stream.text), ("index", position.repr)]
  | estimateRejected fault => [("error", fault.message)]
  | destinationIgnored | accessInterrupted => []
  | countsUnreliable checkpoint fault =>
    [("checkpoint", checkpoint.text), ("error", fault.message)]
  | payloadMismatch checkpoint => [("checkpoint", checkpoint.text)]
  | delaysAbandoned checkpoint pending =>
    [("checkpoint", checkpoint.text), ("pending", pending.repr)]
  | checkpointSeen _ checkpoint kind => [("checkpoint", checkpoint.text), ("kind", kind.label)]
  | errorReported side _ | errorIgnored side _ => [("side", side.text)]

end Event

end SyncAccounting
