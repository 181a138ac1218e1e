import SyncAccounting.StreamKey
import SyncAccounting.Count

/-!
The ways in which a sync breaks the rules that the accounting rests on.
-/

set_option autoImplicit false

namespace SyncAccounting

inductive Fault where
  /-- A message that the protocol does not allow at this point. -/
  | contract (detail : String)
  /-- A snapshot that does not fit in the memory left for snapshots. -/
  | overBudget (index : CheckpointIndex) (requested remaining limit : Count)
  /-- An acknowledgement of a checkpoint that is not there. -/
  | unknownCheckpoint (index : CheckpointIndex)
  /-- A snapshot whose index is not above that of the last one. -/
  | outOfOrder (index last : CheckpointIndex)
  deriving DecidableEq

namespace Fault

def streamAfterSync (stream : StreamKey) : Fault :=
  .contract ("per-stream estimate for " ++ stream.text ++ " received after a sync-wide estimate")

def syncAfterStream : Fault :=
  .contract "sync-wide estimate received after per-stream estimates"

def message : Fault → String
  | contract detail => "input contract violation: " ++ detail
  | overBudget index requested remaining limit =>
    s!"checkpoint {index} needs {requested} bytes but only {remaining} of {limit} remain"
  | unknownCheckpoint index => s!"checkpoint {index} was never added"
  | outOfOrder index last => s!"checkpoint {index} added after checkpoint {last}"

end Fault

end SyncAccounting
