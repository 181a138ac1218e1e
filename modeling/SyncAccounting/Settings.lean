import SyncAccounting.Budget

/-!
The settings of the accounting.
-/

set_option autoImplicit false

namespace SyncAccounting

structure Settings where
  /-- The memory for snapshots that are not acknowledged. -/
  maxPendingStateBytes : Count
  /-- Without it committed counts are never known. -/
  commitTrackingEnabled : Bool
  /-- Whether every checkpoint and acknowledgement is logged. -/
  logCheckpoints : Bool
  deriving DecidableEq

namespace Settings

def default : Settings := ⟨Budget.defaultLimit, true, false⟩

instance : Inhabited Settings := ⟨default⟩

inductive Problem where
  /-- Not even the snapshot of one checkpoint fits. -/
  | noRoomForCheckpoint
  deriving DecidableEq

def Problem.text : Problem → String
  | noRoomForCheckpoint =>
    s!"max_pending_state_bytes must be at least {snapshotCost 0} bytes to hold one checkpoint"

def problems (s : Settings) : List Problem :=
  if s.commitTrackingEnabled && s.maxPendingStateBytes < snapshotCost 0 then [.noRoomForCheckpoint]
  else []

def problemsText (problems : List Problem) : String :=
  "Tracker config validation failed:\n  - " ++
    String.intercalate "\n  - " (problems.map Problem.text)

end Settings

end SyncAccounting
