import SyncAccounting.Attempt
import SyncAccounting.Summary

/-!
What can be asked about an attempt. Nothing here changes it, and committed counts are none where
they are not known.
-/

set_option autoImplicit false

namespace SyncAccounting.Attempt

/-- The committed row, where commits are tracked and the ledger is healthy. -/
def committed? (a : Attempt) : Option TallyRow := a.ledger.bind Ledger.committed?

def budget? (a : Attempt) : Option Budget := a.ledger.map Ledger.budget

def recordsEmitted (a : Attempt) : Count := a.emission.total.records

def bytesEmitted (a : Attempt) : Count := a.emission.total.bytes

def recordsEstimated (a : Attempt) : Count := a.estimates.total.records

def bytesEstimated (a : Attempt) : Count := a.estimates.total.bytes

def recordsCommitted (a : Attempt) : Option Count :=
  a.committed?.map fun row => Count.sum (row.map (·.records))

def bytesCommitted (a : Attempt) : Option Count :=
  a.committed?.map fun row => Count.sum (row.map (·.bytes))

/-- The largest snapshot so far; zero where commits are not tracked. -/
def maxSnapshotBytes (a : Attempt) : Count := a.budget?.elim 0 (·.peak)

def pendingStateBytes (a : Attempt) : Count := a.budget?.elim 0 (·.used)

def perStream (a : Attempt) (count : Nat → Count) : List (StreamKey × Count) :=
  a.registry.toList.map fun p => (p.2, count p.1)

def streamRecordsEmitted (a : Attempt) : List (StreamKey × Count) :=
  a.perStream fun i => (a.emission.stream i).records

def streamBytesEmitted (a : Attempt) : List (StreamKey × Count) :=
  a.perStream fun i => (a.emission.stream i).bytes

/-- Estimates for the whole sync say nothing about its streams. -/
def streamRecordsEstimated (a : Attempt) : List (StreamKey × Count) :=
  a.estimates.streams.map fun p => (p.1, p.2.records)

def streamBytesEstimated (a : Attempt) : List (StreamKey × Count) :=
  a.estimates.streams.map fun p => (p.1, p.2.bytes)

def streamRecordsCommitted (a : Attempt) : Option (List (StreamKey × Count)) :=
  a.committed?.map fun row => a.perStream fun i => (row.tally i).records

def streamBytesCommitted (a : Attempt) : Option (List (StreamKey × Count)) :=
  a.committed?.map fun row => a.perStream fun i => (row.tally i).bytes

def streamSummary (a : Attempt) (position : Nat) (key : StreamKey) : StreamSummary where
  stream := key
  recordsEmitted := (a.emission.stream position).records
  bytesEmitted := (a.emission.stream position).bytes
  recordsEstimated := (a.estimates.stream? key).map (·.records)
  bytesEstimated := (a.estimates.stream? key).map (·.bytes)
  recordsCommitted := a.committed?.map fun row => (row.tally position).records
  bytesCommitted := a.committed?.map fun row => (row.tally position).bytes

def summary (a : Attempt) : SyncSummary where
  recordsEmitted := a.recordsEmitted
  bytesEmitted := a.bytesEmitted
  recordsEstimated := a.recordsEstimated
  bytesEstimated := a.bytesEstimated
  recordsCommitted := a.recordsCommitted
  bytesCommitted := a.bytesCommitted
  sourceCheckpoints := a.sourceCheckpoints
  destinationCheckpoints := a.destinationCheckpoints
  maxSnapshotBytes := a.maxSnapshotBytes
  pendingStateBytes := a.pendingStateBytes
  timing := a.latency.timing
  streams := a.registry.toList.map fun p => a.streamSummary p.1 p.2

def failureReason (a : Attempt) (timestamp : Int64) (number : UInt32) : Option FailureReason :=
  a.errors.reason timestamp number

def debugText (a : Attempt) : String :=
  "MessageTracker \x7b config: TrackerConfig \x7b max_pending_state_bytes: " ++
    a.settings.maxPendingStateBytes.text ++ ", commit_tracking_enabled: " ++
    toString a.settings.commitTrackingEnabled ++ ", log_checkpoints: " ++
    toString a.settings.logCheckpoints ++ " \x7d, .. \x7d"

end SyncAccounting.Attempt
