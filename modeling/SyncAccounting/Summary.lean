import SyncAccounting.Tally
import SyncAccounting.StreamKey

/-!
What is known about an attempt, for reports. A committed count that is not known is none, which is
not the same as zero.
-/

set_option autoImplicit false

namespace SyncAccounting

structure StreamSummary where
  stream : StreamKey
  recordsEmitted : Count
  bytesEmitted : Count
  recordsEstimated : Option Count
  bytesEstimated : Option Count
  recordsCommitted : Option Count
  bytesCommitted : Option Count
  deriving DecidableEq

/-- In whole seconds: the gaps between checkpoints of the source, and the delays until the
destination acknowledged them. -/
structure CheckpointTiming where
  longestGap : Option Count
  meanGap : Option Count
  longestDelay : Option Count
  meanDelay : Option Count
  deriving DecidableEq

structure SyncSummary where
  recordsEmitted : Count
  bytesEmitted : Count
  recordsEstimated : Count
  bytesEstimated : Count
  recordsCommitted : Option Count
  bytesCommitted : Option Count
  sourceCheckpoints : Count
  destinationCheckpoints : Count
  maxSnapshotBytes : Count
  pendingStateBytes : Count
  timing : CheckpointTiming
  streams : List StreamSummary
  deriving DecidableEq

def knownText : Option Count → String
  | some n => n.text
  | none => "unknown"

def StreamSummary.text (s : StreamSummary) : String :=
  "  " ++ s.stream.text ++ ": emitted " ++ s.recordsEmitted.text ++ ", committed " ++
    knownText s.recordsCommitted ++ "\n"

namespace SyncSummary

def text (s : SyncSummary) : String :=
  "records emitted: " ++ s.recordsEmitted.text ++ "\n" ++
  "bytes emitted: " ++ s.bytesEmitted.text ++ "\n" ++
  "records estimated: " ++ s.recordsEstimated.text ++ "\n" ++
  "records committed: " ++ knownText s.recordsCommitted ++ "\n" ++
  "bytes committed: " ++ knownText s.bytesCommitted ++ "\n" ++
  "checkpoints: " ++ s.sourceCheckpoints.text ++ " emitted, " ++
    s.destinationCheckpoints.text ++ " acknowledged\n" ++
  String.join (s.streams.map StreamSummary.text)

/-- An attempt made progress where it is known to have committed a record. -/
def madeProgress (s : SyncSummary) : Bool := s.recordsCommitted.any (0 < ·)

end SyncSummary

end SyncAccounting
