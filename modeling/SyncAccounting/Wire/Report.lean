import SyncAccounting.Wire.Message
import SyncAccounting.Failure
import SyncAccounting.MergedCheckpoint
import SyncAccounting.Summary

/-!
How summaries, reasons of failures and merged checkpoints are written.
-/

set_option autoImplicit false

namespace SyncAccounting

open Json

namespace StreamSummary

def record : Record StreamSummary where
  fields := .cons (.required "stream" StreamKey.codec)
    (.cons (.required "records_emitted" .count) (.cons (.required "bytes_emitted" .count)
    (.cons (.skipped "records_estimated" .count) (.cons (.skipped "bytes_estimated" .count)
    (.cons (.nullable "records_committed" .count) (.cons (.nullable "bytes_committed" .count)
    .nil))))))
  strict := false
  build | (a, b, c, d, e, f, g, _) => ⟨a, b, c, d, e, f, g⟩
  parts s := (s.stream, s.recordsEmitted, s.bytesEmitted, s.recordsEstimated, s.bytesEstimated,
    s.recordsCommitted, s.bytesCommitted, ())

def codec : Codec StreamSummary := record.codec

end StreamSummary

namespace CheckpointTiming

def record : Record CheckpointTiming where
  fields := .cons (.nullable "max_seconds_between_source_checkpoints" .count)
    (.cons (.nullable "mean_seconds_between_source_checkpoints" .count)
    (.cons (.nullable "max_seconds_to_commit" .count)
    (.cons (.nullable "mean_seconds_to_commit" .count) .nil)))
  strict := false
  build | (a, b, c, d, _) => ⟨a, b, c, d⟩
  parts t := (t.longestGap, t.meanGap, t.longestDelay, t.meanDelay, ())

def codec : Codec CheckpointTiming := record.codec

end CheckpointTiming

namespace SyncSummary

def record : Record SyncSummary where
  fields := .cons (.required "records_emitted" .count) (.cons (.required "bytes_emitted" .count)
    (.cons (.required "records_estimated" .count) (.cons (.required "bytes_estimated" .count)
    (.cons (.nullable "records_committed" .count) (.cons (.nullable "bytes_committed" .count)
    (.cons (.required "source_checkpoints_emitted" .count)
    (.cons (.required "destination_checkpoints_received" .count)
    (.cons (.required "max_snapshot_bytes" .count) (.cons (.required "pending_state_bytes" .count)
    (.cons (.required "checkpoint_timing" CheckpointTiming.codec)
    (.cons (.required "streams" (.list StreamSummary.codec)) .nil)))))))))))
  strict := false
  build | (a, b, c, d, e, f, g, h, i, j, k, l, _) => ⟨a, b, c, d, e, f, g, h, i, j, k, l⟩
  parts s := (s.recordsEmitted, s.bytesEmitted, s.recordsEstimated, s.bytesEstimated,
    s.recordsCommitted, s.bytesCommitted, s.sourceCheckpoints, s.destinationCheckpoints,
    s.maxSnapshotBytes, s.pendingStateBytes, s.timing, s.streams, ())

def codec : Codec SyncSummary := record.codec

end SyncSummary

namespace FailureReason

def record : Record FailureReason where
  fields := .cons (.required "origin" Side.codec)
    (.cons (.required "failure_type" FailureType.codec)
    (.cons (.required "external_message" .string) (.cons (.skipped "internal_message" .string)
    (.cons (.skipped "stack_trace" .string) (.cons (.required "timestamp" .integer)
    (.cons (.required "emitted_at" .real) (.cons (.required "attempt_number" .word) .nil)))))))
  strict := false
  build | (a, b, c, d, e, f, g, h, _) => ⟨a, b, c, d, e, f, g, h⟩
  parts r := (r.origin, r.failureType, r.externalMessage, r.internalMessage, r.stackTrace,
    r.timestamp, r.emittedAt, r.attemptNumber, ())

def codec : Codec FailureReason := record.codec

end FailureReason

namespace MergedCheckpoint

def singleRecord : Record (CheckpointKind × Value) where
  fields := .cons (.required "kind" CheckpointKind.codec) (.cons (.required "data" .free) .nil)
  strict := false
  build | (kind, data, _) => (kind, data)
  parts p := (p.1, p.2, ())

def perStreamRecord : Record (List (StreamKey × Value)) where
  fields := .cons (.required "streams" (.list streamDataRecord.codec)) .nil
  strict := false
  build | (streams, _) => streams
  parts streams := (streams, ())

def variants : List (Variant MergedCheckpoint) :=
  [.of "single" singleRecord.codec (fun p => single p.1 p.2)
     fun | single k d => some (k, d) | _ => none,
   .of "per_stream" perStreamRecord.codec perStream fun | perStream s => some s | _ => none]

def codec : Codec MergedCheckpoint := Tagged.among "shape" variants

end MergedCheckpoint

end SyncAccounting
