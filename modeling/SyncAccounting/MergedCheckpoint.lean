import SyncAccounting.Message

/-!
The point from which a sync can go on, after several checkpoints. A checkpoint of the whole sync
replaces all before it; one of a stream replaces only what is known of this stream.
-/

set_option autoImplicit false

namespace SyncAccounting

inductive MergedCheckpoint where
  /-- The data of one checkpoint of the whole sync. -/
  | single (kind : CheckpointKind) (data : Json.Value)
  /-- The data of the last checkpoint of each stream. -/
  | perStream (streams : List (StreamKey × Json.Value))

namespace MergedCheckpoint

/-- What is known after one more checkpoint; the streams stay in order. -/
def ingest (known : Option MergedCheckpoint) : Checkpoint → MergedCheckpoint
  | .global data => .single .global data
  | .legacy data => .single .legacy data
  | .stream stream data =>
    match known with
    | some (.perStream streams) => .perStream (SortedList.insert stream data streams)
    | _ => .perStream [(stream, data)]

def ofCheckpoints (checkpoints : List Checkpoint) : Option MergedCheckpoint :=
  checkpoints.foldl (fun known c => some (ingest known c)) none

end MergedCheckpoint

end SyncAccounting
