import SyncAccounting.Json.Tagged
import SyncAccounting.Message

/-!
How messages are written.
-/

set_option autoImplicit false

namespace SyncAccounting

open Json

namespace StreamKey

def record : Record StreamKey where
  fields := .cons (.required "name" .string) (.cons (.skipped "namespace" .string) .nil)
  strict := false
  build | (name, space, _) => ⟨name, space⟩
  parts key := (key.name, key.space, ())

def codec : Codec StreamKey := record.codec

end StreamKey

namespace RecordMessage

def record : Record RecordMessage where
  fields := .cons (.required "stream" StreamKey.codec) (.cons (.required "data" .free)
    (.cons (.required "byte_size" .count) .nil))
  strict := false
  build | (stream, data, size, _) => ⟨stream, data, size⟩
  parts r := (r.stream, r.data, r.byteSize, ())

def codec : Codec RecordMessage := record.codec

end RecordMessage

namespace CheckpointKind

def codec : Codec CheckpointKind := .named names

end CheckpointKind

def dataRecord : Record Value where
  fields := .cons (.required "data" .free) .nil
  strict := false
  build | (data, _) => data
  parts data := (data, ())

def streamDataRecord : Record (StreamKey × Value) where
  fields := .cons (.required "stream" StreamKey.codec) (.cons (.required "data" .free) .nil)
  strict := false
  build | (stream, data, _) => (stream, data)
  parts p := (p.1, p.2, ())

namespace Checkpoint

def variants : List (Variant Checkpoint) :=
  [.of "global" dataRecord.codec global fun | global d => some d | _ => none,
   .of "stream" streamDataRecord.codec (fun p => stream p.1 p.2)
     fun | stream s d => some (s, d) | _ => none,
   .of "legacy" dataRecord.codec legacy fun | legacy d => some d | _ => none]

def codec : Codec Checkpoint := Tagged.among "kind" variants

end Checkpoint

namespace EstimateMessage

def streamRecord : Record (StreamKey × Estimate) where
  fields := .cons (.required "stream" StreamKey.codec) (.cons (.required "byte_estimate" .count)
    (.cons (.required "row_estimate" .count) .nil))
  strict := false
  build | (key, bytes, rows, _) => (key, ⟨bytes, rows⟩)
  parts p := (p.1, p.2.bytes, p.2.records, ())

def syncRecord : Record Estimate where
  fields := .cons (.required "byte_estimate" .count) (.cons (.required "row_estimate" .count) .nil)
  strict := false
  build | (bytes, rows, _) => ⟨bytes, rows⟩
  parts e := (e.bytes, e.records, ())

def variants : List (Variant EstimateMessage) :=
  [.of "stream" streamRecord.codec (fun p => stream p.1 p.2)
     fun | stream s e => some (s, e) | _ => none,
   .of "sync" syncRecord.codec sync fun | sync e => some e | _ => none]

def codec : Codec EstimateMessage := Tagged.among "kind" variants

end EstimateMessage

namespace FailureType

def codec : Codec FailureType := .named names

end FailureType

namespace TraceError

def record : Record TraceError where
  fields := .cons (.required "message" .string) (.cons (.skipped "internal_message" .string)
    (.cons (.skipped "stack_trace" .string)
    (.cons (.preset "failure_type" FailureType.codec .systemError) .nil)))
  strict := false
  build | (message, internal, stack, type, _) => ⟨message, internal, stack, type⟩
  parts e := (e.message, e.internalMessage, e.stackTrace, e.failureType, ())

def codec : Codec TraceError := record.codec

end TraceError

namespace StreamStatus

def codec : Codec StreamStatus := .named names

end StreamStatus

namespace TracePayload

def statusRecord : Record (StreamKey × StreamStatus) where
  fields := .cons (.required "stream" StreamKey.codec)
    (.cons (.required "status" StreamStatus.codec) .nil)
  strict := false
  build | (stream, status, _) => (stream, status)
  parts p := (p.1, p.2, ())

def variants : List (Variant TracePayload) :=
  [.of "error" TraceError.codec error fun | error e => some e | _ => none,
   .of "stream_status" statusRecord.codec (fun p => streamStatus p.1 p.2)
     fun | streamStatus s t => some (s, t) | _ => none]

def codec : Codec TracePayload := Tagged.among "type" variants

end TracePayload

namespace TraceMessage

def record : Record TraceMessage where
  fields := .cons (.required "emitted_at" .real)
    (.cons (.required "payload" TracePayload.codec) .nil)
  strict := false
  build | (at_, payload, _) => ⟨at_, payload⟩
  parts t := (t.emittedAt, t.payload, ())

def codec : Codec TraceMessage := record.codec

end TraceMessage

namespace Message

def variants : List (Variant Message) :=
  [.of "record" RecordMessage.codec record fun | record r => some r | _ => none,
   .of "checkpoint" Checkpoint.codec checkpoint fun | checkpoint c => some c | _ => none,
   .of "estimate" EstimateMessage.codec estimate fun | estimate e => some e | _ => none,
   .of "trace" TraceMessage.codec trace fun | trace t => some t | _ => none]

def codec : Codec Message := Tagged.beside "type" "body" variants

end Message

namespace Side

def codec : Codec Side := .named names

end Side

end SyncAccounting
