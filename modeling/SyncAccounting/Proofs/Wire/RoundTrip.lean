import SyncAccounting.Proofs.Json.Records
import SyncAccounting.Wire.Report

/-!
Messages, summaries, reasons of failures and merged checkpoints are read back from their texts as
they were. Free data has to be whole and in normal form for this, and the time in a message has to
be a number whose text is read back; all other data can be anything.
-/

set_option autoImplicit false

namespace SyncAccounting

open Json

/-! ### Parts of messages -/

private theorem text_keeps (o : Option String) :
    ∀ s ∈ o, Codec.string.Keeps s ∧ Codec.string.write s ≠ .null :=
  fun s _ => ⟨Codec.keeps_string s, nofun⟩

private theorem count_keeps (o : Option Count) :
    ∀ n ∈ o, Codec.count.Keeps n ∧ Codec.count.write n ≠ .null :=
  fun n _ => ⟨Codec.keeps_count n, nofun⟩

private theorem StreamKey.keeps (key : StreamKey) : codec.Keeps key :=
  Record.keeps record (by decide) rfl
    ⟨Codec.keeps_string key.name, Member.keeps_skipped "namespace" (text_keeps key.space), trivial⟩

private theorem CheckpointKind.keeps (kind : CheckpointKind) : codec.Keeps kind :=
  Codec.keeps_named (by decide) (by cases kind <;> decide)

private theorem FailureType.keeps (type : FailureType) : codec.Keeps type :=
  Codec.keeps_named (by decide) (by cases type <;> decide)

private theorem StreamStatus.keeps (status : StreamStatus) : codec.Keeps status :=
  Codec.keeps_named (by decide) (by cases status <;> decide)

theorem Side.keeps (side : Side) : codec.Keeps side :=
  Codec.keeps_named (by decide) (by cases side <;> decide)

private theorem dataRecord_keeps {data : Value} (payload : Codec.free.Keeps data) :
    dataRecord.codec.Keeps data :=
  Record.keeps dataRecord (by decide) rfl ⟨payload, trivial⟩

private theorem streamDataRecord_keeps {p : StreamKey × Value} (payload : Codec.free.Keeps p.2) :
    streamDataRecord.codec.Keeps p :=
  Record.keeps streamDataRecord (by decide) rfl ⟨p.1.keeps, payload, trivial⟩

/-! ### Messages -/

private theorem RecordMessage.keeps {r : RecordMessage} (payload : Codec.free.Keeps r.data) :
    codec.Keeps r :=
  Record.keeps record (by decide) rfl
    ⟨r.stream.keeps, payload, Codec.keeps_count r.byteSize, trivial⟩

private theorem Checkpoint.keeps {c : Checkpoint} (payload : Codec.free.Keeps c.data) :
    codec.Keeps c := by
  have once : (variants.map (·.name)).Nodup := by decide
  cases c with
  | global data =>
    exact Tagged.keeps_among once 0 rfl rfl rfl (by decide) (dataRecord_keeps payload)
  | stream key data =>
    have keeps : streamDataRecord.codec.Keeps (key, data) := streamDataRecord_keeps payload
    exact Tagged.keeps_among once 1 rfl rfl rfl (by decide) keeps
  | legacy data =>
    exact Tagged.keeps_among once 2 rfl rfl rfl (by decide) (dataRecord_keeps payload)

private theorem EstimateMessage.keeps (e : EstimateMessage) : codec.Keeps e := by
  have once : (variants.map (·.name)).Nodup := by decide
  cases e with
  | stream key e =>
    have keeps : streamRecord.codec.Keeps (key, e) :=
      Record.keeps streamRecord (by decide) rfl
        ⟨key.keeps, Codec.keeps_count e.bytes, Codec.keeps_count e.records, trivial⟩
    exact Tagged.keeps_among once 0 rfl rfl rfl (by decide) keeps
  | sync e =>
    have keeps : syncRecord.codec.Keeps e :=
      Record.keeps syncRecord (by decide) rfl
        ⟨Codec.keeps_count e.bytes, Codec.keeps_count e.records, trivial⟩
    exact Tagged.keeps_among once 1 rfl rfl rfl (by decide) keeps

private theorem TraceError.keeps (e : TraceError) : codec.Keeps e :=
  Record.keeps record (by decide) rfl
    ⟨Codec.keeps_string e.message, Member.keeps_skipped _ (text_keeps e.internalMessage),
      Member.keeps_skipped _ (text_keeps e.stackTrace), e.failureType.keeps, trivial⟩

private theorem TracePayload.keeps (p : TracePayload) : codec.Keeps p := by
  have once : (variants.map (·.name)).Nodup := by decide
  cases p with
  | error e => exact Tagged.keeps_among once 0 rfl rfl rfl (by decide) e.keeps
  | streamStatus key status =>
    have keeps : statusRecord.codec.Keeps (key, status) :=
      Record.keeps statusRecord (by decide) rfl ⟨key.keeps, status.keeps, trivial⟩
    exact Tagged.keeps_among once 1 rfl rfl rfl (by decide) keeps

private theorem TraceMessage.keeps {t : TraceMessage} (time : (Number.real t.emittedAt).IsLegible) :
    codec.Keeps t :=
  Record.keeps record (by decide) rfl ⟨Codec.keeps_real time, t.payload.keeps, trivial⟩

namespace Message

def payload? : Message → Option Value
  | record r => some r.data
  | checkpoint c => some c.data
  | estimate _ | trace _ => none

def emittedAt? : Message → Option Binary64
  | trace t => some t.emittedAt
  | record _ | checkpoint _ | estimate _ => none

theorem keeps {m : Message} (payload : ∀ v ∈ m.payload?, Codec.free.Keeps v)
    (time : ∀ x ∈ m.emittedAt?, (Number.real x).IsLegible) : codec.Keeps m := by
  have once : (variants.map (·.name)).Nodup := by decide
  have apart : "body" ≠ "type" := by decide
  cases m with
  | record r =>
    exact Tagged.keeps_beside apart once 0 rfl rfl rfl (RecordMessage.keeps (payload _ rfl))
  | checkpoint c =>
    exact Tagged.keeps_beside apart once 1 rfl rfl rfl (Checkpoint.keeps (payload _ rfl))
  | estimate e => exact Tagged.keeps_beside apart once 2 rfl rfl rfl e.keeps
  | trace t =>
    exact Tagged.keeps_beside apart once 3 rfl rfl rfl (TraceMessage.keeps (time _ rfl))

end Message

/-! ### Reports -/

private theorem StreamSummary.keeps (s : StreamSummary) : codec.Keeps s :=
  Record.keeps record (by decide) rfl
    ⟨s.stream.keeps, Codec.keeps_count _, Codec.keeps_count _,
      Member.keeps_skipped _ (count_keeps _), Member.keeps_skipped _ (count_keeps _),
      Member.keeps_nullable _ (count_keeps _), Member.keeps_nullable _ (count_keeps _), trivial⟩

private theorem CheckpointTiming.keeps (t : CheckpointTiming) : codec.Keeps t :=
  Record.keeps record (by decide) rfl
    ⟨Member.keeps_nullable _ (count_keeps _), Member.keeps_nullable _ (count_keeps _),
      Member.keeps_nullable _ (count_keeps _), Member.keeps_nullable _ (count_keeps _), trivial⟩

private theorem SyncSummary.keeps (s : SyncSummary) : codec.Keeps s :=
  Record.keeps record (by decide) rfl
    ⟨Codec.keeps_count _, Codec.keeps_count _, Codec.keeps_count _, Codec.keeps_count _,
      Member.keeps_nullable _ (count_keeps _), Member.keeps_nullable _ (count_keeps _),
      Codec.keeps_count _, Codec.keeps_count _, Codec.keeps_count _, Codec.keeps_count _,
      s.timing.keeps, Codec.keeps_list fun t _ => t.keeps, trivial⟩

private theorem FailureReason.keeps {r : FailureReason}
    (time : (Number.real r.emittedAt).IsLegible) :
    codec.Keeps r :=
  Record.keeps record (by decide) rfl
    ⟨r.origin.keeps, r.failureType.keeps, Codec.keeps_string _,
      Member.keeps_skipped _ (text_keeps _), Member.keeps_skipped _ (text_keeps _),
      Codec.keeps_integer _, Codec.keeps_real time, Codec.keeps_word _, trivial⟩

namespace MergedCheckpoint

def payloads : MergedCheckpoint → List Value
  | single _ data => [data]
  | perStream streams => streams.map Prod.snd

theorem keeps {c : MergedCheckpoint} (payload : ∀ v ∈ c.payloads, Codec.free.Keeps v) :
    codec.Keeps c := by
  have once : (variants.map (·.name)).Nodup := by decide
  cases c with
  | single kind data =>
    have keeps : singleRecord.codec.Keeps (kind, data) :=
      Record.keeps singleRecord (by decide) rfl
        ⟨kind.keeps, payload data List.mem_cons_self, trivial⟩
    exact Tagged.keeps_among once 0 rfl rfl rfl (by decide) keeps
  | perStream streams =>
    have each : ∀ p ∈ streams, streamDataRecord.codec.Keeps p := fun p hp =>
      streamDataRecord_keeps (payload p.2 (List.mem_map_of_mem hp))
    have keeps : perStreamRecord.codec.Keeps streams :=
      Record.keeps perStreamRecord (by decide) rfl ⟨Codec.keeps_list each, trivial⟩
    exact Tagged.keeps_among once 1 rfl rfl rfl (by decide) keeps

end MergedCheckpoint

/-! ### Depths -/

private theorem depth_count_le (o : Option Count) (levels : Nat) :
    (Codec.count.optional.write o).depth ≤ levels :=
  Codec.depth_optional_le fun _ _ => Nat.zero_le levels

private theorem depth_text_le (o : Option String) (levels : Nat) :
    (Codec.string.optional.write o).depth ≤ levels :=
  Codec.depth_optional_le fun _ _ => Nat.zero_le levels

theorem StreamKey.depth_write_le (key : StreamKey) : (codec.write key).depth ≤ 1 :=
  Record.depth_write_le record ⟨Nat.zero_le 0, depth_text_le _ 0, trivial⟩

private theorem StreamSummary.depth_write_le (s : StreamSummary) : (codec.write s).depth ≤ 2 :=
  Record.depth_write_le record
    ⟨s.stream.depth_write_le, Nat.zero_le 1, Nat.zero_le 1, depth_count_le _ 1, depth_count_le _ 1,
      depth_count_le _ 1, depth_count_le _ 1, trivial⟩

private theorem CheckpointTiming.depth_write_le (t : CheckpointTiming) :
    (codec.write t).depth ≤ 1 :=
  Record.depth_write_le record
    ⟨depth_count_le _ 0, depth_count_le _ 0, depth_count_le _ 0, depth_count_le _ 0, trivial⟩

private theorem SyncSummary.depth_write_le (s : SyncSummary) : (codec.write s).depth ≤ 4 :=
  Record.depth_write_le record
    ⟨Nat.zero_le 3, Nat.zero_le 3, Nat.zero_le 3, Nat.zero_le 3, depth_count_le _ 3,
      depth_count_le _ 3, Nat.zero_le 3, Nat.zero_le 3, Nat.zero_le 3, Nat.zero_le 3,
      s.timing.depth_write_le.trans (by decide),
      Codec.depth_list_le fun t _ => t.depth_write_le, trivial⟩

private theorem FailureReason.depth_write_le (r : FailureReason) : (codec.write r).depth ≤ 1 :=
  Record.depth_write_le record
    ⟨Nat.zero_le 0, Nat.zero_le 0, Nat.zero_le 0, depth_text_le _ 0, depth_text_le _ 0,
      Nat.zero_le 0, Nat.zero_le 0, Nat.zero_le 0, trivial⟩

/-! ### Texts -/

/-- Whatever is written is read back from its text as it was, and is then written as the same text:
every summary, every reason of a failure, and every message and merged checkpoint whose text is not
nested too deeply. Free data have to be whole, and in normal form, as all data are that have been
read. Of the numbers for times only those count whose own text is read back. A record has the same
size after its data have been sent as text. -/
theorem wire_roundTrips :
    (∀ m : Message, (∀ v ∈ m.payload?, v.IsNormal ∧ v.IsWhole) →
      (∀ x ∈ m.emittedAt?, (Number.real x).IsLegible) →
      (Message.codec.write m).depth ≤ maxDepth → Message.codec.RoundTrips m) ∧
    (∀ s : SyncSummary, SyncSummary.codec.RoundTrips s) ∧
    (∀ r : FailureReason, (Number.real r.emittedAt).IsLegible →
      FailureReason.codec.RoundTrips r) ∧
    (∀ c : MergedCheckpoint, (∀ v ∈ c.payloads, v.IsNormal ∧ v.IsWhole) →
      (MergedCheckpoint.codec.write c).depth ≤ maxDepth → MergedCheckpoint.codec.RoundTrips c) ∧
    ∀ (key : StreamKey) (v : Value), v.IsNormal → v.IsWhole → v.depth ≤ maxDepth →
      (Codec.free.ofText v.compact).map (fun w => (RecordMessage.ofData key w).byteSize) =
        .ok (RecordMessage.ofData key v).byteSize := by
  have free : ∀ v : Value, v.IsNormal ∧ v.IsWhole → Codec.free.Keeps v :=
    fun v plain => Codec.keeps_free plain.1 plain.2.isLegible
  refine ⟨fun m payload time shallow => ?_, fun s => ?_, fun r time => ?_,
    fun c payload shallow => ?_, fun key v normal whole shallow => ?_⟩
  · exact (Message.keeps (fun v hv => free v (payload v hv)) time).roundTrips shallow
  · exact s.keeps.roundTrips (s.depth_write_le.trans (by decide))
  · exact (FailureReason.keeps time).roundTrips (r.depth_write_le.trans (by decide))
  · exact (MergedCheckpoint.keeps fun v hv => free v (payload v hv)).roundTrips shallow
  · have read : Codec.free.ofText v.compact = .ok v :=
      (free v ⟨normal, whole⟩).ofText_text shallow
    rw [read]
    rfl

/-- An error at a time with a fraction, and the state of a stream with data of every kind. -/
theorem wire_roundTrips_of_fraction :
    let half : Binary64 := ⟨false, 0x18_0000_0000_0000, -52, by decide⟩
    let error : Message :=
      .trace ⟨half, .error ⟨"say \"no\"", none, some "at\n1", .configError⟩⟩
    let data : Value := .object
      [("a", .array [.null, .bool true, .number (.negative (-1) (by decide))]),
       ("b", .object [("", .string "\\")])]
    let state : Message := .checkpoint (.stream ⟨"users", some "public"⟩ data)
    let merged : MergedCheckpoint := .perStream [(⟨"users", none⟩, data)]
    Message.codec.RoundTrips error ∧ Message.codec.RoundTrips state ∧
      MergedCheckpoint.codec.RoundTrips merged ∧
      (Codec.free.ofText data.compact).map
        (fun w => (RecordMessage.ofData ⟨"users", none⟩ w).byteSize) = .ok 34 := by
  intro half error data state merged
  have legible : (Number.real half).IsLegible :=
    @Number.isLegible_of_point half 1 5 (by decide +kernel) (by decide +kernel)
  have normal : data.IsNormal := by
    refine Value.isNormal_object.2 ⟨by decide, ?_⟩
    simp [Value.IsNormal, Value.AllNormal, Value.MembersNormal]
  have whole : data.IsWhole := by
    intro n hn
    have same : n = .negative (-1) (by decide) := by
      simpa [data, Value.numbers, Value.itemNumbers, Value.memberNumbers] using hn
    rw [same]
    trivial
  obtain ⟨messages, -, -, states, sizes⟩ := wire_roundTrips
  have first : Message.codec.RoundTrips error := by
    refine messages error ?_ ?_ (by decide +kernel)
    · rintro v ⟨⟩
    · rintro x ⟨⟩
      exact legible
  have second : Message.codec.RoundTrips state := by
    refine messages state ?_ ?_ (by decide +kernel)
    · rintro v ⟨⟩
      exact ⟨normal, whole⟩
    · rintro x ⟨⟩
  have third : MergedCheckpoint.codec.RoundTrips merged := by
    refine states merged (fun v hv => ?_) (by decide +kernel)
    rw [List.mem_singleton.1 hv]
    exact ⟨normal, whole⟩
  have size := sizes ⟨"users", none⟩ data normal whole (by decide +kernel)
  exact ⟨first, second, third, size.trans (congrArg Except.ok (by decide +kernel))⟩

end SyncAccounting
