import SyncAccounting.Proofs.Attempt.Committed
import SyncAccounting.Proofs.CommittedCounts
import SyncAccounting.Proofs.SortedList

/-!
Where a sync can go on. Where the destination sends back what it got, its resume point is the one
that the source had right after the last checkpoint that was acknowledged, and what is committed is
what had been emitted by then.
-/

set_option autoImplicit false

namespace SyncAccounting

theorem MergedCheckpoint.ofCheckpoints_concat (checkpoints : List Checkpoint) (c : Checkpoint) :
    ofCheckpoints (checkpoints ++ [c]) = some (ingest (ofCheckpoints checkpoints) c) := by
  rw [ofCheckpoints, List.foldl_append]
  rfl

namespace History

/-- The history up to its `k`-th checkpoint, which is the last thing in it; nothing where `k` is
zero. -/
structure Reaches (h : History) (k : Nat) (moment : History) : Prop where
  initial : moment <+: h
  count : moment.checkpoints.length = k
  last : ∀ i ∈ moment.getLast?, i.2.checkpoint?.isSome

variable {h moment : History} {k : Nat}

private theorem exists_reaches (hk : k ≤ h.checkpoints.length) : ∃ moment, h.Reaches k moment := by
  induction h using List.reverseRecOn with
  | nil =>
    have zero : k = 0 := Nat.le_zero.1 hk
    exact ⟨[], List.prefix_refl _, zero.symm, by simp⟩
  | append_singleton h i ih =>
    rcases Nat.lt_or_ge (checkpoints h).length k with later | earlier
    · cases sent : i.2.checkpoint? with
      | none =>
        rw [checkpoints_concat_of_none sent] at hk
        omega
      | some c =>
        have count := length_checkpoints_concat (h := h) sent
        refine ⟨h ++ [i], List.prefix_refl _, by omega, ?_⟩
        rw [List.getLast?_concat]
        rintro _ ⟨⟩
        exact Option.isSome_iff_exists.2 ⟨c, sent⟩
    · obtain ⟨moment, initial, count, last⟩ := ih earlier
      exact ⟨moment, initial.trans (List.prefix_append _ _), count, last⟩

private theorem recordsBefore_of_lt (hk : h.checkpoints.length < k) :
    h.recordsBefore k = h.records := by
  induction h using List.reverseRecOn with
  | nil => rfl
  | append_singleton h i ih =>
    have before : (checkpoints h).length < k := by
      rw [checkpoints_concat, List.length_append] at hk
      omega
    rw [recordsBefore_concat, records_concat, if_pos before, ih before]

private theorem recordsBefore_append (hk : k ≤ h.checkpoints.length) (rest : History) :
    recordsBefore (h ++ rest) k = h.recordsBefore k := by
  induction rest using List.reverseRecOn with
  | nil => rw [List.append_nil]
  | append_singleton rest i ih =>
    have reached : ¬(checkpoints (h ++ rest)).length < k := by
      rw [checkpoints, List.filterMap_append, List.length_append]
      change ¬h.checkpoints.length + _ < k
      omega
    rw [← List.append_assoc, recordsBefore_concat, if_neg reached, List.append_nil, ih]

namespace Reaches

private theorem recordsBefore_eq (reaches : h.Reaches k moment) :
    h.recordsBefore k = moment.records := by
  obtain ⟨⟨rest, rfl⟩, count, last⟩ := reaches
  rw [recordsBefore_append (Nat.le_of_eq count.symm)]
  rcases List.eq_nil_or_concat' moment with rfl | ⟨before, i, rfl⟩
  · rfl
  · obtain ⟨c, sent⟩ := Option.isSome_iff_exists.1 (last i List.getLast?_concat)
    have earlier : (checkpoints before).length < k := by
      rw [length_checkpoints_concat sent] at count
      omega
    rw [recordsBefore_concat, records_concat, if_pos earlier, recordsBefore_of_lt earlier]

private theorem tallyBefore_eq (reaches : h.Reaches k moment) (key : StreamKey) :
    h.tallyBefore k key = moment.tallyOf key := by
  rw [tallyBefore, reaches.recordsBefore_eq, tallyOf]

private theorem acknowledgements_eq (reaches : h.Reaches h.acknowledgements.length moment)
    (echoed : h.acknowledgements <+: h.checkpoints) : h.acknowledgements = moment.checkpoints := by
  obtain ⟨rest, longer⟩ := reaches.initial
  have initial : moment.checkpoints <+: h.checkpoints := by
    rw [← longer, checkpoints, checkpoints, List.filterMap_append]
    exact List.prefix_append _ _
  have length : h.acknowledgements.length = moment.checkpoints.length := reaches.count.symm
  exact (List.prefix_of_prefix_length_le echoed initial (Nat.le_of_eq length)).eq_of_length length

end Reaches

end History

namespace Attempt

variable (settings : Settings) (h : History)

private theorem sourceState_run :
    (run settings h).attempt.sourceState = MergedCheckpoint.ofCheckpoints h.checkpoints := by
  induction h using List.reverseRecOn with
  | nil => rfl
  | append_singleton h i ih =>
    rw [run_concat, step_attempt, History.checkpoints_concat]
    cases i.2.checkpoint? with
    | none => simpa using ih
    | some c =>
      rw [Option.toList_some, MergedCheckpoint.ofCheckpoints_concat, ← ih]
      rfl

theorem committedState_run :
    (run settings h).attempt.committedState =
      MergedCheckpoint.ofCheckpoints h.acknowledgements := by
  induction h using List.reverseRecOn with
  | nil => rfl
  | append_singleton h i ih =>
    rw [run_concat, step_attempt, History.acknowledgements_concat]
    cases i.2.acknowledgement? with
    | none => simpa using ih
    | some c =>
      rw [Option.toList_some, MergedCheckpoint.ofCheckpoints_concat, ← ih]
      rfl

private theorem getD_find?_emission_run {f : Tally → Count} (zero : f .zero = 0) (key : StreamKey) :
    (SortedList.find? key ((run settings h).attempt.perStream fun n =>
      f ((run settings h).attempt.emission.stream n))).getD 0 = f (h.tallyOf key) := by
  rw [perStream_emission_run, SortedList.find?_map_key]
  by_cases known : key ∈ h.streams
  · rw [if_pos known]
    rfl
  · have nothing : h.records.filter (·.stream = key) = [] := by
      refine List.filter_eq_nil_iff.2 fun r hr => ?_
      rw [decide_eq_true_iff]
      rintro rfl
      exact known (History.stream_mem_of_mem_records hr)
    rw [if_neg known, History.tallyOf, nothing, Tally.ofRecords_nil, zero]
    rfl

variable {settings h}

/-- The committed counts are those that had been emitted when the settled windows were closed. -/
theorem committed_eq_emitted_of_reaches (enabled : settings.commitTrackingEnabled = true)
    (healthy : (run settings h).attempt.isHealthy = true) {moment : History}
    (reaches : h.Reaches h.settled moment) :
    (run settings h).attempt.streamRecordsCommitted =
        some (h.streams.map fun key => (key, (SortedList.find? key
          (run settings moment).attempt.streamRecordsEmitted).getD 0)) ∧
      (run settings h).attempt.streamBytesCommitted =
        some (h.streams.map fun key => (key, (SortedList.find? key
          (run settings moment).attempt.streamBytesEmitted).getD 0)) := by
  obtain ⟨-, committed⟩ := committed?_run_eq_folded enabled healthy
  have emitted {f : Tally → Count} (zero : f .zero = 0) (key : StreamKey) :=
    getD_find?_emission_run settings moment zero key
  constructor
  · rw [streamRecordsCommitted, committed, Option.map_some,
      perStream_folded settings Tally.records]
    simp only [reaches.tallyBefore_eq, ← emitted (f := Tally.records) rfl]
    rfl
  · rw [streamBytesCommitted, committed, Option.map_some, perStream_folded settings Tally.bytes]
    simp only [reaches.tallyBefore_eq, ← emitted (f := Tally.bytes) rfl]
    rfl

/-- Where the acknowledgements repeat the checkpoints one by one, the resume point of the
destination is the one that the source had right after the last checkpoint that was acknowledged,
and what is committed is what had been emitted by then. Only where there are more acknowledgements
than a count can number is it what had been emitted by an earlier checkpoint. -/
theorem resume_point_exact (settings : Settings) (enabled : settings.commitTrackingEnabled = true)
    (h : History) (healthy : (run settings h).attempt.isHealthy = true)
    (echoed : h.acknowledgements <+: h.checkpoints) :
    let a := (run settings h).attempt
    let j := h.acknowledgements.length
    (j = 0 → a.committedState = none ∧ a.recordsCommitted = some 0 ∧ a.bytesCommitted = some 0 ∧
        a.streamRecordsCommitted = some (h.streams.map fun key => (key, 0)) ∧
        a.streamBytesCommitted = some (h.streams.map fun key => (key, 0))) ∧
      ∃ moment, h.Reaches j moment ∧
        a.committedState = (run settings moment).attempt.sourceState ∧
        ∃ counted, h.Reaches h.settled counted ∧ (j ≤ Count.limit → counted = moment) ∧
          a.streamRecordsCommitted =
            some (h.streams.map fun key => (key, (SortedList.find? key
              (run settings counted).attempt.streamRecordsEmitted).getD 0)) ∧
          a.streamBytesCommitted =
            some (h.streams.map fun key => (key, (SortedList.find? key
              (run settings counted).attempt.streamBytesEmitted).getD 0)) := by
  intro a j
  obtain ⟨closed, committed⟩ := committed?_run_eq_folded enabled healthy
  obtain ⟨moment, reaches⟩ := History.exists_reaches echoed.length_le
  have same : a.committedState = (run settings moment).attempt.sourceState := by
    rw [committedState_run, sourceState_run, reaches.acknowledgements_eq echoed]
  refine ⟨fun zero => ?_, moment, reaches, same, ?_⟩
  · have settled : h.settled = 0 := by
      rw [History.settled]
      omega
    have empty : h.acknowledgements = [] := List.length_eq_zero_iff.1 zero
    have start : h.Reaches h.settled [] := ⟨List.nil_prefix, settled.symm, by simp⟩
    obtain ⟨records, bytes⟩ := committed_eq_emitted_of_reaches enabled healthy start
    rw [settled] at committed
    refine ⟨?_, ?_, ?_, records, bytes⟩
    · rw [committedState_run, empty]
      rfl
    · rw [recordsCommitted, committed]
      rfl
    · rw [bytesCommitted, committed]
      rfl
  · by_cases few : j ≤ Count.limit
    · have settled : h.settled = j := Nat.min_eq_left few
      have counted : h.Reaches h.settled moment := settled ▸ reaches
      exact ⟨moment, counted, fun _ => rfl,
        committed_eq_emitted_of_reaches enabled healthy counted⟩
    · -- more acknowledgements than indices: those past the last index settle nothing
      obtain ⟨counted, earlier⟩ := History.exists_reaches closed
      exact ⟨counted, earlier, fun fits => absurd fits few,
        committed_eq_emitted_of_reaches enabled healthy earlier⟩

/-- The first of two checkpoints is acknowledged, after more records have come. -/
theorem resume_point_exact_of_second_checkpoint :
    let a : StreamKey := ⟨"a", none⟩
    let b : StreamKey := ⟨"b", none⟩
    let h : History := [(0, .message .source (.record ⟨a, .null, 5⟩)),
      (1, .message .source (.checkpoint (.stream a (.bool true)))),
      (2, .message .source (.record ⟨b, .null, 7⟩)),
      (3, .message .source (.checkpoint (.global .null))),
      (4, .message .destination (.checkpoint (.stream a (.bool true))))]
    (run .default h).attempt.isHealthy = true ∧ h.acknowledgements <+: h.checkpoints ∧
      (∃ moment, h.Reaches 1 moment ∧
        (run .default h).attempt.committedState = (run .default moment).attempt.sourceState ∧
        (run .default h).attempt.streamBytesCommitted =
          some ([a, b].map fun key => (key, (SortedList.find? key
            (run .default moment).attempt.streamBytesEmitted).getD 0))) ∧
      (run .default h).attempt.committedState = some (.perStream [(a, .bool true)]) ∧
      (run .default h).attempt.streamBytesCommitted = some [(a, 5), (b, 0)] := by
  intro a b h
  have healthy : (run .default h).attempt.isHealthy = true := by decide
  have echoed : h.acknowledgements <+: h.checkpoints := ⟨[.global .null], rfl⟩
  obtain ⟨-, moment, reaches, same, counted, -, here, -, bytes⟩ :=
    resume_point_exact .default rfl h healthy echoed
  have streams : h.streams = [a, b] := by decide
  rw [here (by decide), streams] at bytes
  refine ⟨healthy, echoed, ⟨moment, reaches, same, bytes⟩, ?_, ?_⟩
  · rw [committedState_run]
    rfl
  · decide

end Attempt

end SyncAccounting
