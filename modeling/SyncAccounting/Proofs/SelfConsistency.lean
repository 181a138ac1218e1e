import SyncAccounting.Proofs.Attempt.Committed
import SyncAccounting.Proofs.Attempt.Estimates
import SyncAccounting.Proofs.Conservation
import SyncAccounting.Proofs.FailClosed
import SyncAccounting.Proofs.Observation

/-!
All that can be asked about an attempt tells the same. Totals, rows by position and maps by stream
are kept apart; they agree since no stream has two positions and no row is longer than the list of
streams.
-/

set_option autoImplicit false

namespace SyncAccounting.Attempt

structure Indexed (a : Attempt) : Prop where
  distinct : a.registry.keys.Nodup
  emission : a.emission.perStream.length ≤ a.registry.keys.length
  records : a.emission.total.records = Count.sum (a.emission.perStream.map (·.records))
  bytes : a.emission.total.bytes = Count.sum (a.emission.perStream.map (·.bytes))
  committed : ∀ row ∈ a.committed?, row.length ≤ a.registry.keys.length
  estimated : (a.estimates.streams.map Prod.fst).Nodup

/-- The summary lists each stream once, with the counts of the maps, and its totals are the sums of
what it lists. What it lists of estimates is what their maps hold, and unless one for the whole sync
is known their totals are the sums of these maps. -/
structure Coherent (a : Attempt) : Prop where
  distinct : (a.summary.streams.map (·.stream)).Nodup
  recordsEmitted : a.summary.recordsEmitted = Count.sum (a.summary.streams.map (·.recordsEmitted))
  bytesEmitted : a.summary.bytesEmitted = Count.sum (a.summary.streams.map (·.bytesEmitted))
  streamRecordsEmitted :
    a.streamRecordsEmitted = a.summary.streams.map fun s => (s.stream, s.recordsEmitted)
  streamBytesEmitted :
    a.streamBytesEmitted = a.summary.streams.map fun s => (s.stream, s.bytesEmitted)
  streamRecordsEstimated : (a.streamRecordsEstimated.map Prod.fst).Nodup ∧
    ∀ s ∈ a.summary.streams, s.recordsEstimated = SortedList.find? s.stream a.streamRecordsEstimated
  streamBytesEstimated : (a.streamBytesEstimated.map Prod.fst).Nodup ∧
    ∀ s ∈ a.summary.streams, s.bytesEstimated = SortedList.find? s.stream a.streamBytesEstimated
  recordsEstimated : a.estimates.known? none = none →
    a.summary.recordsEstimated = Count.sum (a.streamRecordsEstimated.map Prod.snd)
  bytesEstimated : a.estimates.known? none = none →
    a.summary.bytesEstimated = Count.sum (a.streamBytesEstimated.map Prod.snd)

/-- What is committed is reported throughout: the summary lists the counts of the maps, and its
totals are their sums. -/
structure Discloses (a : Attempt) (records bytes : List (StreamKey × Count)) : Prop where
  streamRecords : a.streamRecordsCommitted = some records
  streamBytes : a.streamBytesCommitted = some bytes
  summaryStreamRecords : (a.summary.streams.map fun s => (s.stream, s.recordsCommitted)) =
    records.map fun p => (p.1, some p.2)
  summaryStreamBytes : (a.summary.streams.map fun s => (s.stream, s.bytesCommitted)) =
    bytes.map fun p => (p.1, some p.2)
  summaryRecords : a.summary.recordsCommitted = some (Count.sum (records.map Prod.snd))
  summaryBytes : a.summary.bytesCommitted = some (Count.sum (bytes.map Prod.snd))

namespace Indexed

variable {a : Attempt}

private theorem sum_perStream (indexed : a.Indexed) {f : Tally → Count} (zero : f .zero = 0)
    {row : TallyRow} (short : row.length ≤ a.registry.keys.length) :
    Count.sum (row.map f) = Count.sum ((a.perStream fun i => f (row.tally i)).map Prod.snd) := by
  rw [TallyRow.sum_map_eq_keys zero indexed.distinct short, perStream_eq_map indexed.distinct,
    List.map_map]
  rfl

private theorem map_streams (indexed : a.Indexed) {α : Type} (field : StreamSummary → α) :
    (a.summary.streams.map fun s => (s.stream, field s)) =
      a.registry.keys.map fun key =>
        (key, field (a.streamSummary (a.registry.keys.idxOf key) key)) := by
  rw [streams_summary_eq_map indexed.distinct, List.map_map]
  rfl

private theorem coherent (indexed : a.Indexed) : a.Coherent := by
  have records : a.streamRecordsEmitted =
      a.summary.streams.map fun s => (s.stream, s.recordsEmitted) :=
    (perStream_eq_map indexed.distinct _).trans (indexed.map_streams (·.recordsEmitted)).symm
  have bytes : a.streamBytesEmitted =
      a.summary.streams.map fun s => (s.stream, s.bytesEmitted) :=
    (perStream_eq_map indexed.distinct _).trans (indexed.map_streams (·.bytesEmitted)).symm
  constructor
  case distinct =>
    rw [streams_summary_eq_map indexed.distinct, List.map_map]
    exact (List.map_id _).symm ▸ indexed.distinct
  case recordsEmitted =>
    have total := indexed.records.trans (indexed.sum_perStream rfl indexed.emission)
    have listed := congrArg (List.map Prod.snd) records
    rw [List.map_map] at listed
    exact total.trans (congrArg Count.sum listed)
  case bytesEmitted =>
    have total := indexed.bytes.trans (indexed.sum_perStream rfl indexed.emission)
    have listed := congrArg (List.map Prod.snd) bytes
    rw [List.map_map] at listed
    exact total.trans (congrArg Count.sum listed)
  case streamRecordsEmitted => exact records
  case streamBytesEmitted => exact bytes
  case streamRecordsEstimated =>
    refine ⟨?_, fun s hs => ?_⟩
    · rw [streamRecordsEstimated, List.map_map]
      exact indexed.estimated
    · obtain ⟨p, -, rfl⟩ := List.mem_map.1 hs
      exact (SortedList.find?_map _ _ _).symm
  case streamBytesEstimated =>
    refine ⟨?_, fun s hs => ?_⟩
    · rw [streamBytesEstimated, List.map_map]
      exact indexed.estimated
    · obtain ⟨p, -, rfl⟩ := List.mem_map.1 hs
      exact (SortedList.find?_map _ _ _).symm
  case recordsEstimated =>
    intro unsettled
    have total := congrArg Estimate.records (Estimates.total_eq_sum unsettled)
    refine total.trans (congrArg Count.sum ?_)
    rw [streamRecordsEstimated, List.map_map, List.map_map]
    rfl
  case bytesEstimated =>
    intro unsettled
    have total := congrArg Estimate.bytes (Estimates.total_eq_sum unsettled)
    refine total.trans (congrArg Count.sum ?_)
    rw [streamBytesEstimated, List.map_map, List.map_map]
    rfl

private theorem discloses (indexed : a.Indexed) {row : TallyRow}
    (committed : a.committed? = some row) :
    a.Discloses (a.perStream fun i => (row.tally i).records)
      (a.perStream fun i => (row.tally i).bytes) := by
  have short := indexed.committed row committed
  have listed (f : Tally → Count) :
      (a.registry.keys.map fun key =>
        (key, a.committed?.map fun row => f (row.tally (a.registry.keys.idxOf key)))) =
      (a.perStream fun i => f (row.tally i)).map fun p => (p.1, some p.2) := by
    rw [perStream_eq_map indexed.distinct, List.map_map, committed]
    rfl
  constructor
  case streamRecords => rw [streamRecordsCommitted, committed, Option.map_some]
  case streamBytes => rw [streamBytesCommitted, committed, Option.map_some]
  case summaryStreamRecords =>
    exact (indexed.map_streams (·.recordsCommitted)).trans (listed Tally.records)
  case summaryStreamBytes =>
    exact (indexed.map_streams (·.bytesCommitted)).trans (listed Tally.bytes)
  case summaryRecords =>
    change a.recordsCommitted = _
    rw [recordsCommitted, committed, Option.map_some, indexed.sum_perStream rfl short]
  case summaryBytes =>
    change a.bytesCommitted = _
    rw [bytesCommitted, committed, Option.map_some, indexed.sum_perStream rfl short]

end Indexed

variable (settings : Settings) (h : History)

private theorem withholds_run (unknown : settings.commitTrackingEnabled = false ∨
    (run settings h).attempt.isHealthy = false) : (run settings h).attempt.Withholds := by
  cases enabled : settings.commitTrackingEnabled with
  | false => exact withholds_of_untracked (ledger_run_untracked h enabled)
  | true =>
    have unhealthy := unknown.resolve_left (by rw [enabled]; exact Bool.true_eq_false.mp)
    obtain ⟨budget, ledger, used⟩ := failed_run enabled unhealthy
    exact withholds_of_failed ledger used

private theorem indexed_run : (run settings h).attempt.Indexed := by
  have keys := registry_run settings h
  obtain ⟨records, bytes⟩ := emission_total settings h
  constructor
  case distinct =>
    rw [keys]
    exact h.nodup_streams
  case emission =>
    rw [keys, emission_run]
    exact TallyRow.length_ofRecords_le fun r hr => History.stream_mem_of_mem_records hr
  case records => exact records
  case bytes => exact bytes
  case committed =>
    intro row hrow
    by_cases known : settings.commitTrackingEnabled = true ∧
        (run settings h).attempt.isHealthy = true
    · have folded := (committed?_run_eq_folded known.1 known.2).2
      rw [folded] at hrow
      cases hrow
      rw [keys]
      exact h.length_folded_le h.settled
    · rw [not_and_or, Bool.not_eq_true, Bool.not_eq_true] at known
      have nothing := (withholds_run settings h known).streamRecords
      rw [streamRecordsCommitted, hrow] at nothing
      cases nothing
  case estimated =>
    exact SortedList.nodup_of_ascending (estimates_reflect_run settings h).ascending

/-- All that is reported of a run agrees, and what it reports as committed is withheld throughout
exactly where commits are not tracked or the ledger has failed, and disclosed throughout
otherwise. -/
theorem coherent_run :
    (run settings h).attempt.Coherent ∧
      ((run settings h).attempt.Withholds ↔
        settings.commitTrackingEnabled = false ∨ (run settings h).attempt.isHealthy = false) ∧
      ((∃ records bytes, (run settings h).attempt.Discloses records bytes) ↔
        settings.commitTrackingEnabled = true ∧ (run settings h).attempt.isHealthy = true) := by
  have indexed := indexed_run settings h
  have known (enabled : settings.commitTrackingEnabled = true)
      (healthy : (run settings h).attempt.isHealthy = true) :=
    indexed.discloses (committed?_run_eq_folded enabled healthy).2
  have apart {records bytes : List (StreamKey × Count)}
      (discloses : (run settings h).attempt.Discloses records bytes)
      (withholds : (run settings h).attempt.Withholds) : False := by
    have withheld := withholds.streamRecords
    rw [discloses.streamRecords] at withheld
    cases withheld
  refine ⟨indexed.coherent, ⟨fun withholds => ?_, withholds_run settings h⟩, ⟨?_, ?_⟩⟩
  · by_contra otherwise
    rw [not_or, Bool.not_eq_false, Bool.not_eq_false] at otherwise
    exact apart (known otherwise.1 otherwise.2) withholds
  · rintro ⟨records, bytes, discloses⟩
    by_contra otherwise
    rw [not_and_or, Bool.not_eq_true, Bool.not_eq_true] at otherwise
    exact apart discloses (withholds_run settings h otherwise)
  · rintro ⟨enabled, healthy⟩
    exact ⟨_, _, known enabled healthy⟩

/-- The same inputs with commits tracked, with commits not tracked, and after an acknowledgement too
many. -/
theorem coherent_run_of_two_streams :
    let a : StreamKey := ⟨"a", none⟩
    let b : StreamKey := ⟨"b", none⟩
    let h : History := [(0, .message .source (.estimate (.stream a ⟨40, 4⟩))),
      (1, .message .source (.record ⟨a, .null, 5⟩)),
      (2, .message .source (.record ⟨b, .null, 7⟩)),
      (3, .message .source (.checkpoint (.global .null))),
      (4, .message .destination (.checkpoint (.global .null)))]
    let late : History := [(5, .message .destination (.checkpoint (.global .null)))]
    (∃ records bytes, (run .default h).attempt.Discloses records bytes) ∧
      (run { Settings.default with commitTrackingEnabled := false } h).attempt.Withholds ∧
      (run .default (h ++ late)).attempt.Withholds ∧
      Count.sum ((run .default h).attempt.summary.streams.map (·.bytesEmitted)) = 12 ∧
      Count.sum ((run .default h).attempt.streamBytesEstimated.map Prod.snd) = 40 := by
  intro a b h late
  obtain ⟨coherent, -, disclosed⟩ := coherent_run .default h
  obtain ⟨-, untracked, -⟩ :=
    coherent_run { Settings.default with commitTrackingEnabled := false } h
  obtain ⟨-, failed, -⟩ := coherent_run .default (h ++ late)
  refine ⟨disclosed.2 ⟨rfl, by decide⟩, untracked.2 (.inl rfl), failed.2 (.inr (by decide)), ?_, ?_⟩
  · exact coherent.bytesEmitted.symm.trans (by decide)
  · exact (coherent.bytesEstimated rfl).symm.trans (by decide)

end SyncAccounting.Attempt
