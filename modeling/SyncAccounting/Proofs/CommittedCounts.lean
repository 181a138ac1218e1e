import SyncAccounting.Attempt.Statistics
import SyncAccounting.Proofs.Attempt.Survival
import SyncAccounting.Proofs.Observation

/-!
What a healthy run reports as committed: with `j` acknowledgements, of each stream exactly the
records that the source sent before its `j`-th checkpoint.
-/

set_option autoImplicit false

namespace SyncAccounting

def History.tallyBefore (h : History) (j : Nat) (key : StreamKey) : Tally :=
  .ofRecords ((h.recordsBefore j).filter (·.stream = key))

private theorem History.tally_folded_idxOf (h : History) (j : Nat) (key : StreamKey) :
    (h.folded j).tally (h.streams.idxOf key) = h.tallyBefore j key := by
  rw [tally_folded, tallyBefore]
  refine congrArg Tally.ofRecords (List.filter_congr fun r hr => ?_)
  rw [decide_eq_decide]
  exact List.idxOf_inj (stream_mem_of_mem_recordsBefore hr)

namespace Attempt

variable {settings : Settings} {h : History}

private theorem committed?_run (enabled : settings.commitTrackingEnabled = true)
    (countable : h.Countable) (healthy : (run settings h).attempt.isHealthy = true) :
    h.acknowledgements.length ≤ h.checkpoints.length ∧
      (run settings h).attempt.committed? = some (h.folded h.acknowledgements.length) := by
  obtain ⟨b, ledger, -⟩ := books_run enabled healthy
  have reflects := reflects_run enabled countable ledger
  refine ⟨reflects.ordered, ?_⟩
  rw [committed?, ledger, ← reflects.committed]
  rfl

private theorem sum_folded {f : Tally → Count} (zero : f .zero = 0) (h : History) (j : Nat) :
    Count.sum ((h.folded j).map f) =
      Count.sum (h.streams.map fun key => f (h.tallyBefore j key)) := by
  rw [TallyRow.sum_map_eq_keys zero h.nodup_streams (h.length_folded_le j)]
  simp only [History.tally_folded_idxOf]

theorem perStream_folded (settings : Settings) (f : Tally → Count) (h : History) (j : Nat) :
    ((run settings h).attempt.perStream fun n => f ((h.folded j).tally n)) =
      h.streams.map fun key => (key, f (h.tallyBefore j key)) := by
  have keys := registry_run settings h
  rw [perStream_eq_map (keys ▸ h.nodup_streams), keys]
  simp only [History.tally_folded_idxOf]

/-- With `j` acknowledgements a healthy run has had `j` checkpoints, and what it reports as
committed is the tally of the records before the `j`-th one: of each stream, and summed over all
streams. -/
theorem committed_counts_exact (settings : Settings)
    (enabled : settings.commitTrackingEnabled = true) (h : History) (countable : h.Countable)
    (healthy : (run settings h).attempt.isHealthy = true) :
    let j := h.acknowledgements.length
    j ≤ h.checkpoints.length ∧
      (run settings h).attempt.streamRecordsCommitted =
        some (h.streams.map fun key => (key, (h.tallyBefore j key).records)) ∧
      (run settings h).attempt.streamBytesCommitted =
        some (h.streams.map fun key => (key, (h.tallyBefore j key).bytes)) ∧
      (run settings h).attempt.recordsCommitted =
        some (Count.sum (h.streams.map fun key => (h.tallyBefore j key).records)) ∧
      (run settings h).attempt.bytesCommitted =
        some (Count.sum (h.streams.map fun key => (h.tallyBefore j key).bytes)) := by
  intro j
  obtain ⟨ordered, committed⟩ := committed?_run enabled countable healthy
  refine ⟨ordered, ?_, ?_, ?_, ?_⟩
  · rw [streamRecordsCommitted, committed, Option.map_some,
      perStream_folded settings Tally.records]
  · rw [streamBytesCommitted, committed, Option.map_some, perStream_folded settings Tally.bytes]
  · rw [recordsCommitted, committed, Option.map_some, sum_folded (f := Tally.records) rfl]
  · rw [bytesCommitted, committed, Option.map_some, sum_folded (f := Tally.bytes) rfl]

/-- Of three records, the two before the first checkpoint are committed by an acknowledgement that
comes after the third. -/
theorem committed_counts_exact_of_late_record :
    let a : StreamKey := ⟨"a", none⟩
    let b : StreamKey := ⟨"b", none⟩
    let h : History := [(0, .message .source (.record ⟨a, .null, 5⟩)),
      (1, .message .source (.record ⟨b, .null, 7⟩)),
      (2, .message .source (.checkpoint (.global .null))),
      (3, .message .source (.record ⟨a, .null, 11⟩)),
      (4, .message .destination (.checkpoint (.global .null)))]
    (run .default h).attempt.isHealthy = true ∧
      (run .default h).attempt.streamBytesCommitted = some [(a, 5), (b, 7)] ∧
      (run .default h).attempt.bytesCommitted = some 12 := by
  intro a b h
  have healthy : (run .default h).attempt.isHealthy = true := by decide
  obtain ⟨-, -, streams, -, total⟩ :=
    committed_counts_exact .default rfl h ⟨by decide, by decide⟩ healthy
  refine ⟨healthy, streams.trans ?_, total.trans ?_⟩
  · decide
  · decide

end Attempt

end SyncAccounting
