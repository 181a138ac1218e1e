import SyncAccounting.Attempt.Statistics
import SyncAccounting.Proofs.Attempt.Delays

/-!
Snapshots and times wait for the same acknowledgements. While an attempt is healthy both are there
for the checkpoints that were sent and not acknowledged, so no delay is lost: the longest one that
is reported is the longest of the history.
-/

set_option autoImplicit false

namespace SyncAccounting

namespace History

private theorem mem_indices_waiting {h : History} (countable : h.Countable)
    (index : CheckpointIndex) :
    index ∈ h.waiting.map Count.ofNat ↔
      h.acknowledgements.length ≤ index.toNat ∧ index.toNat < h.checkpoints.length := by
  have few := countable.checkpoints
  constructor
  · intro waits
    obtain ⟨k, hk, rfl⟩ := List.mem_map.1 waits
    have bounds := (mem_waiting h k).1 hk
    rw [Count.toNat_ofNat_of_le (by omega)]
    exact bounds
  · intro bounds
    exact List.mem_map.2 ⟨index.toNat, (mem_waiting h _).2 bounds, Count.ofNat_toNat index⟩

end History

namespace Attempt

/-- While a run is healthy, the snapshots that are pending and the times that are held have the same
indices, those of the checkpoints that wait for their acknowledgement. Under a clock that never goes
back there is a longest delay where there was an acknowledgement, and it is the largest time from a
checkpoint to its acknowledgement, in whole seconds. -/
theorem snapshots_and_times_aligned (settings : Settings)
    (enabled : settings.commitTrackingEnabled = true) (h : History) (countable : h.Countable)
    (healthy : (run settings h).attempt.isHealthy = true) :
    ∃ (b : Books) (times : Backlog Instant),
      (run settings h).attempt.ledger = some (.healthy b) ∧
      (run settings h).attempt.latency.outstanding = some times ∧
      b.pending.toList.map Prod.fst = times.toList.map Prod.fst ∧
      (∀ index : CheckpointIndex, index ∈ times.toList.map Prod.fst ↔
        h.acknowledgements.length ≤ index.toNat ∧ index.toNat < h.checkpoints.length) ∧
      (h.Chronological →
        (∀ k < h.acknowledgements.length,
          h.checkpointTime k + h.delay k = h.acknowledgementTime k) ∧
        ((run settings h).attempt.latency.timing.longestDelay = none ↔
          h.acknowledgements = []) ∧
        (h.acknowledgements ≠ [] →
          (run settings h).attempt.latency.timing.longestDelay =
            some (Span.seconds h.longestDelay))) := by
  obtain ⟨b, ledger, -⟩ := books_run enabled healthy
  have books := reflects_run enabled countable ledger
  have latency := latency_reflects_run enabled countable healthy
  obtain ⟨times, held, holds⟩ := latency.outstanding
  have indices : times.toList.map Prod.fst = h.waiting.map Count.ofNat := by
    rw [holds, List.map_map]
    rfl
  have reported := latency.longestDelay_timing
  refine ⟨b, times, ledger, held, ?_, fun index => ?_,
    fun chronological => ⟨fun k hk => ?_, ?_, ?_⟩⟩
  · rw [indices, books.pending, List.map_map]
    rfl
  · rw [indices]
    exact History.mem_indices_waiting countable index
  · exact Nat.add_sub_cancel'
      (checkpointTime_le_acknowledgementTime enabled countable healthy chronological k hk)
  · rw [reported, ← List.length_eq_zero_iff, ite_eq_right_iff]
    simp [Nat.pos_iff_ne_zero]
  · intro nonempty
    rw [reported, if_pos (List.length_pos_iff.2 nonempty)]

/-- Delays of two seconds and of three and a half, while a third checkpoint waits. -/
theorem snapshots_and_times_aligned_of_third_checkpoint :
    let sent : Input := .message .source (.checkpoint (.global .null))
    let returned : Input := .message .destination (.checkpoint (.global .null))
    let h : History := [(0, sent), (1000000000, sent), (2000000000, returned),
      (4500000000, returned), (5000000000, sent)]
    (run ⟨80, true, false⟩ h).attempt.isHealthy = true ∧ h.Chronological ∧
      (run ⟨80, true, false⟩ h).attempt.latency.timing.longestDelay = some 3 ∧
      ∃ times, (run ⟨80, true, false⟩ h).attempt.latency.outstanding = some times ∧
        2 ∈ times.toList.map Prod.fst ∧ 1 ∉ times.toList.map Prod.fst := by
  intro sent returned h
  have healthy : (run ⟨80, true, false⟩ h).attempt.isHealthy = true := by decide
  have chronological : h.Chronological := by decide
  obtain ⟨b, times, -, held, -, indices, delays⟩ :=
    snapshots_and_times_aligned ⟨80, true, false⟩ rfl h ⟨by decide, by decide⟩ healthy
  obtain ⟨-, -, longest⟩ := delays chronological
  refine ⟨healthy, chronological, (longest (List.cons_ne_nil _ _)).trans ?_, times, held, ?_, ?_⟩
  · decide
  · exact (indices 2).2 (by decide)
  · exact fun waits => absurd ((indices 1).1 waits) (by decide)

end Attempt

end SyncAccounting
