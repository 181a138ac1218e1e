import SyncAccounting.Attempt.Statistics
import SyncAccounting.Proofs.Attempt.Intake
import SyncAccounting.Proofs.Interleaving

/-!
Runs in which the same messages of both sides come in another order may differ in whether they fail.
Where none of them does, they end with the same books, apart from the limit of their budgets.
-/

set_option autoImplicit false

namespace SyncAccounting

variable {S D : List Message} {h g : History}

private theorem Interleaves.snapshots_eq (interleaves : Interleaves S D h) :
    h.snapshots = (History.alone .source S).snapshots := by
  rw [History.snapshots, History.snapshots, interleaves.checkpoints_eq]
  exact List.map_congr_left fun k _ => by rw [interleaves.snapshot_eq]

private theorem Interleaves.acknowledged?_eq (interleaves : Interleaves S D h) :
    h.acknowledged? = (History.alone .destination D).acknowledged? := by
  rw [History.acknowledged?, History.acknowledged?, interleaves.acknowledgements_eq]

/-- Books that took in and folded the same differ at most in what their budgets allow and in what
came since the last checkpoint. -/
private theorem Books.Keeps.agree {b d : Books} {t u : Intake} (keeps : b.Keeps t)
    (other : d.Keeps u) (balanced : b.Balanced) (apart : d.Balanced)
    (accepted : t.accepted = u.accepted)
    (through : t.through = u.through) :
    b.committed = d.committed ∧ b.pending.toList = d.pending.toList ∧
      b.budget.used = d.budget.used ∧ b.budget.peak = d.budget.peak := by
  have covers (index : CheckpointIndex) : t.covers index = u.covers index := by
    rw [Intake.covers, Intake.covers, through]
  have waiting : t.waiting = u.waiting := by
    simp only [Intake.waiting, covers, accepted]
  have settled : t.settled = u.settled := by
    simp only [Intake.settled, covers, accepted]
  refine ⟨?_, ?_, Count.ext ?_, ?_⟩
  · rw [keeps.committed, other.committed, settled]
  · rw [keeps.pending, other.pending, waiting]
  · rw [← keeps.claimed_eq balanced, ← other.claimed_eq apart, Intake.claimed, Intake.claimed,
      waiting]
  · rw [keeps.peak, other.peak, accepted]

namespace Attempt

variable {first second : Settings}

private theorem registry_eq_of_interleaves (one : Interleaves S D h) (other : Interleaves S D g) :
    (run first h).attempt.registry = (run second g).attempt.registry := by
  rw [registry_run_eq_ofKeys, registry_run_eq_ofKeys, one.named_eq, other.named_eq]

/-- Two runs with the same messages of each side that both end healthy report the same committed
counts and the same memory, and the same snapshots wait in them, whatever their settings and clocks
are and however the two sides interleave. -/
theorem committed_and_pending_eq_of_interleaves (S D : List Message) (h g : History)
    (first second : Settings) (one : Interleaves S D h) (other : Interleaves S D g)
    (enabled : first.commitTrackingEnabled = true) (also : second.commitTrackingEnabled = true)
    (healthy : (run first h).attempt.isHealthy = true)
    (unharmed : (run second g).attempt.isHealthy = true) :
    (run first h).attempt.recordsCommitted = (run second g).attempt.recordsCommitted ∧
      (run first h).attempt.bytesCommitted = (run second g).attempt.bytesCommitted ∧
      (run first h).attempt.streamRecordsCommitted =
        (run second g).attempt.streamRecordsCommitted ∧
      (run first h).attempt.streamBytesCommitted =
        (run second g).attempt.streamBytesCommitted ∧
      (run first h).attempt.pendingStateBytes = (run second g).attempt.pendingStateBytes ∧
      (run first h).attempt.maxSnapshotBytes = (run second g).attempt.maxSnapshotBytes ∧
      ((run first h).attempt.ledger.map fun l => l.pending.toList) =
        (run second g).attempt.ledger.map fun l => l.pending.toList := by
  obtain ⟨b, ledger, balanced, -⟩ := books_run enabled healthy
  obtain ⟨d, account, apart, -⟩ := books_run also unharmed
  obtain ⟨t, keeps, tells⟩ := tells_run enabled ledger
  obtain ⟨u, keep, tell⟩ := tells_run also account
  have accepted : t.accepted = u.accepted := by
    rw [tells.accepted, tell.accepted, one.snapshots_eq, other.snapshots_eq]
  have through : t.through = u.through := by
    rw [tells.through, tell.through, one.acknowledged?_eq, other.acknowledged?_eq]
  obtain ⟨committed, pending, used, peak⟩ := keeps.agree keep balanced apart accepted through
  have known : (run first h).attempt.committed? = (run second g).attempt.committed? := by
    rw [committed?, committed?, ledger, account]
    exact congrArg some committed
  have registry : (run first h).attempt.registry = (run second g).attempt.registry :=
    registry_eq_of_interleaves one other
  refine ⟨?_, ?_, ?_, ?_, ?_, ?_, ?_⟩
  · rw [recordsCommitted, recordsCommitted, known]
  · rw [bytesCommitted, bytesCommitted, known]
  · simp only [streamRecordsCommitted, perStream, known, registry]
  · simp only [streamBytesCommitted, perStream, known, registry]
  · rw [pendingStateBytes, pendingStateBytes, budget?, budget?, ledger, account]
    exact used
  · rw [maxSnapshotBytes, maxSnapshotBytes, budget?, budget?, ledger, account]
    exact peak
  · rw [ledger, account]
    exact congrArg some pending

/-- An acknowledgement that comes at once, and one that comes after the second checkpoint: the limit
of the first run would not do for the second one. -/
theorem committed_and_pending_eq_of_late_acknowledgement :
    let a : Message := .record ⟨⟨"a", none⟩, .null, 5⟩
    let b : Message := .record ⟨⟨"b", none⟩, .null, 7⟩
    let c : Message := .checkpoint (.global .null)
    let h : History := [(0, .message .source a), (1, .message .source c),
      (2, .message .destination c), (3, .message .source b), (4, .message .source c)]
    let g : History := [(9, .message .source a), (9, .message .source c),
      (9, .message .source b), (9, .message .source c), (9, .message .destination c)]
    (run ⟨64, true, false⟩ g).attempt.isHealthy = false ∧
      (run ⟨64, true, false⟩ h).attempt.bytesCommitted = some 5 ∧
      (run ⟨64, true, false⟩ h).attempt.bytesCommitted =
        (run .default g).attempt.bytesCommitted ∧
      (run ⟨64, true, false⟩ h).attempt.pendingStateBytes =
        (run .default g).attempt.pendingStateBytes := by
  intro a b c h g
  have one : Interleaves [a, c, b, c] [c] h :=
    .source 0 a (.source 1 c (.destination 2 c (.source 3 b (.source 4 c .nil))))
  have other : Interleaves [a, c, b, c] [c] g :=
    .source 9 a (.source 9 c (.source 9 b (.source 9 c (.destination 9 c .nil))))
  obtain ⟨-, bytes, -, -, pending, -⟩ := committed_and_pending_eq_of_interleaves _ _ h g
    ⟨64, true, false⟩ .default one other rfl rfl (by decide) (by decide)
  exact ⟨by decide, by decide, bytes, pending⟩

end Attempt

end SyncAccounting
