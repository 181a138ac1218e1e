import SyncAccounting.Proofs.Attempt.Step
import SyncAccounting.Proofs.Ledger.Intake

/-!
The intake of a healthy run is told by its history: every window that was closed was accepted, in
order, and the highest fold is that of the last acknowledgement. This holds for any number of
checkpoints, also where their indices no longer tell them apart.
-/

set_option autoImplicit false

namespace SyncAccounting

variable {h : History} {i : Instant × Attempt.Input}

namespace History

def snapshots (h : History) : List (CheckpointIndex × Snapshot) :=
  (List.range h.checkpoints.length).map fun k => (Count.ofNat k, h.snapshot k)

/-- The checkpoint that the last acknowledgement stands for. -/
def acknowledged? (h : History) : Option CheckpointIndex :=
  match h.acknowledgements.length with
  | 0 => none
  | n + 1 => some (.ofNat n)

private theorem snapshots_concat_of_none (noCheckpoint : i.2.checkpoint? = none) :
    snapshots (h ++ [i]) = h.snapshots := by
  rw [snapshots, checkpoints_concat_of_none noCheckpoint]
  refine List.map_congr_left fun k hk => ?_
  rw [snapshot_concat_of_lt (List.mem_range.1 hk)]

private theorem snapshots_concat_of_checkpoint {c : Checkpoint} (sent : i.2.checkpoint? = some c)
    (noRecord : i.2.record? = none) :
    snapshots (h ++ [i]) = h.snapshots ++
      [(.ofNat h.checkpoints.length,
        ⟨(h.row h.checkpoints.length).nonzero, some c.fingerprint⟩)] := by
  rw [snapshots, length_checkpoints_concat sent, List.range_succ, List.map_append,
    List.map_singleton, snapshot_concat_of_checkpoint sent noRecord]
  refine congrArg (· ++ _) (List.map_congr_left fun k hk => ?_)
  rw [snapshot_concat_of_lt (List.mem_range.1 hk)]

private theorem acknowledged?_concat_of_none (noAcknowledgement : i.2.acknowledgement? = none) :
    acknowledged? (h ++ [i]) = h.acknowledged? := by
  rw [acknowledged?, acknowledgements_concat_of_none noAcknowledgement, acknowledged?]

private theorem acknowledged?_concat_of_acknowledgement {c : Checkpoint}
    (sent : i.2.acknowledgement? = some c) :
    acknowledged? (h ++ [i]) = some (.ofNat h.acknowledgements.length) := by
  rw [acknowledged?, length_acknowledgements_concat sent]

private theorem acknowledged?_le {index : CheckpointIndex} (last : h.acknowledged? = some index) :
    index ≤ Count.ofNat h.acknowledgements.length := by
  rw [acknowledged?] at last
  split at last
  · cases last
  · next n many =>
    cases last
    rw [many, Count.le_def, Count.toNat_ofNat, Count.toNat_ofNat]
    omega

end History

namespace Intake

structure Tells (t : Intake) (h : History) : Prop where
  accepted : t.accepted = h.snapshots
  through : t.through = h.acknowledged?
  row : t.row = h.row h.checkpoints.length

private theorem tells_empty : empty.Tells [] := ⟨rfl, rfl, rfl⟩

namespace Tells

variable {t u : Intake}

private theorem idle (tells : t.Tells h) (noRecord : i.2.record? = none)
    (noCheckpoint : i.2.checkpoint? = none)
    (noAcknowledgement : i.2.acknowledgement? = none) : t.Tells (h ++ [i]) := by
  constructor
  case accepted =>
    rw [History.snapshots_concat_of_none noCheckpoint]
    exact tells.accepted
  case through =>
    rw [History.acknowledged?_concat_of_none noAcknowledgement]
    exact tells.through
  case row =>
    rw [History.checkpoints_concat_of_none noCheckpoint, History.row_concat_of_none noRecord]
    exact tells.row

private theorem record (tells : t.Tells h) (now : Instant) (r : RecordMessage)
    (after : t.after (.record (h.streams.idxOf r.stream) r.byteSize) = some u) :
    u.Tells (h ++ [(now, .message .source (.record r))]) := by
  cases after
  constructor
  case accepted =>
    rw [History.snapshots_concat_of_none rfl]
    exact tells.accepted
  case through =>
    rw [History.acknowledged?_concat_of_none rfl]
    exact tells.through
  case row =>
    rw [History.checkpoints_concat_of_none rfl, History.row_concat_of_record rfl,
      History.idxOf_streams_concat rfl, ← tells.row, Intake.row, TallyRow.addAll,
      List.foldl_append]
    rfl

private theorem checkpoint (tells : t.Tells h) (now : Instant) (c : Checkpoint)
    (after : t.after (.checkpoint (.ofNat h.checkpoints.length) (some c.fingerprint)) = some u) :
    u.Tells (h ++ [(now, .message .source (.checkpoint c))]) := by
  cases after
  constructor
  case accepted =>
    rw [History.snapshots_concat_of_checkpoint rfl rfl, ← tells.accepted, ← tells.row]
    rfl
  case through =>
    rw [History.acknowledged?_concat_of_none rfl]
    exact tells.through
  case row =>
    rw [History.length_checkpoints_concat rfl, History.row_concat_of_none rfl,
      History.row_of_lt (Nat.lt_succ_self _)]
    rfl

private theorem through_fold (tells : t.Tells h) {limit : Count} {fingerprint : Fingerprint}
    (taken :
      t.refusal? limit (.acknowledge (.ofNat h.acknowledgements.length) fingerprint) = none) :
    (t.fold (.ofNat h.acknowledgements.length)).through =
      some (.ofNat h.acknowledgements.length) := by
  by_cases waits : Count.ofNat h.acknowledgements.length ∈ t.waiting.map Prod.fst
  · rw [Books.Keeps.fold_of_waiting waits]
  · have folded : t.through.any (Count.ofNat h.acknowledgements.length ≤ ·) := by
      by_contra unknown
      rw [refusal?, if_neg (not_or.2 ⟨waits, unknown⟩)] at taken
      cases taken
    obtain ⟨through, known, reached⟩ := (Option.any_eq_true _ _).1 folded
    have upper := History.acknowledged?_le (tells.through.symm.trans known)
    have lower : Count.ofNat h.acknowledgements.length ≤ through := of_decide_eq_true reached
    rw [fold, if_neg waits, known]
    exact congrArg some (Count.ext (Nat.le_antisymm upper lower))

private theorem acknowledgement (tells : t.Tells h) (now : Instant) (c : Checkpoint) {limit : Count}
    (taken :
      t.refusal? limit (.acknowledge (.ofNat h.acknowledgements.length) c.fingerprint) = none) :
    (t.fold (.ofNat h.acknowledgements.length)).Tells
      (h ++ [(now, .message .destination (.checkpoint c))]) := by
  have same : (t.fold (.ofNat h.acknowledgements.length)).accepted = t.accepted ∧
      (t.fold (.ofNat h.acknowledgements.length)).row = t.row := by
    rw [fold]
    split <;> exact ⟨rfl, rfl⟩
  constructor
  case accepted =>
    rw [same.1, History.snapshots_concat_of_none rfl]
    exact tells.accepted
  case through =>
    rw [History.acknowledged?_concat_of_acknowledgement rfl]
    exact tells.through_fold taken
  case row =>
    rw [same.2, History.checkpoints_concat_of_none rfl, History.row_concat_of_none rfl]
    exact tells.row

end Tells

end Intake

namespace Attempt

variable {settings : Settings}

/-- Healthy books keep what the history of the run tells. -/
theorem tells_run (enabled : settings.commitTrackingEnabled = true) {b : Books}
    (ledger : (run settings h).attempt.ledger = some (.healthy b)) :
    ∃ t, b.Keeps t ∧ t.Tells h := by
  induction h using List.reverseRecOn generalizing b with
  | nil =>
    rw [ledger_run_nil enabled] at ledger
    cases ledger
    exact ⟨_, Books.keeps_ofLimit _, Intake.tells_empty⟩
  | append_singleton h i ih =>
    have healthy : (run settings (h ++ [i])).attempt.isHealthy = true :=
      isHealthy_of_ledger ledger
    have before := isHealthy_of_append enabled healthy
    obtain ⟨a, earlier, balanced, -⟩ := books_run enabled before
    obtain ⟨t, keeps, tells⟩ := ih earlier
    have sources := sourceCheckpoints_run settings h
    have destinations := destinationCheckpoints_run settings h
    rw [ledger_run_concat, earlier] at ledger
    -- the books are healthy after the input, so what it asked of the ledger was not refused
    have performed (c : Ledger.Call)
        (asked : (run settings h).attempt.call? i.2 = some c) :
        ∃ u, b.Keeps u ∧ t.refusal? a.budget.limit c = none ∧ t.after c = some u := by
      rw [asked] at ledger
      exact Ledger.keeps_of_perform keeps balanced (Option.some.inj ledger)
    have idle (nothing : (run settings h).attempt.call? i.2 = none)
        (tells : t.Tells (h ++ [i])) : ∃ t, b.Keeps t ∧ t.Tells (h ++ [i]) := by
      rw [nothing] at ledger
      cases ledger
      exact ⟨t, keeps, tells⟩
    obtain ⟨now, input⟩ := i
    rcases input with ⟨side, m⟩ | _
    · cases side <;> cases m
      case source.record r =>
        obtain ⟨u, keeps, -, after⟩ := performed _ rfl
        rw [positionOf_run] at after
        exact ⟨u, keeps, tells.record now r after⟩
      case source.checkpoint c =>
        obtain ⟨u, keeps, -, after⟩ := performed _ rfl
        rw [sources] at after
        exact ⟨u, keeps, tells.checkpoint now c after⟩
      case destination.checkpoint c =>
        obtain ⟨u, keeps, taken, after⟩ := performed _ rfl
        rw [destinations] at taken after
        cases after
        exact ⟨_, keeps, tells.acknowledgement now c taken⟩
      all_goals exact idle rfl (tells.idle rfl rfl rfl)
    · have asked : (run settings h).attempt.call? .interruption = some .markFailed := if_pos before
      obtain ⟨u, -, -, after⟩ := performed _ asked
      cases after

end Attempt

end SyncAccounting
