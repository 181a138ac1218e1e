import SyncAccounting.Proofs.Attempt.Step
import SyncAccounting.Proofs.Ledger.Balance

/-!
Healthy books mirror the history that led to them. The open row is the window that is open, what is
pending are the snapshots of the windows that wait, and what is committed are the acknowledged
windows, folded. One more input keeps this so unless it breaks the ledger, and the inputs that break
it are told by the history alone.
-/

set_option autoImplicit false

namespace SyncAccounting

variable {h : History} {i : Instant × Attempt.Input}

namespace Backlog

variable {ν : Type} {w : Backlog ν} {f : Nat → ν}

theorem toList_insert_waiting (holds : w.toList = h.waiting.map fun k => (Count.ofNat k, f k))
    (countable : h.Countable) (v : ν) :
    (w.insert (.ofNat h.checkpoints.length) v).toList =
      w.toList ++ [(.ofNat h.checkpoints.length, v)] := by
  refine toList_insert_of_lt (fun e he => ?_) v
  rw [holds] at he
  obtain ⟨k, hk, rfl⟩ := List.mem_map.1 he
  have bound := ((History.mem_waiting h k).1 hk).2
  have few := countable.checkpoints
  rw [Count.lt_def, Count.toNat_ofNat_of_le (by omega), Count.toNat_ofNat_of_le (by omega)]
  exact bound

/-- An acknowledgement takes the oldest of what waits, and nothing else. -/
theorem cut_waiting (holds : w.toList = h.waiting.map fun k => (Count.ofNat k, f k))
    (countable : h.Countable) {c : Checkpoint} (sent : i.2.acknowledgement? = some c)
    (noCheckpoint : i.2.checkpoint? = none)
    (behind : h.acknowledgements.length < h.checkpoints.length) :
    w.takeBelow (Count.ofNat h.acknowledgements.length).succ =
        [(.ofNat h.acknowledgements.length, f h.acknowledgements.length)] ∧
      (w.dropBelow (Count.ofNat h.acknowledgements.length).succ).toList =
        (History.waiting (h ++ [i])).map fun k => (Count.ofNat k, f k) := by
  obtain ⟨few, acknowledged⟩ := countable
  have oldest := History.waiting_eq_cons_of_acknowledgement sent noCheckpoint behind
  have next := Count.toNat_ofNat_of_le (n := h.acknowledgements.length + 1) acknowledged
  have first : Count.ofNat h.acknowledgements.length <
      Count.ofNat (h.acknowledgements.length + 1) := by
    rw [Count.lt_def, Count.toNat_ofNat_of_le (Nat.le_of_lt acknowledged), next]
    exact Nat.lt_succ_self _
  have rest : ∀ e ∈ (History.waiting (h ++ [i])).map fun k => (Count.ofNat k, f k),
      ¬e.1 < Count.ofNat (h.acknowledgements.length + 1) := by
    intro e he
    obtain ⟨k, hk, rfl⟩ := List.mem_map.1 he
    have bounds := (History.mem_waiting (h ++ [i]) k).1 hk
    rw [History.length_acknowledgements_concat sent,
      History.checkpoints_concat_of_none noCheckpoint] at bounds
    rw [Count.lt_def, next, Count.toNat_ofNat_of_le (by omega)]
    omega
  constructor
  · rw [Count.succ_ofNat, takeBelow_eq, holds, oldest, List.map_cons,
      List.filter_cons_of_pos (by simpa using first),
      List.filter_eq_nil_iff.2 fun e he => by simpa using rest e he]
  · rw [Count.succ_ofNat, toList_dropBelow, holds, oldest, List.map_cons,
      List.filter_cons_of_neg (by simpa using first),
      List.filter_eq_self.2 fun e he => by simpa using rest e he]

end Backlog

namespace Books

/-- Books that hold what the history says they should. -/
structure Reflects (b : Books) (h : History) : Prop where
  ordered : h.acknowledgements.length ≤ h.checkpoints.length
  current : b.current = h.row h.checkpoints.length
  pending : b.pending.toList = h.waiting.map fun k => (Count.ofNat k, h.snapshot k)
  committed : b.committed = h.folded h.acknowledgements.length
  peak : b.budget.peak.toNat = h.largestCost
  lastAdded : ∀ last ∈ b.lastAdded, last.toNat < h.checkpoints.length
  committedThrough : ∀ through ∈ b.committedThrough, through.toNat < h.acknowledgements.length

variable {b : Books}

theorem reflects_ofLimit (limit : Count) :
    Reflects ⟨.ofLimit limit, [], .empty, [], none, none⟩ [] where
  ordered := Nat.le_refl 0
  current := rfl
  pending := Backlog.toList_empty
  committed := rfl
  peak := rfl
  lastAdded := by simp
  committedThrough := by simp

namespace Reflects

private theorem pending_concat (reflects : b.Reflects h) :
    b.pending.toList =
      h.waiting.map fun k => (Count.ofNat k, History.snapshot (h ++ [i]) k) := by
  rw [reflects.pending]
  refine List.map_congr_left fun k hk => ?_
  rw [History.snapshot_concat_of_lt ((History.mem_waiting h k).1 hk).2]

theorem used_eq_waitingCost (reflects : b.Reflects h) (balanced : b.Balanced) :
    b.budget.used.toNat = h.waitingCost := by
  rw [balanced.used, costOf, reflects.pending, List.map_map, History.waitingCost]
  refine congrArg List.sum (List.map_congr_left fun k _ => ?_)
  exact congrArg Count.toNat (History.cost_snapshot h k)

theorem concat (reflects : b.Reflects h) (noCheckpoint : i.2.checkpoint? = none)
    (noAcknowledgement : i.2.acknowledgement? = none) {row : TallyRow}
    (current : row = History.row (h ++ [i]) h.checkpoints.length) :
    ({ b with current := row } : Books).Reflects (h ++ [i]) := by
  have checkpoints := History.checkpoints_concat_of_none (h := h) noCheckpoint
  have acknowledgements := History.acknowledgements_concat_of_none (h := h) noAcknowledgement
  constructor
  case ordered =>
    rw [checkpoints, acknowledgements]
    exact reflects.ordered
  case current =>
    rw [checkpoints]
    exact current
  case pending =>
    rw [History.waiting_concat_of_none noCheckpoint noAcknowledgement]
    exact reflects.pending_concat
  case committed =>
    rw [acknowledgements, History.folded_concat reflects.ordered]
    exact reflects.committed
  case peak =>
    rw [History.largestCost_concat_of_none noCheckpoint]
    exact reflects.peak
  case lastAdded =>
    rw [checkpoints]
    exact reflects.lastAdded
  case committedThrough =>
    rw [acknowledgements]
    exact reflects.committedThrough

/-! ### Checkpoints -/

theorem lastAdded_filter_eq_none (reflects : b.Reflects h) (countable : h.Countable) :
    b.lastAdded.filter (Count.ofNat h.checkpoints.length ≤ ·) = none := by
  refine Option.filter_eq_none_iff.2 fun last added => ?_
  have bound := reflects.lastAdded last added
  have index := Count.toNat_ofNat_of_le (Nat.le_of_lt countable.checkpoints)
  have above : ¬Count.ofNat h.checkpoints.length ≤ last :=
    Nat.not_le_of_lt (by rw [index]; exact bound)
  simpa using above

theorem closed_eq_snapshot (reflects : b.Reflects h) {c : Checkpoint}
    (sent : i.2.checkpoint? = some c) (noRecord : i.2.record? = none) :
    (⟨b.current.nonzero, some c.fingerprint⟩ : Snapshot) =
      History.snapshot (h ++ [i]) h.checkpoints.length := by
  rw [History.snapshot_concat_of_checkpoint sent noRecord, reflects.current]

theorem cost_le_remaining_iff (reflects : b.Reflects h) (balanced : b.Balanced) {c : Checkpoint}
    (sent : i.2.checkpoint? = some c) (noAcknowledgement : i.2.acknowledgement? = none) :
    (History.snapshot (h ++ [i]) h.checkpoints.length).cost ≤ b.budget.remaining ↔
      History.waitingCost (h ++ [i]) ≤ b.budget.limit.toNat := by
  have total :=
    History.waitingCost_concat_of_checkpoint sent noAcknowledgement reflects.ordered
  have claimed := reflects.used_eq_waitingCost balanced
  have fits : b.budget.used.toNat ≤ b.budget.limit.toNat := balanced.fits
  rw [Count.le_def, History.cost_snapshot, Budget.toNat_remaining]
  omega

theorem push (reflects : b.Reflects h) (balanced : b.Balanced) (countable : h.Countable)
    {c : Checkpoint} (sent : i.2.checkpoint? = some c) (noRecord : i.2.record? = none)
    (noAcknowledgement : i.2.acknowledgement? = none) {s : Snapshot}
    (closed : s = History.snapshot (h ++ [i]) h.checkpoints.length)
    (accepts : b.Accepts (.ofNat h.checkpoints.length) s) :
    (({ b with current := [] } : Books).push (.ofNat h.checkpoints.length) s).Reflects
      (h ++ [i]) := by
  have checkpoints := History.length_checkpoints_concat (h := h) sent
  have acknowledgements := History.acknowledgements_concat_of_none (h := h) noAcknowledgement
  have index := Count.toNat_ofNat_of_le (Nat.le_of_lt countable.checkpoints)
  have ordered := reflects.ordered
  constructor
  case ordered =>
    rw [checkpoints, acknowledgements]
    omega
  case current =>
    rw [checkpoints, History.row_concat_of_none noRecord, History.row_of_lt (Nat.lt_succ_self _)]
    rfl
  case pending =>
    have longer := balanced.toList_push accepts
    rw [reflects.pending_concat (i := i)] at longer
    rw [History.waiting_concat_of_checkpoint sent noAcknowledgement ordered, List.map_append,
      List.map_singleton, ← closed]
    exact longer
  case committed =>
    rw [acknowledgements, History.folded_concat ordered]
    exact reflects.committed
  case peak =>
    rw [History.largestCost_concat_of_checkpoint sent, ← reflects.peak, ← History.cost_snapshot,
      ← closed]
    exact Count.toNat_max _ _
  case lastAdded =>
    rintro last ⟨⟩
    rw [checkpoints, index]
    exact Nat.lt_succ_self _
  case committedThrough =>
    rw [acknowledgements]
    exact reflects.committedThrough

/-! ### Acknowledgements -/

private theorem index_eq {n k : Nat} (hn : n ≤ Count.limit) (hk : k ≤ Count.limit) :
    Count.ofNat n = Count.ofNat k ↔ n = k := by
  refine ⟨fun same => ?_, congrArg Count.ofNat⟩
  rw [← Count.toNat_ofNat_of_le hn, same, Count.toNat_ofNat_of_le hk]

theorem isSome_find?_pending_iff (reflects : b.Reflects h) (countable : h.Countable) :
    (b.pending.find? (.ofNat h.acknowledgements.length)).isSome ↔
      h.acknowledgements.length < h.checkpoints.length := by
  obtain ⟨sent, acknowledged⟩ := countable
  rw [Backlog.isSome_find?_iff, reflects.pending, List.map_map, List.mem_map]
  constructor
  · rintro ⟨k, hk, same⟩
    have bounds := (History.mem_waiting h k).1 hk
    have equal := (index_eq (by omega) (Nat.le_of_lt acknowledged)).1 same
    omega
  · intro behind
    exact ⟨h.acknowledgements.length, (History.mem_waiting h _).2 ⟨Nat.le_refl _, behind⟩, rfl⟩

theorem not_committedThrough (reflects : b.Reflects h) (countable : h.Countable) :
    ¬b.committedThrough.any (Count.ofNat h.acknowledgements.length ≤ ·) := by
  intro folded
  obtain ⟨through, known, bound⟩ := (Option.any_eq_true _ _).1 folded
  have below := reflects.committedThrough through known
  have index := Count.toNat_ofNat_of_le (Nat.le_of_lt countable.acknowledgements)
  have above : Count.ofNat h.acknowledgements.length ≤ through := of_decide_eq_true bound
  rw [Count.le_def] at above
  omega

private theorem covered_eq_and_left_eq (reflects : b.Reflects h) (countable : h.Countable)
    {c : Checkpoint} (sent : i.2.acknowledgement? = some c) (noCheckpoint : i.2.checkpoint? = none)
    (behind : h.acknowledgements.length < h.checkpoints.length) :
    b.covered (.ofNat h.acknowledgements.length) = [h.snapshot h.acknowledgements.length] ∧
      (b.settle (.ofNat h.acknowledgements.length)).pending.toList =
        (History.waiting (h ++ [i])).map fun k => (Count.ofNat k, h.snapshot k) := by
  obtain ⟨oldest, left⟩ := Backlog.cut_waiting reflects.pending countable sent noCheckpoint behind
  refine ⟨?_, left⟩
  rw [covered, oldest]
  rfl

theorem settle (reflects : b.Reflects h) (countable : h.Countable) {c : Checkpoint}
    (sent : i.2.acknowledgement? = some c) (noCheckpoint : i.2.checkpoint? = none)
    (noRecord : i.2.record? = none) (behind : h.acknowledgements.length < h.checkpoints.length) :
    (b.settle (.ofNat h.acknowledgements.length)).Reflects (h ++ [i]) := by
  have checkpoints := History.checkpoints_concat_of_none (h := h) noCheckpoint
  have acknowledgements := History.length_acknowledgements_concat (h := h) sent
  obtain ⟨covered, left⟩ := reflects.covered_eq_and_left_eq countable sent noCheckpoint behind
  constructor
  case ordered =>
    rw [checkpoints, acknowledgements]
    exact behind
  case current =>
    rw [current_settle, checkpoints, History.row_concat_of_none noRecord]
    exact reflects.current
  case pending =>
    rw [left]
    refine List.map_congr_left fun k hk => ?_
    have bound := ((History.mem_waiting _ k).1 hk).2
    rw [checkpoints] at bound
    rw [History.snapshot_concat_of_lt bound]
  case committed =>
    rw [committed_settle, covered, acknowledgements, History.folded_concat behind,
      History.folded_succ, ← reflects.committed]
    rfl
  case peak =>
    rw [peak_settle, History.largestCost_concat_of_none noCheckpoint]
    exact reflects.peak
  case lastAdded =>
    rw [lastAdded_settle, checkpoints]
    exact reflects.lastAdded
  case committedThrough =>
    rintro through ⟨⟩
    rw [acknowledgements, Count.toNat_ofNat_of_le (Nat.le_of_lt countable.acknowledgements)]
    exact Nat.lt_succ_self _

end Reflects

end Books

end SyncAccounting
