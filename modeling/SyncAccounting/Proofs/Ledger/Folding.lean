import SyncAccounting.Latency
import SyncAccounting.Proofs.Ledger.Intake

/-!
How far a fold goes. It takes what is below the index after the acknowledged one, which is all up to
the acknowledged one, but for the largest index: nothing comes after it, so what is stored under it
is never below the cut, and stays.
-/

set_option autoImplicit false

namespace SyncAccounting

namespace Count

private theorem lt_succ_iff {n : Count} (small : n.toNat < limit) (k : Count) :
    k < n.succ ↔ k ≤ n := by
  rw [lt_def, toNat_succ, le_def]
  omega

/-- The largest count follows itself, so it is not below the one after it. -/
private theorem lt_succ_iff_ne {n : Count} (largest : n.toNat = limit) (k : Count) :
    k < n.succ ↔ k ≠ n := by
  have bound := k.toNat_le_limit
  have same : k = n ↔ k.toNat = n.toNat := ⟨congrArg toNat, ext⟩
  rw [Ne, same, lt_def, toNat_succ]
  omega

end Count

namespace Backlog

variable {ν : Type} (w : Backlog ν) {index : CheckpointIndex}

theorem takeBelow_succ (small : index.toNat < Count.limit) :
    w.takeBelow index.succ = w.toList.filter (·.1 ≤ index) := by
  rw [takeBelow_eq]
  refine List.filter_congr fun e _ => ?_
  rw [decide_eq_decide]
  exact Count.lt_succ_iff small e.1

theorem toList_dropBelow_succ (small : index.toNat < Count.limit) :
    (w.dropBelow index.succ).toList = w.toList.filter (index < ·.1) := by
  rw [toList_dropBelow]
  refine List.filter_congr fun e _ => ?_
  rw [decide_eq_decide, Count.lt_succ_iff small, Count.le_def, Count.lt_def]
  omega

private theorem takeBelow_succ_of_limit (largest : index.toNat = Count.limit) :
    w.takeBelow index.succ = w.toList.filter (·.1 ≠ index) := by
  rw [takeBelow_eq]
  refine List.filter_congr fun e _ => ?_
  rw [decide_eq_decide]
  exact Count.lt_succ_iff_ne largest e.1

private theorem toList_dropBelow_succ_of_limit (largest : index.toNat = Count.limit) :
    (w.dropBelow index.succ).toList = w.toList.filter (·.1 = index) := by
  rw [toList_dropBelow]
  refine List.filter_congr fun e _ => ?_
  rw [decide_eq_decide, Count.lt_succ_iff_ne largest, not_not]

end Backlog

namespace Books

variable (b : Books) (index : CheckpointIndex)

private theorem tally_committed_settle (stream : Nat) :
    (b.settle index).committed.tally stream = b.committed.tally stream +
      TallyRow.total ((b.pending.takeBelow index.succ).flatMap (·.2.deltas)) stream := by
  have together := b.committed.addAll_flatMap (b.pending.takeBelow index.succ)
  rw [committed_settle, covered, List.foldl_map, ← together, TallyRow.tally_addAll_eq_total]

end Books

namespace Ledger

variable (limit : Count) (calls : List Call) (b : Books)

/-- An acknowledgement of a checkpoint that waits succeeds and splits what waits in two: the front
is added to what is committed, and the rest still waits and is claimed for. The front holds all up
to the checkpoint, unless its index is the largest one; then it holds all but this checkpoint. The
times of checkpoints are split alike, whether the index is stored or not. -/
theorem fold_takes_all_below_successor (ends : (ofLimit limit).performAll calls = .healthy b)
    (index : CheckpointIndex) :
    (index ∈ b.pending.toList.map Prod.fst → ∃ d front,
      (healthy b).perform (.commitUpTo index) = (.healthy d, .ok ()) ∧
      (∀ fingerprint, (healthy b).perform (.acknowledge index fingerprint) =
        (.healthy d, .ok ())) ∧
      b.pending.toList = front ++ d.pending.toList ∧
      (∀ stream, d.committed.tally stream =
        b.committed.tally stream + TallyRow.total (front.flatMap (·.2.deltas)) stream) ∧
      d.budget.used.toNat =
        (d.pending.toList.map fun e => (snapshotCost e.2.deltas.length).toNat).sum ∧
      (index.toNat < Count.limit →
        front = b.pending.toList.filter (·.1 ≤ index) ∧ ∀ e ∈ d.pending.toList, index < e.1) ∧
      (index.toNat = Count.limit →
        front = b.pending.toList.filter (·.1 ≠ index) ∧
          d.pending.toList = b.pending.toList.filter (·.1 = index))) ∧
    ∀ (l : Latency) (now : Instant) (waiting : Backlog Instant), l.outstanding = some waiting →
      ∃ rest, (l.committed index now).outstanding = some rest ∧
        (index.toNat < Count.limit →
          rest.toList = waiting.toList.filter (index < ·.1) ∧ ∀ e ∈ rest.toList, index < e.1) ∧
        (index.toNat = Count.limit → rest.toList = waiting.toList.filter (·.1 = index)) := by
  have above {ν : Type} {w : Backlog ν} (small : index.toNat < Count.limit) :
      ∀ e ∈ (w.dropBelow index.succ).toList, index < e.1 := by
    intro e he
    rw [w.toList_dropBelow_succ small] at he
    exact of_decide_eq_true (List.mem_filter.1 he).2
  refine ⟨fun waits => ?_, fun l now waiting stored => ?_⟩
  · have found := (b.pending.isSome_find?_iff index).2 waits
    obtain ⟨balanced, -⟩ := balanced_performAll ends
    refine ⟨b.settle index, b.pending.takeBelow index.succ, commitUpTo_pending found,
      fun _ => commitUpTo_pending found, (b.takeBelow_append_settle index).symm,
      b.tally_committed_settle index, (balanced.settle index).used, ?_, ?_⟩
    · intro small
      exact ⟨b.pending.takeBelow_succ small, above small⟩
    · intro largest
      exact ⟨b.pending.takeBelow_succ_of_limit largest,
        b.pending.toList_dropBelow_succ_of_limit largest⟩
  · refine ⟨waiting.dropBelow index.succ, ?_, fun small => ?_, fun largest => ?_⟩
    · rw [Latency.committed, stored]
    · exact ⟨waiting.toList_dropBelow_succ small, above small⟩
    · exact waiting.toList_dropBelow_succ_of_limit largest

/-- Snapshots at 2, 5 and 9, with a gap below each, and an acknowledgement of 5. -/
theorem fold_takes_all_below_successor_of_gaps :
    let calls : List Call := [.addState 2 [(1, ⟨2, 9⟩)], .record 0 4, .checkpoint 5 none,
      .record 0 6, .checkpoint 9 none]
    ∃ b d, (ofLimit 1000).performAll calls = .healthy b ∧
      5 ∈ b.pending.toList.map Prod.fst ∧
      (healthy b).perform (.commitUpTo 5) = (.healthy d, .ok ()) ∧
      d.pending.toList = [(9, ⟨[(0, ⟨1, 6⟩)], none⟩)] ∧
      d.committed.tally 0 = ⟨1, 4⟩ ∧ d.committed.tally 1 = ⟨2, 9⟩ ∧
      d.budget.used.toNat = 64 := by
  intro calls
  cases ends : (ofLimit 1000).performAll calls with
  | failed budget =>
    have healthy : ((ofLimit 1000).performAll calls).isHealthy = true := by decide
    rw [ends] at healthy
    cases healthy
  | healthy b =>
    have known : b.pending.toList = [(2, ⟨[(1, ⟨2, 9⟩)], none⟩), (5, ⟨[(0, ⟨1, 4⟩)], none⟩),
        (9, ⟨[(0, ⟨1, 6⟩)], none⟩)] ∧ b.committed = [] := by
      have state : ((ofLimit 1000).performAll calls).pending.toList =
          [(2, ⟨[(1, ⟨2, 9⟩)], none⟩), (5, ⟨[(0, ⟨1, 4⟩)], none⟩), (9, ⟨[(0, ⟨1, 6⟩)], none⟩)] ∧
            ((ofLimit 1000).performAll calls).committed? = some [] := by decide
      rw [ends] at state
      exact ⟨state.1, Option.some.inj state.2⟩
    have waits : 5 ∈ b.pending.toList.map Prod.fst := by
      rw [known.1]
      decide
    obtain ⟨d, front, done, -, split, committed, used, below, -⟩ :=
      (fold_takes_all_below_successor 1000 calls b ends 5).1 waits
    have taken : front = [(2, ⟨[(1, ⟨2, 9⟩)], none⟩), (5, ⟨[(0, ⟨1, 4⟩)], none⟩)] := by
      rw [(below (by decide)).1, known.1]
      decide
    have left : d.pending.toList = [(9, ⟨[(0, ⟨1, 6⟩)], none⟩)] := by
      rw [known.1, taken] at split
      simpa using split.symm
    rw [known.2, taken] at committed
    refine ⟨b, d, rfl, waits, done, left, ?_, ?_, ?_⟩
    · exact (committed 0).trans (by decide)
    · exact (committed 1).trans (by decide)
    · rw [used, left]
      decide

/-- What is stored under the largest index is not folded when it is acknowledged, though the call
succeeds: the snapshot still waits, nothing is committed, and the time of the checkpoint stays. -/
theorem fold_leaves_largest_index :
    let top : CheckpointIndex := .ofNat Count.limit
    let l := (ofLimit 100).performAll [.addState top [(0, ⟨1, 1⟩)]]
    let folded := l.perform (.commitUpTo top)
    let timed := ((Latency.ofCapacity 100).emitted top 0).1
    l.isHealthy = true ∧ top ∈ l.pending.toList.map Prod.fst ∧
      folded.2 = .ok () ∧ folded.1.pending.toList = l.pending.toList ∧
      folded.1.committed? = some [] ∧
      (timed.committed top 5).outstanding.map Backlog.toList = some [(top, 0)] := by
  decide

end Ledger

end SyncAccounting
