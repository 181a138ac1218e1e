import SyncAccounting.Proofs.Ledger.Calls

/-!
The claims on the budget are at all times the costs of the snapshots that wait, and they never pass
the limit. Snapshots come in ascending order, so a new one goes to the end of those that wait, and
what an acknowledgement covers is taken from their front.
-/

set_option autoImplicit false

namespace SyncAccounting

namespace Backlog

variable {ν : Type}

theorem toList_insert_of_lt {w : Backlog ν} {index : CheckpointIndex}
    (above : ∀ e ∈ w.toList, e.1 < index) (v : ν) :
    (w.insert index v).toList = w.toList ++ [(index, v)] := by
  rw [toList_insert, place_of_lt above]

theorem takeBelow_append (w : Backlog ν) (index : CheckpointIndex) :
    w.takeBelow index ++ (w.dropBelow index).toList = w.toList := by
  have rest : (w.dropBelow index).toList = w.toList.dropWhile (·.1 < index) :=
    cut_append index w.early w.late
  rw [takeBelow_eq_takeWhile, rest]
  exact List.takeWhile_append_dropWhile

theorem isSome_find?_iff (w : Backlog ν) (index : CheckpointIndex) :
    (w.find? index).isSome ↔ index ∈ w.toList.map Prod.fst := by
  rw [find?_eq, Option.isSome_map, List.find?_isSome, List.mem_map]
  simp

end Backlog

namespace Budget

theorem toNat_remaining (g : Budget) : g.remaining.toNat = g.limit.toNat - g.used.toNat :=
  Count.toNat_sub _ _

theorem toNat_used_add {g : Budget} {bytes : Count} (fits : g.used ≤ g.limit)
    (room : bytes ≤ g.remaining) :
    (g.used + bytes).toNat = g.used.toNat + bytes.toNat ∧ g.used + bytes ≤ g.limit := by
  have top := g.limit.toNat_le_limit
  rw [Count.le_def] at fits
  rw [Count.le_def, toNat_remaining] at room
  rw [Count.le_def, Count.toNat_add]
  omega

end Budget

namespace Books

def costOf (snapshots : List (CheckpointIndex × Snapshot)) : Nat :=
  (snapshots.map fun e => e.2.cost.toNat).sum

/-- The claims are those of the snapshots that wait, and fit; no snapshot is above the last one. -/
structure Balanced (b : Books) : Prop where
  used : b.budget.used.toNat = costOf b.pending.toList
  fits : b.budget.used ≤ b.budget.limit
  below : ∀ e ∈ b.pending.toList, ∃ last ∈ b.lastAdded, e.1 ≤ last

variable {b d : Books}

private theorem costOf_append (xs ys : List (CheckpointIndex × Snapshot)) :
    costOf (xs ++ ys) = costOf xs + costOf ys := by
  rw [costOf, List.map_append, List.sum_append]
  rfl

private theorem Balanced.lt_of_accepts (balanced : b.Balanced) {index : CheckpointIndex}
    {s : Snapshot} (accepts : b.Accepts index s) : ∀ e ∈ b.pending.toList, e.1 < index := by
  intro e he
  obtain ⟨last, added, bound⟩ := balanced.below e he
  have order := Option.filter_eq_none_iff.1 accepts.order last added
  have later : ¬index ≤ last := by simpa using order
  exact Nat.lt_of_le_of_lt bound (Nat.lt_of_not_le later)

theorem Balanced.toList_push (balanced : b.Balanced) {index : CheckpointIndex} {s : Snapshot}
    (accepts : b.Accepts index s) :
    (b.push index s).pending.toList = b.pending.toList ++ [(index, s)] :=
  Backlog.toList_insert_of_lt (balanced.lt_of_accepts accepts) s

theorem Balanced.setCurrent (balanced : b.Balanced) (row : TallyRow) :
    ({ b with current := row } : Books).Balanced :=
  ⟨balanced.used, balanced.fits, balanced.below⟩

private theorem Balanced.push (balanced : b.Balanced) {index : CheckpointIndex} {s : Snapshot}
    (accepts : b.Accepts index s) : (b.push index s).Balanced := by
  obtain ⟨exact, fits⟩ := Budget.toNat_used_add balanced.fits accepts.room
  refine ⟨?_, fits, ?_⟩
  · have used : (b.push index s).budget.used.toNat = b.budget.used.toNat + s.cost.toNat := exact
    rw [used, balanced.toList_push accepts, costOf_append, balanced.used]
    rfl
  · intro e he
    rw [balanced.toList_push accepts] at he
    refine ⟨index, rfl, ?_⟩
    rcases List.mem_append.1 he with old | new
    · exact Nat.le_of_lt (balanced.lt_of_accepts accepts e old)
    · rw [List.mem_singleton.1 new]
      exact Count.le_refl index

theorem takeBelow_append_settle (b : Books) (index : CheckpointIndex) :
    b.pending.takeBelow index.succ ++ (b.settle index).pending.toList = b.pending.toList :=
  b.pending.takeBelow_append index.succ

theorem Balanced.settle (balanced : b.Balanced) (index : CheckpointIndex) :
    (b.settle index).Balanced := by
  have parts := b.takeBelow_append_settle index
  have total := congrArg costOf parts
  have released := used_settle b index
  have covered : ((b.covered index).map fun s => s.cost.toNat).sum =
      costOf (b.pending.takeBelow index.succ) := by
    rw [Books.covered, List.map_map]
    rfl
  rw [costOf_append, ← balanced.used] at total
  rw [covered] at released
  refine ⟨by omega, ?_, ?_⟩
  · have fits : b.budget.used.toNat ≤ b.budget.limit.toNat := balanced.fits
    rw [Count.le_def, limit_settle]
    omega
  · intro e he
    rw [lastAdded_settle]
    exact balanced.below e (parts ▸ List.mem_append_right _ he)

private theorem Balanced.moves (balanced : b.Balanced) {c : Ledger.Call} (moves : b.Moves c d) :
    d.Balanced := by
  have folded {index : CheckpointIndex} (folds : b.Folds index d) : d.Balanced := by
    cases folds with
    | settle pending => exact balanced.settle index
    | again pending folded => exact balanced
  cases moves with
  | record stream bytes => exact balanced.setCurrent _
  | checkpoint accepts => exact (balanced.setCurrent []).push ⟨accepts.order, accepts.room⟩
  | addState accepts => exact balanced.push accepts
  | acknowledge folds => exact folded folds
  | commitUpTo folds => exact folded folds

private theorem limit_moves {c : Ledger.Call} (moves : b.Moves c d) :
    d.budget.limit = b.budget.limit := by
  have folded {index : CheckpointIndex} (folds : b.Folds index d) :
      d.budget.limit = b.budget.limit := by
    cases folds with
    | settle pending => exact limit_settle b index
    | again pending folded => rfl
  cases moves with
  | record stream bytes => rfl
  | checkpoint accepts => rfl
  | addState accepts => rfl
  | acknowledge folds => exact folded folds
  | commitUpTo folds => exact folded folds

end Books

namespace Ledger

/-- Whatever the calls were, healthy books have the limit they began with and are balanced. -/
theorem balanced_performAll {limit : Count} {calls : List Call} {b : Books}
    (healthy : (ofLimit limit).performAll calls = .healthy b) :
    b.Balanced ∧ b.budget.limit = limit := by
  induction calls using List.reverseRecOn generalizing b with
  | nil =>
    cases healthy
    refine ⟨⟨rfl, Nat.zero_le _, ?_⟩, rfl⟩
    simp [Backlog.toList_empty]
  | append_singleton calls c ih =>
    rw [performAll_concat] at healthy
    have settled := isSettled_performAll (isSettled_ofLimit limit) calls
    cases before : performAll (ofLimit limit) calls with
    | healthy a =>
      rw [before] at healthy
      obtain ⟨balanced, limits⟩ := ih before
      have moves := moves_of_healthy healthy
      exact ⟨balanced.moves moves, (Books.limit_moves moves).trans limits⟩
    | failed budget =>
      rw [before] at healthy settled
      rw [perform_failed settled] at healthy
      cases healthy

end Ledger

end SyncAccounting
