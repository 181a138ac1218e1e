import SyncAccounting.Proofs.Ledger.Balance

/-!
What healthy books hold of a stream: what is committed, what waits in snapshots, and what is in the
open row. A call adds what it brings, and otherwise only moves tallies from one place to another.
-/

set_option autoImplicit false

namespace SyncAccounting

def Ledger.Call.brings : Ledger.Call → List (Nat × Tally)
  | .record stream bytes => [(stream, .single bytes)]
  | .addState _ deltas => deltas
  | .checkpoint _ _ | .acknowledge _ _ | .commitUpTo _ | .markFailed => []

namespace Books

def tallyOf (snapshots : List (CheckpointIndex × Snapshot)) (stream : Nat) : Tally :=
  .sum (snapshots.map fun e => TallyRow.deltaAt e.2.deltas stream)

/-- What the books hold of a stream, in whatever place. -/
def holding (b : Books) (stream : Nat) : Tally :=
  b.committed.tally stream + tallyOf b.pending.toList stream + b.current.tally stream

/-- No snapshot that waits has two tallies of a stream. -/
def Distinct (b : Books) : Prop := ∀ e ∈ b.pending.toList, (e.2.deltas.map Prod.fst).Nodup

variable {b d : Books}

private theorem tallyOf_append (xs ys : List (CheckpointIndex × Snapshot)) (stream : Nat) :
    tallyOf (xs ++ ys) stream = tallyOf xs stream + tallyOf ys stream := by
  rw [tallyOf, List.map_append, Tally.sum_append]
  rfl

private theorem tallyOf_singleton (e : CheckpointIndex × Snapshot) (stream : Nat) :
    tallyOf [e] stream = TallyRow.deltaAt e.2.deltas stream := Tally.zero_add _

private theorem tally_foldl_addAll (row : TallyRow) {snapshots : List (CheckpointIndex × Snapshot)}
    (distinct : ∀ e ∈ snapshots, (e.2.deltas.map Prod.fst).Nodup) (stream : Nat) :
    ((snapshots.map Prod.snd).foldl (fun row s => row.addAll s.deltas) row).tally stream =
      row.tally stream + tallyOf snapshots stream := by
  induction snapshots generalizing row with
  | nil => exact (Tally.add_zero _).symm
  | cons e snapshots ih =>
    have head := distinct e List.mem_cons_self
    have tail := ih (row.addAll e.2.deltas) fun f hf => distinct f (List.mem_cons_of_mem e hf)
    rw [TallyRow.tally_addAll row head, Tally.add_assoc] at tail
    have split : tallyOf (e :: snapshots) stream =
        TallyRow.deltaAt e.2.deltas stream + tallyOf snapshots stream := Tally.sum_cons _ _
    rw [split]
    exact tail

private theorem Distinct.push (distinct : b.Distinct) (balanced : b.Balanced)
    {index : CheckpointIndex} {s : Snapshot} (accepts : b.Accepts index s)
    (once : (s.deltas.map Prod.fst).Nodup) :
    (b.push index s).Distinct := by
  intro e he
  rw [balanced.toList_push accepts] at he
  rcases List.mem_append.1 he with old | new
  · exact distinct e old
  · rw [List.mem_singleton.1 new]
    exact once

private theorem holding_push (balanced : b.Balanced) {index : CheckpointIndex} {s : Snapshot}
    (accepts : b.Accepts index s) (stream : Nat) :
    (b.push index s).holding stream = b.holding stream + TallyRow.deltaAt s.deltas stream := by
  rw [holding, balanced.toList_push accepts, tallyOf_append, tallyOf_singleton, ← Tally.add_assoc,
    Tally.add_right_comm]
  rfl

private theorem Distinct.settle (distinct : b.Distinct) (index : CheckpointIndex) :
    (b.settle index).Distinct := by
  intro e he
  have parts := b.takeBelow_append_settle index
  exact distinct e (parts ▸ List.mem_append_right _ he)

private theorem holding_settle (distinct : b.Distinct) (index : CheckpointIndex) (stream : Nat) :
    (b.settle index).holding stream = b.holding stream := by
  have parts := b.takeBelow_append_settle index
  have covered : ∀ e ∈ b.pending.takeBelow index.succ, (e.2.deltas.map Prod.fst).Nodup :=
    fun e he => distinct e (parts ▸ List.mem_append_left _ he)
  rw [holding, committed_settle, current_settle, Books.covered, tally_foldl_addAll _ covered,
    Tally.add_assoc (b.committed.tally stream), ← tallyOf_append, parts, holding]

/-- A call that books do not refuse adds to what they hold exactly what it brings. -/
theorem holding_moves (balanced : b.Balanced) (distinct : b.Distinct) {c : Ledger.Call}
    (once : (c.brings.map Prod.fst).Nodup) (moves : b.Moves c d) :
    d.Distinct ∧ ∀ stream,
      d.holding stream = b.holding stream + TallyRow.deltaAt c.brings stream := by
  have nothing (stream : Nat) : b.holding stream = b.holding stream + TallyRow.deltaAt [] stream :=
    (Tally.add_zero _).symm
  have folded {index : CheckpointIndex} (folds : b.Folds index d) :
      d.Distinct ∧ ∀ stream, d.holding stream = b.holding stream + TallyRow.deltaAt [] stream := by
    cases folds with
    | settle pending =>
      exact ⟨distinct.settle index, fun stream =>
        (holding_settle distinct index stream).trans (nothing stream)⟩
    | again pending folded => exact ⟨distinct, nothing⟩
  cases moves with
  | record key bytes =>
    refine ⟨distinct, fun stream => ?_⟩
    have brought : TallyRow.deltaAt (Ledger.Call.record key bytes).brings stream =
        if stream = key then .single bytes else .zero := TallyRow.deltaAt_cons _ _ _ _
    change b.committed.tally stream + tallyOf b.pending.toList stream +
      (b.current.addAt key (.single bytes)).tally stream = _
    rw [TallyRow.tally_addAt, brought]
    by_cases same : stream = key
    · rw [if_pos same, if_pos same, ← Tally.add_assoc, holding]
    · rw [if_neg same, if_neg same, Tally.add_zero, holding]
  | checkpoint accepts =>
    -- the row is emptied before its snapshot is pushed, so nothing is held twice
    have closed := balanced.setCurrent []
    have room : ({ b with current := [] } : Books).Accepts _ _ := ⟨accepts.order, accepts.room⟩
    have apart : ({ b with current := [] } : Books).Distinct := distinct
    refine ⟨apart.push closed room (TallyRow.nodup_nonzero _), fun stream => ?_⟩
    rw [holding_push closed room, TallyRow.deltaAt_nonzero]
    refine Eq.trans ?_ (nothing stream)
    rw [holding, TallyRow.tally_nil, Tally.add_zero]
    rfl
  | addState accepts =>
    exact ⟨distinct.push balanced accepts once, holding_push balanced accepts⟩
  | acknowledge folds => exact folded folds
  | commitUpTo folds => exact folded folds

end Books

end SyncAccounting
