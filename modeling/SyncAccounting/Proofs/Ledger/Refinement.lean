import Mathlib.Data.List.DropRight
import SyncAccounting.Proofs.Ledger.Intake

/-!
Calls may come in any order, with gaps between the indices, with folds that are repeated or stale,
and with snapshots that do not come from records. As long as the books are healthy they are those of
their intake: what waits is above the highest fold, what is committed is the rest, and a call is
refused exactly where the intake says so.
-/

set_option autoImplicit false

namespace SyncAccounting

namespace Ledger

namespace Call

def index? : Call → Option CheckpointIndex
  | .checkpoint index _ | .addState index _ | .acknowledge index _ | .commitUpTo index => some index
  | .record _ _ | .markFailed => none

def record? : Call → Option (Nat × Tally)
  | .record stream bytes => some (stream, .single bytes)
  | _ => none

def isCheckpoint : Call → Bool
  | .checkpoint _ _ => true
  | _ => false

end Call

def recordsSince (calls : List Call) : List (Nat × Tally) :=
  (calls.rtakeWhile fun c => !c.isCheckpoint).filterMap Call.record?

private theorem recordsSince_concat (calls : List Call) (c : Call) :
    recordsSince (calls ++ [c]) =
      if c.isCheckpoint then [] else recordsSince calls ++ c.record?.toList := by
  rw [recordsSince, List.rtakeWhile_concat]
  cases c.isCheckpoint with
  | true => rfl
  | false => cases recorded : c.record? <;> simp [recordsSince, recorded]

end Ledger

namespace Intake

variable {limit : Count} {s t : Intake} {c : Ledger.Call}

private theorem exists_of_performAll_concat {calls : List Ledger.Call}
    (told : performAll limit (calls ++ [c]) = some t) :
    ∃ s, performAll limit calls = some s ∧ s.after c = some t := by
  rw [performAll_concat] at told
  obtain ⟨s, before, performed⟩ := Option.bind_eq_some_iff.1 told
  exact ⟨s, before, after_of_perform performed⟩

/-! ### What one call changes -/

private theorem recent_after (after : s.after c = some t) :
    t.recent = if c.isCheckpoint then [] else s.recent ++ c.record?.toList := by
  have folded (index : CheckpointIndex) : (s.fold index).recent = s.recent ++ [] := by
    rw [fold, List.append_nil]
    split <;> rfl
  cases c with
  | record stream bytes =>
    cases after
    rfl
  | checkpoint index fingerprint =>
    cases after
    rfl
  | addState index deltas =>
    cases after
    exact (List.append_nil _).symm
  | acknowledge index fingerprint =>
    cases after
    exact folded index
  | commitUpTo index =>
    cases after
    exact folded index
  | markFailed => cases after

private theorem through_after (after : s.after c = some t) :
    t.through = s.through ∨ t.through = c.index? := by
  have folded (index : CheckpointIndex) :
      (s.fold index).through = s.through ∨ (s.fold index).through = some index := by
    by_cases waits : index ∈ s.waiting.map Prod.fst
    · rw [Books.Keeps.fold_of_waiting waits]
      exact .inr rfl
    · rw [fold, if_neg waits]
      exact .inl rfl
  cases c with
  | record stream bytes =>
    cases after
    exact .inl rfl
  | checkpoint index fingerprint =>
    cases after
    exact .inl rfl
  | addState index deltas =>
    cases after
    exact .inl rfl
  | acknowledge index fingerprint =>
    cases after
    exact folded index
  | commitUpTo index =>
    cases after
    exact folded index
  | markFailed => cases after

private theorem isSome_after (s : Intake) (known : c ≠ .markFailed) : (s.after c).isSome := by
  cases c with
  | markFailed => exact absurd rfl known
  | record stream bytes => rfl
  | checkpoint index fingerprint => rfl
  | addState index deltas => rfl
  | acknowledge index fingerprint => rfl
  | commitUpTo index => rfl

/-! ### What all calls leave -/

private theorem recent_performAll {calls : List Ledger.Call}
    (told : performAll limit calls = some t) :
    t.recent = Ledger.recordsSince calls := by
  induction calls using List.reverseRecOn generalizing t with
  | nil =>
    cases told
    rfl
  | append_singleton calls c ih =>
    obtain ⟨s, before, after⟩ := exists_of_performAll_concat told
    rw [recent_after after, Ledger.recordsSince_concat, ih before]

private theorem exists_index_of_through {calls : List Ledger.Call}
    (told : performAll limit calls = some t) :
    ∀ through ∈ t.through, ∃ c ∈ calls, through ∈ c.index? := by
  induction calls using List.reverseRecOn generalizing t with
  | nil =>
    cases told
    simp [empty]
  | append_singleton calls c ih =>
    intro through folded
    obtain ⟨s, before, after⟩ := exists_of_performAll_concat told
    rcases through_after after with same | moved
    · obtain ⟨d, hd, about⟩ := ih before through (same ▸ folded)
      exact ⟨d, List.mem_append_left [c] hd, about⟩
    · exact ⟨c, by simp, moved ▸ folded⟩

/-- Below the largest index a fold covers its own snapshot and those before it. -/
private theorem covers_eq (small : ∀ through ∈ t.through, through.toNat < Count.limit)
    (index : CheckpointIndex) : t.covers index = t.through.any (index ≤ ·) := by
  cases folded : t.through with
  | none => rw [covers, folded, Option.any_none, Option.any_none]
  | some through =>
    have bound := small through folded
    rw [covers, folded, Option.any_some, Option.any_some, decide_eq_decide, Count.lt_def,
      Count.toNat_succ, Count.le_def]
    omega

private theorem mem_deltas_snapshot (t : Intake) (fingerprint : Option Fingerprint) (stream : Nat)
    (tally : Tally) :
    (stream, tally) ∈ (t.snapshot fingerprint).deltas ↔
      tally = TallyRow.total t.recent stream ∧ tally ≠ .zero := by
  have sums (n : Nat) : t.row.tally n = TallyRow.total t.recent n := by
    rw [row, TallyRow.tally_addAll_eq_total, TallyRow.tally_nil, Tally.zero_add]
  have bound (nonzero : t.row.tally stream ≠ .zero) : stream < t.row.length := by
    by_contra outside
    exact nonzero (TallyRow.tally_of_length_le (Nat.le_of_not_lt outside))
  rw [snapshot, TallyRow.nonzero_eq_map, List.mem_map]
  constructor
  · rintro ⟨n, hn, ⟨⟩⟩
    have nonzero := of_decide_eq_true (List.mem_filter.1 hn).2
    exact ⟨sums stream, nonzero⟩
  · rintro ⟨same, nonzero⟩
    rw [same, ← sums] at nonzero ⊢
    refine ⟨stream, List.mem_filter.2 ⟨List.mem_range.2 (bound nonzero), ?_⟩, rfl⟩
    exact decide_eq_true nonzero

end Intake

namespace Ledger

/-- Healthy books, read off their intake: the accepted snapshots are ascending; those above the
highest fold wait and are claimed for, within the limit; the others are committed; a checkpoint
would take what the records since the last one add up to, whatever snapshots came in between; and a
call is refused exactly for the reasons of the intake. -/
theorem refines_intake (limit : Count) (calls : List Call)
    (small : ∀ c ∈ calls, ∀ index ∈ c.index?, index.toNat < Count.limit) (b : Books)
    (ends : (ofLimit limit).performAll calls = .healthy b) :
    ∃ t, Intake.performAll limit calls = some t ∧
      t.accepted.Pairwise (fun e f => e.1 < f.1) ∧
      b.pending.toList = t.accepted.filter (fun e => t.through.all (· < e.1)) ∧
      (∀ stream, b.committed.tally stream = TallyRow.total
        ((t.accepted.filter fun e => t.through.any (e.1 ≤ ·)).flatMap (·.2.deltas)) stream) ∧
      b.budget.used.toNat =
        (b.pending.toList.map fun e => (snapshotCost e.2.deltas.length).toNat).sum ∧
      b.budget.used ≤ limit ∧
      (∀ fingerprint, ((t.snapshot fingerprint).deltas.map Prod.fst).Nodup ∧
        ∀ stream tally, (stream, tally) ∈ (t.snapshot fingerprint).deltas ↔
          tally = TallyRow.total (recordsSince calls) stream ∧ tally ≠ .zero) ∧
      ∀ c, ((healthy b).perform c).2 = (t.refusal? limit c).elim (.ok ()) .error ∧
        (c ≠ .markFailed →
          (((healthy b).perform c).1.isHealthy = false ↔ (t.refusal? limit c).isSome)) := by
  obtain ⟨t, told, keeps⟩ := keeps_performAll ends
  obtain ⟨balanced, limits⟩ := balanced_performAll ends
  -- no fold was of the largest index, so each one took its own snapshot with those before it
  have indices : ∀ through ∈ t.through, through.toNat < Count.limit := by
    intro through folded
    obtain ⟨c, hc, about⟩ := Intake.exists_index_of_through told through folded
    exact small c hc through about
  have covers := Intake.covers_eq indices
  refine ⟨t, told, keeps.ascending, ?_, ?_, balanced.used, limits ▸ balanced.fits, ?_, ?_⟩
  · rw [keeps.pending]
    refine List.filter_congr fun e _ => ?_
    rw [covers]
    cases t.through with
    | none => rfl
    | some through =>
      rw [Option.any_some, Option.all_some, ← decide_not, decide_eq_decide, Count.le_def,
        Count.lt_def]
      omega
  · intro stream
    rw [keeps.committed, TallyRow.tally_addAll_eq_total, TallyRow.tally_nil, Tally.zero_add,
      Intake.settled]
    simp only [covers]
  · intro fingerprint
    refine ⟨TallyRow.nodup_nonzero t.row, fun stream tally => ?_⟩
    rw [← Intake.recent_performAll told]
    exact t.mem_deltas_snapshot fingerprint stream tally
  · intro c
    have agrees := agrees_perform keeps balanced c
    rw [limits] at agrees
    refine ⟨?_, fun known => ?_⟩
    · rw [agrees.result, Intake.perform]
      cases t.refusal? limit c <;> rfl
    · rw [agrees.mirrors.isHealthy_eq, Intake.perform]
      cases t.refusal? limit c with
      | some fault => exact iff_of_true rfl rfl
      | none =>
        have told := t.isSome_after known
        simp [told]

/-- Snapshots at 3 and 7, with a gap below each, and folds that are stale. Above the highest fold
only 7 is known. -/
theorem refines_intake_of_gaps :
    let calls : List Call := [.record 0 5, .addState 3 [(1, ⟨2, 9⟩)], .record 0 6,
      .checkpoint 7 none, .commitUpTo 3, .commitUpTo 1, .commitUpTo 3]
    ∃ b, (ofLimit 1000).performAll calls = .healthy b ∧
      b.pending.toList = [(7, ⟨[(0, ⟨2, 11⟩)], none⟩)] ∧
      b.committed.tally 1 = ⟨2, 9⟩ ∧
      b.budget.used.toNat = 64 ∧
      ((healthy b).perform (.commitUpTo 5)).2 = .error (.unknownCheckpoint 5) ∧
      ((healthy b).perform (.addState 7 [])).2 = .error (.outOfOrder 7 7) ∧
      ((healthy b).perform (.addState 9 [])).2 = .ok () := by
  intro calls
  cases ends : (ofLimit 1000).performAll calls with
  | failed budget =>
    have healthy : ((ofLimit 1000).performAll calls).isHealthy = true := by decide
    rw [ends] at healthy
    cases healthy
  | healthy b =>
    obtain ⟨t, told, -, pending, committed, used, -, -, refused⟩ :=
      refines_intake 1000 calls (by decide) b ends
    have known : Intake.performAll 1000 calls = some
        ⟨[(3, ⟨[(1, ⟨2, 9⟩)], none⟩), (7, ⟨[(0, ⟨2, 11⟩)], none⟩)], some 3, []⟩ := by decide
    cases told.symm.trans known
    have waits : b.pending.toList = [(7, ⟨[(0, ⟨2, 11⟩)], none⟩)] := pending.trans (by decide)
    refine ⟨b, rfl, waits, (committed 1).trans (by decide), ?_, ?_, ?_, ?_⟩
    · rw [used, waits]
      decide
    · exact (refused _).1.trans (by decide)
    · exact (refused _).1.trans (by decide)
    · exact (refused _).1.trans (by decide)

end Ledger

end SyncAccounting
