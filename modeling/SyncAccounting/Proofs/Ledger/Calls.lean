import SyncAccounting.Proofs.Rows
import SyncAccounting.Ledger

/-!
A ledger as a machine that takes calls. A call on healthy books either leaves healthy books and
succeeds, or leaves a ledger that has failed and holds no claims; a ledger that has failed takes
every call and stays as it is. What the calls do to healthy books is stated once here, so that
later modules need not open them.
-/

set_option autoImplicit false

namespace SyncAccounting

namespace Ledger

inductive Call where
  | record (stream : Nat) (bytes : Count)
  | checkpoint (index : CheckpointIndex) (fingerprint : Option Fingerprint)
  | addState (index : CheckpointIndex) (deltas : List (Nat × Tally))
  | acknowledge (index : CheckpointIndex) (fingerprint : Fingerprint)
  | commitUpTo (index : CheckpointIndex)
  | markFailed

def perform (l : Ledger) : Call → Outcome
  | .record stream bytes => (l.record stream bytes, .ok ())
  | .checkpoint index fingerprint => l.checkpoint index fingerprint
  | .addState index deltas => l.addState index deltas
  | .acknowledge index fingerprint => (l.acknowledge index fingerprint).1
  | .commitUpTo index => l.commitUpTo index
  | .markFailed => (l.fail, .ok ())

def performAll (l : Ledger) (calls : List Call) : Ledger :=
  calls.foldl (fun l c => (l.perform c).1) l

theorem performAll_concat (l : Ledger) (calls : List Call) (c : Call) :
    l.performAll (calls ++ [c]) = ((l.performAll calls).perform c).1 := by
  rw [performAll, List.foldl_append]
  rfl

end Ledger

/-! ### What calls do to healthy books -/

namespace Books

/-- A snapshot with a new index that fits in what is left of the budget. -/
structure Accepts (b : Books) (index : CheckpointIndex) (s : Snapshot) : Prop where
  order : b.lastAdded.filter (index ≤ ·) = none
  room : s.cost ≤ b.budget.remaining

def push (b : Books) (index : CheckpointIndex) (s : Snapshot) : Books :=
  { b with
    budget := { b.budget with used := b.budget.used + s.cost, peak := max b.budget.peak s.cost }
    pending := b.pending.insert index s
    lastAdded := some index }

def covered (b : Books) (index : CheckpointIndex) : List Snapshot :=
  (b.pending.takeBelow index.succ).map Prod.snd

def settle (b : Books) (index : CheckpointIndex) : Books :=
  { (b.covered index).foldl Ledger.fold b with
    pending := b.pending.dropBelow index.succ
    committedThrough := some index }

inductive Folds (b : Books) (index : CheckpointIndex) : Books → Prop
  | settle (pending : (b.pending.find? index).isSome) : Folds b index (b.settle index)
  | again (pending : ¬(b.pending.find? index).isSome)
      (folded : b.committedThrough.any (index ≤ ·)) : Folds b index b

/-- The books after a call that they do not refuse. -/
inductive Moves (b : Books) : Ledger.Call → Books → Prop
  | record (stream : Nat) (bytes : Count) :
      Moves b (.record stream bytes)
        { b with current := b.current.addAt stream (.single bytes) }
  | checkpoint {index : CheckpointIndex} {fingerprint : Option Fingerprint}
      (accepts : b.Accepts index ⟨b.current.nonzero, fingerprint⟩) :
      Moves b (.checkpoint index fingerprint)
        (({ b with current := [] } : Books).push index ⟨b.current.nonzero, fingerprint⟩)
  | addState {index : CheckpointIndex} {deltas : List (Nat × Tally)}
      (accepts : b.Accepts index ⟨deltas, none⟩) :
      Moves b (.addState index deltas) (b.push index ⟨deltas, none⟩)
  | acknowledge {index : CheckpointIndex} {fingerprint : Fingerprint} {d : Books}
      (folds : b.Folds index d) : Moves b (.acknowledge index fingerprint) d
  | commitUpTo {index : CheckpointIndex} {d : Books} (folds : b.Folds index d) :
      Moves b (.commitUpTo index) d

private theorem foldl_fold (ready : List Snapshot) (b : Books) :
    ready.foldl Ledger.fold b =
      { b with
        committed := ready.foldl (fun row s => row.addAll s.deltas) b.committed
        budget := ready.foldl (fun g s => g.release s.cost) b.budget } := by
  induction ready generalizing b with
  | nil => rfl
  | cons s ready ih =>
    rw [List.foldl_cons, ih]
    rfl

theorem committed_settle (b : Books) (index : CheckpointIndex) :
    (b.settle index).committed =
      (b.covered index).foldl (fun row s => row.addAll s.deltas) b.committed := by
  rw [settle, foldl_fold]

theorem current_settle (b : Books) (index : CheckpointIndex) :
    (b.settle index).current = b.current := by
  rw [settle, foldl_fold]

theorem lastAdded_settle (b : Books) (index : CheckpointIndex) :
    (b.settle index).lastAdded = b.lastAdded := by
  rw [settle, foldl_fold]

private theorem foldl_release (ready : List Snapshot) (g : Budget) :
    (ready.foldl (fun g s => g.release s.cost) g).limit = g.limit ∧
      (ready.foldl (fun g s => g.release s.cost) g).peak = g.peak ∧
      (ready.foldl (fun g s => g.release s.cost) g).used.toNat =
        g.used.toNat - (ready.map fun s => s.cost.toNat).sum := by
  induction ready generalizing g with
  | nil => exact ⟨rfl, rfl, rfl⟩
  | cons s ready ih =>
    obtain ⟨limit, peak, used⟩ := ih (g.release s.cost)
    have once : (g.release s.cost).used.toNat = g.used.toNat - s.cost.toNat := Count.toNat_sub _ _
    refine ⟨limit, peak, ?_⟩
    rw [List.foldl_cons, used, once, List.map_cons, List.sum_cons]
    omega

theorem limit_settle (b : Books) (index : CheckpointIndex) :
    (b.settle index).budget.limit = b.budget.limit := by
  rw [settle, foldl_fold]
  exact (foldl_release _ _).1

theorem peak_settle (b : Books) (index : CheckpointIndex) :
    (b.settle index).budget.peak = b.budget.peak := by
  rw [settle, foldl_fold]
  exact (foldl_release _ _).2.1

theorem used_settle (b : Books) (index : CheckpointIndex) :
    (b.settle index).budget.used.toNat =
      b.budget.used.toNat - ((b.covered index).map fun s => s.cost.toNat).sum := by
  rw [settle, foldl_fold]
  exact (foldl_release _ _).2.2

end Books

namespace Ledger

theorem insert_outOfOrder {b : Books} {index last : CheckpointIndex} (s : Snapshot)
    (order : b.lastAdded.filter (index ≤ ·) = some last) :
    insert b index s = (.failed b.budget.clear, .error (.outOfOrder index last)) := by
  rw [insert, order]
  rfl

theorem insert_overBudget {b : Books} {index : CheckpointIndex} {s : Snapshot}
    (order : b.lastAdded.filter (index ≤ ·) = none) (room : ¬s.cost ≤ b.budget.remaining) :
    insert b index s =
      (.failed ({ b.budget with peak := max b.budget.peak s.cost } : Budget).clear,
        .error (.overBudget index s.cost b.budget.remaining b.budget.limit)) := by
  simp only [insert, order, Budget.reserve, if_neg room]
  rfl

theorem insert_accepted {b : Books} {index : CheckpointIndex} {s : Snapshot}
    (accepts : b.Accepts index s) : insert b index s = (.healthy (b.push index s), .ok ()) := by
  simp only [insert, accepts.order, Budget.reserve, if_pos accepts.room]
  rfl

theorem commitUpTo_pending {b : Books} {index : CheckpointIndex}
    (pending : (b.pending.find? index).isSome) :
    commitUpTo (.healthy b) index = (.healthy (b.settle index), .ok ()) := by
  rw [commitUpTo, if_pos pending]
  rfl

theorem commitUpTo_folded {b : Books} {index : CheckpointIndex}
    (pending : ¬(b.pending.find? index).isSome) (folded : b.committedThrough.any (index ≤ ·)) :
    commitUpTo (.healthy b) index = (.healthy b, .ok ()) := by
  rw [commitUpTo, if_neg pending, if_pos folded]

theorem commitUpTo_unknown {b : Books} {index : CheckpointIndex}
    (pending : ¬(b.pending.find? index).isSome) (folded : ¬b.committedThrough.any (index ≤ ·)) :
    commitUpTo (.healthy b) index =
      (.failed b.budget.clear, .error (.unknownCheckpoint index)) := by
  rw [commitUpTo, if_neg pending, if_neg folded]
  rfl

/-! ### Failing -/

def IsSettled : Ledger → Prop
  | healthy _ => True
  | failed budget => budget.used = 0

/-- A ledger that has failed, and of which nothing but its budget's limit and peak is left. -/
structure IsClosed (l : Ledger) : Prop where
  unhealthy : l.isHealthy = false
  pending : l.pending.toList = []
  used : l.budget.used = 0
  committed : l.committed? = none

theorem isSettled_ofLimit (limit : Count) : (ofLimit limit).IsSettled := trivial

private theorem isClosed_failed {budget : Budget} (used : budget.used = 0) :
    IsClosed (.failed budget) :=
  ⟨rfl, rfl, used, rfl⟩

private theorem insert_ends (b : Books) (index : CheckpointIndex) (s : Snapshot) :
    (b.Accepts index s ∧ insert b index s = (.healthy (b.push index s), .ok ())) ∨
      ∃ g result, insert b index s = (.failed (Budget.clear g), result) := by
  cases order : b.lastAdded.filter (index ≤ ·) with
  | some last => exact .inr ⟨_, _, insert_outOfOrder s order⟩
  | none =>
    by_cases room : s.cost ≤ b.budget.remaining
    · exact .inl ⟨⟨order, room⟩, insert_accepted ⟨order, room⟩⟩
    · exact .inr ⟨_, _, insert_overBudget order room⟩

private theorem commitUpTo_ends (b : Books) (index : CheckpointIndex) :
    (∃ d, b.Folds index d ∧ commitUpTo (.healthy b) index = (.healthy d, .ok ())) ∨
      ∃ g result, commitUpTo (.healthy b) index = (.failed (Budget.clear g), result) := by
  by_cases pending : (b.pending.find? index).isSome
  · exact .inl ⟨_, .settle pending, commitUpTo_pending pending⟩
  by_cases folded : b.committedThrough.any (index ≤ ·)
  · exact .inl ⟨_, .again pending folded, commitUpTo_folded pending folded⟩
  · exact .inr ⟨_, _, commitUpTo_unknown pending folded⟩

/-- A call on healthy books moves them and succeeds, or all claims are given back. -/
private theorem perform_healthy (b : Books) (c : Call) :
    (∃ d, b.Moves c d ∧ (healthy b).perform c = (.healthy d, .ok ())) ∨
      ∃ g result, (healthy b).perform c = (.failed (Budget.clear g), result) := by
  cases c with
  | record stream bytes => exact .inl ⟨_, .record stream bytes, rfl⟩
  | checkpoint index fingerprint =>
    let closed : Books := { b with current := [] }
    refine (insert_ends closed index ⟨b.current.nonzero, fingerprint⟩).imp_left ?_
    exact fun ⟨accepts, h⟩ => ⟨_, .checkpoint ⟨accepts.order, accepts.room⟩, h⟩
  | addState index deltas =>
    refine (insert_ends b index ⟨deltas, none⟩).imp_left ?_
    exact fun ⟨accepts, h⟩ => ⟨_, .addState accepts, h⟩
  | acknowledge index fingerprint =>
    exact (commitUpTo_ends b index).imp_left fun ⟨d, folds, h⟩ => ⟨d, .acknowledge folds, h⟩
  | commitUpTo index =>
    exact (commitUpTo_ends b index).imp_left fun ⟨d, folds, h⟩ => ⟨d, .commitUpTo folds, h⟩
  | markFailed => exact .inr ⟨b.budget, _, rfl⟩

theorem moves_of_healthy {b d : Books} {c : Call}
    (h : ((healthy b).perform c).1 = .healthy d) : b.Moves c d := by
  rcases perform_healthy b c with ⟨e, moves, ends⟩ | ⟨g, result, ends⟩
  · rw [ends] at h
    cases h
    exact moves
  · rw [ends] at h
    cases h

theorem perform_failed {budget : Budget} (used : budget.used = 0) (c : Call) :
    (failed budget).perform c = (failed budget, .ok ()) := by
  cases c with
  | markFailed =>
    have same : budget.clear = budget := by
      rw [Budget.clear, ← used]
    change (failed budget.clear, _) = _
    rw [same]
  | record stream bytes => rfl
  | checkpoint index fingerprint => rfl
  | addState index deltas => rfl
  | acknowledge index fingerprint => rfl
  | commitUpTo index => rfl

private theorem isSettled_perform {l : Ledger} (settled : l.IsSettled) (c : Call) :
    (l.perform c).1.IsSettled := by
  cases l with
  | healthy b =>
    rcases perform_healthy b c with ⟨d, -, h⟩ | ⟨g, result, h⟩
    · rw [h]
      trivial
    · rw [h]
      rfl
  | failed budget =>
    rw [perform_failed settled]
    exact settled

theorem isSettled_performAll {l : Ledger} (settled : l.IsSettled) (calls : List Call) :
    (l.performAll calls).IsSettled := by
  induction calls generalizing l with
  | nil => exact settled
  | cons c calls ih => exact ih (isSettled_perform settled c)

theorem performAll_failed {budget : Budget} (used : budget.used = 0) (calls : List Call) :
    (failed budget).performAll calls = failed budget := by
  induction calls with
  | nil => rfl
  | cons c calls ih =>
    rw [performAll, List.foldl_cons, perform_failed used]
    exact ih

theorem isClosed_of_error {l : Ledger} (settled : l.IsSettled) {c : Call} {fault : Fault}
    (h : (l.perform c).2 = .error fault) : (l.perform c).1.IsClosed := by
  cases l with
  | healthy b =>
    rcases perform_healthy b c with ⟨d, -, ends⟩ | ⟨g, result, ends⟩
    · rw [ends] at h
      cases h
    · rw [ends]
      exact isClosed_failed rfl
  | failed budget =>
    rw [perform_failed settled] at h
    cases h

theorem isClosed_of_unhealthy {l : Ledger} (settled : l.IsSettled)
    (unhealthy : l.isHealthy = false) : l.IsClosed := by
  cases l with
  | healthy b => cases unhealthy
  | failed budget => exact isClosed_failed settled

end Ledger

end SyncAccounting
