import Mathlib.Data.List.Forall2
import SyncAccounting.Proofs.Ledger.Balance

/-!
Ledgers that differ in nothing but fingerprints. A fingerprint is held beside the tallies of its
snapshot and is compared with that of an acknowledgement, but nothing is counted, claimed or refused
by it, so two such ledgers stay alike and answer alike.
-/

set_option autoImplicit false

namespace SyncAccounting

def Snapshot.entry (e : CheckpointIndex × Snapshot) : CheckpointIndex × List (Nat × Tally) :=
  (e.1, e.2.deltas)

namespace Backlog

private theorem map_place {ν μ : Type} (f : ν → μ) (l : List (CheckpointIndex × ν))
    (index : CheckpointIndex) (v : ν) :
    (place l index v).map (Prod.map id f) = place (l.map (Prod.map id f)) index (f v) := by
  rw [place, place, List.map_append, List.map_cons, List.filter_map, List.filter_map]
  rfl

end Backlog

namespace Books

/-- Books that differ at most in the fingerprints of their snapshots. -/
structure Alike (b d : Books) : Prop where
  budget : b.budget = d.budget
  current : b.current = d.current
  pending : b.pending.toList.map Snapshot.entry = d.pending.toList.map Snapshot.entry
  committed : b.committed = d.committed
  lastAdded : b.lastAdded = d.lastAdded
  committedThrough : b.committedThrough = d.committedThrough

variable {b d : Books}

namespace Alike

private theorem isSome_find?_eq (alike : b.Alike d) (index : CheckpointIndex) :
    (b.pending.find? index).isSome = (d.pending.find? index).isSome := by
  have keys : b.pending.toList.map Prod.fst = d.pending.toList.map Prod.fst := by
    have same := congrArg (List.map Prod.fst) alike.pending
    rw [List.map_map, List.map_map] at same
    exact same
  rw [Bool.eq_iff_iff, Backlog.isSome_find?_iff, Backlog.isSome_find?_iff, keys]

private theorem covered_eq (alike : b.Alike d) (index : CheckpointIndex) :
    (b.covered index).map Snapshot.deltas = (d.covered index).map Snapshot.deltas := by
  have through (e : Books) : (e.covered index).map Snapshot.deltas =
      ((e.pending.toList.map Snapshot.entry).filter (·.1 < index.succ)).map Prod.snd := by
    rw [covered, Backlog.takeBelow_eq, List.map_map, List.filter_map, List.map_map]
    rfl
  rw [through, through, alike.pending]

private theorem foldl_fold (alike : b.Alike d) {ready waiting : List Snapshot}
    (same : ready.map Snapshot.deltas = waiting.map Snapshot.deltas) :
    (ready.foldl Ledger.fold b).Alike (waiting.foldl Ledger.fold d) := by
  induction ready generalizing b d waiting with
  | nil =>
    rw [List.map_nil, eq_comm, List.map_eq_nil_iff] at same
    rw [same]
    exact alike
  | cons s ready ih =>
    cases waiting with
    | nil => cases same
    | cons t waiting =>
      obtain ⟨deltas, rest⟩ := List.cons_eq_cons.1 same
      have cost : s.cost = t.cost := by rw [Snapshot.cost, deltas, Snapshot.cost]
      have next : (Ledger.fold b s).Alike (Ledger.fold d t) := by
        refine ⟨?_, alike.current, alike.pending, ?_, alike.lastAdded, alike.committedThrough⟩
        · rw [Ledger.fold, Ledger.fold, alike.budget, cost]
        · rw [Ledger.fold, Ledger.fold, alike.committed, deltas]
      exact ih next rest

private theorem settle (alike : b.Alike d) (index : CheckpointIndex) :
    (b.settle index).Alike (d.settle index) := by
  have folded := alike.foldl_fold (alike.covered_eq index)
  refine ⟨folded.budget, folded.current, ?_, folded.committed, folded.lastAdded, rfl⟩
  have left (e : Books) : (e.settle index).pending.toList.map Snapshot.entry =
      (e.pending.toList.map Snapshot.entry).filter fun e => ¬e.1 < index.succ := by
    rw [Books.settle, Backlog.toList_dropBelow, List.filter_map]
    rfl
  rw [left, left, alike.pending]

private theorem push (alike : b.Alike d) (index : CheckpointIndex) {s t : Snapshot}
    (same : s.deltas = t.deltas) : (b.push index s).Alike (d.push index t) := by
  have cost : s.cost = t.cost := by rw [Snapshot.cost, same, Snapshot.cost]
  refine ⟨?_, alike.current, ?_, alike.committed, rfl, alike.committedThrough⟩
  · rw [Books.push, Books.push, alike.budget, cost]
  · have longer (e : Books) (u : Snapshot) : (e.push index u).pending.toList.map Snapshot.entry =
        Backlog.place (e.pending.toList.map Snapshot.entry) index u.deltas := by
      rw [Books.push, Backlog.toList_insert]
      exact Backlog.map_place Snapshot.deltas e.pending.toList index u
    rw [longer, longer, alike.pending, same]

private theorem close (alike : b.Alike d) :
    ({ b with current := [] } : Books).Alike { d with current := [] } :=
  ⟨alike.budget, rfl, alike.pending, alike.committed, alike.lastAdded, alike.committedThrough⟩

end Alike

end Books

namespace Ledger

/-- Ledgers that differ at most in the fingerprints of their snapshots. -/
inductive Alike : Ledger → Ledger → Prop
  | healthy {b d : Books} (books : b.Alike d) : Alike (.healthy b) (.healthy d)
  | failed (budget : Budget) : Alike (.failed budget) (.failed budget)

inductive Call.Alike : Call → Call → Prop
  | record (stream : Nat) (bytes : Count) : Alike (.record stream bytes) (.record stream bytes)
  | checkpoint (index : CheckpointIndex) (one other : Option Fingerprint) :
      Alike (.checkpoint index one) (.checkpoint index other)
  | acknowledge (index : CheckpointIndex) (one other : Fingerprint) :
      Alike (.acknowledge index one) (.acknowledge index other)
  | markFailed : Alike .markFailed .markFailed

variable {b d : Books} {l m : Ledger}

theorem Alike.isHealthy_eq (alike : l.Alike m) : l.isHealthy = m.isHealthy := by
  cases alike <;> rfl

theorem Alike.budget_eq (alike : l.Alike m) : l.budget = m.budget := by
  cases alike with
  | healthy books => exact books.budget
  | failed budget => rfl

theorem Alike.committed?_eq (alike : l.Alike m) : l.committed? = m.committed? := by
  cases alike with
  | healthy books => exact congrArg some books.committed
  | failed budget => rfl

private theorem alike_insert (alike : b.Alike d) (index : CheckpointIndex) {s t : Snapshot}
    (same : s.deltas = t.deltas) : (insert b index s).1.Alike (insert d index t).1 := by
  have cost : s.cost = t.cost := by rw [Snapshot.cost, same, Snapshot.cost]
  have last := alike.lastAdded
  have budget := alike.budget
  cases order : d.lastAdded.filter (index ≤ ·) with
  | some last =>
    rw [insert_outOfOrder t order, insert_outOfOrder s (by rw [alike.lastAdded, order]), budget]
    exact .failed _
  | none =>
    have first : b.lastAdded.filter (index ≤ ·) = .none := by rw [last, order]
    by_cases room : t.cost ≤ d.budget.remaining
    · have fits : s.cost ≤ b.budget.remaining := by rw [cost, budget]; exact room
      rw [insert_accepted ⟨order, room⟩, insert_accepted ⟨first, fits⟩]
      exact .healthy (alike.push index same)
    · have tight : ¬s.cost ≤ b.budget.remaining := by rw [cost, budget]; exact room
      rw [insert_overBudget order room, insert_overBudget first tight, budget, cost]
      exact .failed _

private theorem alike_commitUpTo (alike : b.Alike d) (index : CheckpointIndex) :
    ((healthy b).commitUpTo index).1.Alike ((healthy d).commitUpTo index).1 := by
  have found := alike.isSome_find?_eq index
  have through := alike.committedThrough
  by_cases pending : (d.pending.find? index).isSome
  · rw [commitUpTo_pending pending, commitUpTo_pending (by rw [found, pending])]
    exact .healthy (alike.settle index)
  by_cases folded : d.committedThrough.any (index ≤ ·)
  · rw [commitUpTo_folded pending folded,
      commitUpTo_folded (by rw [found]; exact pending) (by rw [through, folded])]
    exact .healthy alike
  · rw [commitUpTo_unknown pending folded,
      commitUpTo_unknown (by rw [found]; exact pending) (by rw [through]; exact folded),
      alike.budget]
    exact .failed _

private theorem alike_perform (alike : l.Alike m) {c e : Call} (calls : c.Alike e) :
    (l.perform c).1.Alike (m.perform e).1 := by
  cases alike with
  | failed budget => cases calls <;> exact .failed _
  | @healthy b d books =>
    cases calls with
    | record stream bytes =>
      have row : b.current.addAt stream (.single bytes) =
          d.current.addAt stream (.single bytes) := by
        rw [books.current]
      exact .healthy ⟨books.budget, row, books.pending, books.committed, books.lastAdded,
        books.committedThrough⟩
    | checkpoint index one other =>
      have deltas : b.current.nonzero = d.current.nonzero := by rw [books.current]
      exact alike_insert books.close index deltas
    | acknowledge index one other => exact alike_commitUpTo books index
    | markFailed =>
      have cleared : (Ledger.healthy b).fail = (Ledger.healthy d).fail := by
        rw [fail, fail, budget, budget, books.budget]
      change (Ledger.healthy b).fail.Alike (Ledger.healthy d).fail
      rw [cleared]
      exact .failed _

theorem alike_performAll (alike : l.Alike m) {calls others : List Call}
    (same : List.Forall₂ Call.Alike calls others) :
    (l.performAll calls).Alike (m.performAll others) := by
  induction same generalizing l m with
  | nil => exact alike
  | cons one rest ih => exact ih (alike_perform alike one)

end Ledger

end SyncAccounting
