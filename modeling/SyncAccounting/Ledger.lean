import SyncAccounting.Backlog
import SyncAccounting.Budget
import SyncAccounting.Event
import SyncAccounting.Fingerprint
import SyncAccounting.Tally

/-!
The ledger of what is committed. Records go into a row that is open until the next checkpoint; the
checkpoint closes it as a snapshot, and an acknowledgement folds the snapshots up to its checkpoint
into the committed row. Once anything does not add up the ledger fails for good: it forgets all
tallies, and from then on nothing is known.
-/

set_option autoImplicit false

namespace SyncAccounting

/-- The tallies between two checkpoints, and the fingerprint of the later one. -/
structure Snapshot where
  deltas : List (Nat × Tally)
  fingerprint : Option Fingerprint
  deriving DecidableEq

def Snapshot.cost (s : Snapshot) : Count := snapshotCost s.deltas.length

structure Books where
  budget : Budget
  /-- What came since the last checkpoint. -/
  current : TallyRow
  /-- What was closed and is not acknowledged. -/
  pending : Backlog Snapshot
  committed : TallyRow
  lastAdded : Option CheckpointIndex
  committedThrough : Option CheckpointIndex
  deriving DecidableEq

inductive Ledger where
  | healthy (books : Books)
  | failed (budget : Budget)
  deriving DecidableEq

namespace Ledger

def ofLimit (limit : Count) : Ledger := .healthy ⟨.ofLimit limit, [], .empty, [], none, none⟩

def isHealthy : Ledger → Bool
  | healthy _ => true
  | failed _ => false

def budget : Ledger → Budget
  | healthy books => books.budget
  | failed budget => budget

def committed? : Ledger → Option TallyRow
  | healthy books => some books.committed
  | failed _ => none

def pending : Ledger → Backlog Snapshot
  | healthy books => books.pending
  | failed _ => .empty

def fail (l : Ledger) : Ledger := .failed l.budget.clear

abbrev Outcome := Ledger × Except Fault Unit

/-- A call that breaks the ledger. -/
def reject (l : Ledger) (fault : Fault) : Outcome := (l.fail, .error fault)

def record (l : Ledger) (stream : Nat) (bytes : Count) : Ledger :=
  match l with
  | healthy books =>
    .healthy { books with current := books.current.addAt stream (.single bytes) }
  | failed budget => .failed budget

/-- Takes a snapshot in: its index is above the last one, and the budget has room for it. -/
def insert (books : Books) (index : CheckpointIndex) (s : Snapshot) : Outcome :=
  match books.lastAdded.filter (index ≤ ·) with
  | some last => (healthy books).reject (.outOfOrder index last)
  | none =>
    let (budget, granted) := books.budget.reserve index s.cost
    let books := { books with budget := budget }
    match granted with
    | .error fault => (healthy books).reject fault
    | .ok () =>
      (.healthy { books with pending := books.pending.insert index s, lastAdded := some index },
        .ok ())

def checkpoint (l : Ledger) (index : CheckpointIndex) (fingerprint : Option Fingerprint) :
    Outcome :=
  match l with
  | healthy books => insert { books with current := [] } index ⟨books.current.nonzero, fingerprint⟩
  | failed budget => (.failed budget, .ok ())

def addState (l : Ledger) (index : CheckpointIndex) (deltas : List (Nat × Tally)) : Outcome :=
  match l with
  | healthy books => insert books index ⟨deltas, none⟩
  | failed budget => (.failed budget, .ok ())

/-- Folds one snapshot into the committed row and gives back what it took. -/
def fold (books : Books) (s : Snapshot) : Books :=
  { books with
    committed := books.committed.addAll s.deltas
    budget := books.budget.release s.cost }

/-- Folds the snapshots up to a checkpoint, the oldest one first: those below the next index. A
checkpoint that is not pending must have been folded before. -/
def commitUpTo (l : Ledger) (index : CheckpointIndex) : Outcome :=
  match l with
  | failed budget => (.failed budget, .ok ())
  | healthy books =>
    if (books.pending.find? index).isSome then
      let ready := (books.pending.takeBelow index.succ).map Prod.snd
      (.healthy
        { ready.foldl fold books with
          pending := books.pending.dropBelow index.succ
          committedThrough := some index }, .ok ())
    else if books.committedThrough.any (index ≤ ·) then (.healthy books, .ok ())
    else (healthy books).reject (.unknownCheckpoint index)

def expectedFingerprint? (l : Ledger) (index : CheckpointIndex) : Option Fingerprint :=
  (l.pending.find? index).bind (·.fingerprint)

def mismatch (l : Ledger) (index : CheckpointIndex) (fingerprint : Fingerprint) : List Event :=
  if (l.expectedFingerprint? index).any (· ≠ fingerprint) then [.payloadMismatch index] else []

/-- Folds up to an acknowledged checkpoint. That its data differ from those of the source is logged
and changes nothing else. -/
def acknowledge (l : Ledger) (index : CheckpointIndex) (fingerprint : Fingerprint) :
    Outcome × List Event :=
  (l.commitUpTo index, l.mismatch index fingerprint)

end Ledger

end SyncAccounting
