import SyncAccounting.Count

/-!
Tallies of records and bytes, and rows of tallies, one for each stream. A row is as long as it has
to be; a stream past its end has a zero tally.
-/

set_option autoImplicit false

namespace SyncAccounting

structure Tally where
  records : Count
  bytes : Count
  deriving DecidableEq, Inhabited

namespace Tally

def zero : Tally := ⟨0, 0⟩

def single (bytes : Count) : Tally := ⟨1, bytes⟩

def add (s t : Tally) : Tally := ⟨s.records + t.records, s.bytes + t.bytes⟩

instance : Add Tally := ⟨add⟩

def isZero (t : Tally) : Bool := t = zero

def addRecord (t : Tally) (bytes : Count) : Tally := t + single bytes

end Tally

/-- A tally for each stream, by the position of the stream. -/
abbrev TallyRow := List Tally

namespace TallyRow

def tally (row : TallyRow) (stream : Nat) : Tally := row.getD stream Tally.zero

/-- Adds to the tally of one stream, and makes the row longer where it ends before that stream. -/
def addAt : TallyRow → Nat → Tally → TallyRow
  | [], 0, t => [Tally.zero + t]
  | [], n + 1, t => Tally.zero :: addAt [] n t
  | s :: row, 0, t => (s + t) :: row
  | s :: row, n + 1, t => s :: addAt row n t

def addAll (row : TallyRow) (deltas : List (Nat × Tally)) : TallyRow :=
  deltas.foldl (fun row d => row.addAt d.1 d.2) row

/-- The streams whose tally is not zero, in the order of their positions. -/
def nonzero (row : TallyRow) : List (Nat × Tally) :=
  (row.zipIdx.filter fun p => !p.1.isZero).map fun p => (p.2, p.1)

theorem tally_addAt (row : TallyRow) (n m : Nat) (t : Tally) :
    (row.addAt n t).tally m = if m = n then row.tally m + t else row.tally m := by
  induction row generalizing n m with
  | nil =>
    induction n generalizing m with
    | zero => cases m <;> simp [addAt, tally]
    | succ n ih => cases m <;> simp_all [addAt, tally]
  | cons s row ih => cases n <;> cases m <;> simp_all [addAt, tally]

end TallyRow

end SyncAccounting
