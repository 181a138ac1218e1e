import SyncAccounting.Fault

/-!
The memory that snapshots of unacknowledged checkpoints may take. A claim is granted where it fits
in what is left of the limit; the largest claim ever made is kept, whether granted or not.
-/

set_option autoImplicit false

namespace SyncAccounting

/-- A limit, what is claimed of it, and the largest claim made. -/
structure Budget where
  limit : Count
  used : Count
  peak : Count
  deriving DecidableEq

namespace Budget

def defaultLimit : Count := 10485760

def ofLimit (limit : Count) : Budget := ⟨limit, 0, 0⟩

def remaining (b : Budget) : Count := b.limit - b.used

def reserve (b : Budget) (index : CheckpointIndex) (bytes : Count) : Budget × Except Fault Unit :=
  let raised := { b with peak := max b.peak bytes }
  if bytes ≤ b.remaining then ({ raised with used := b.used + bytes }, .ok ())
  else (raised, .error (.overBudget index bytes b.remaining b.limit))

def release (b : Budget) (bytes : Count) : Budget := { b with used := b.used - bytes }

/-- Gives back all claims; the peak stays. -/
def clear (b : Budget) : Budget := { b with used := 0 }

end Budget

/-- What a snapshot takes: a header of 40 bytes, and 24 bytes for each stream in it. -/
def snapshotCost (entries : Nat) : Count := 40 + Count.ofNat entries * 24

end SyncAccounting
