import SyncAccounting.SortedList
import SyncAccounting.StreamKey

/-!
The streams of a sync, numbered in the order in which they were first seen. A registry keeps a list
that leads from positions to streams, and beside it a map that leads back.
-/

set_option autoImplicit false

namespace SyncAccounting

/-- The streams seen so far, the first one first, and the position each was entered under. -/
structure Registry where
  keys : List StreamKey
  positions : List (StreamKey × Nat)
  deriving DecidableEq, Inhabited

namespace Registry

def empty : Registry := ⟨[], []⟩

def size (r : Registry) : Nat := r.keys.length

def position? (r : Registry) (key : StreamKey) : Option Nat := SortedList.find? key r.positions

def key? (r : Registry) (position : Nat) : Option StreamKey := r.keys[position]?

def isKnown (r : Registry) (key : StreamKey) : Bool := (r.position? key).isSome

/-- A registry that has the stream. A new one goes to the end of the list and into the map. -/
def observe (r : Registry) (key : StreamKey) : Registry :=
  if r.isKnown key then r
  else ⟨r.keys ++ [key], SortedList.insert key r.size r.positions⟩

/-- The position of a stream that may be new: the end of the list is where a new one goes. -/
def positionOf (r : Registry) (key : StreamKey) : Nat :=
  (r.position? key).getD r.size

def toList (r : Registry) : List (Nat × StreamKey) :=
  r.keys.zipIdx.map fun p => (p.2, p.1)

end Registry

end SyncAccounting
