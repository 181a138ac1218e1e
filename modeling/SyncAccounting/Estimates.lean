import SyncAccounting.Fault
import SyncAccounting.Message
import SyncAccounting.SortedList

/-!
What the source expects to send. Its first estimate decides whether all estimates are for single
streams or for the whole sync; an estimate of the other sort is refused.
-/

set_option autoImplicit false

namespace SyncAccounting

inductive Estimates where
  | unset
  /-- The last estimate of each stream, by ascending stream. -/
  | perStream (streams : List (StreamKey × Estimate))
  | sync (estimate : Estimate)
  deriving DecidableEq

namespace Estimates

def apply (known : Estimates) : EstimateMessage → Except Fault Estimates
  | .stream stream estimate =>
    match known with
    | unset => .ok (perStream [(stream, estimate)])
    | perStream streams => .ok (perStream (SortedList.insert stream estimate streams))
    | sync _ => .error (.streamAfterSync stream)
  | .sync estimate =>
    match known with
    | unset | sync _ => .ok (sync estimate)
    | perStream _ => .error .syncAfterStream

/-- The estimate for the whole sync, or the sum of those for its streams. -/
def total : Estimates → Estimate
  | unset => ⟨0, 0⟩
  | sync estimate => estimate
  | perStream streams =>
    ⟨Count.sum (streams.map (·.2.bytes)), Count.sum (streams.map (·.2.records))⟩

def streams : Estimates → List (StreamKey × Estimate)
  | perStream streams => streams
  | unset | sync _ => []

def stream? (known : Estimates) (key : StreamKey) : Option Estimate :=
  SortedList.find? key known.streams

end Estimates

end SyncAccounting
