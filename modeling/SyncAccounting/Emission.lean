import SyncAccounting.Tally

/-!
What the source has sent, of each stream and in all.
-/

set_option autoImplicit false

namespace SyncAccounting

structure Emission where
  perStream : TallyRow
  total : Tally
  deriving DecidableEq

namespace Emission

def empty : Emission := ⟨[], .zero⟩

def record (e : Emission) (stream : Nat) (bytes : Count) : Emission where
  perStream := e.perStream.addAt stream (.single bytes)
  total := e.total.addRecord bytes

def stream (e : Emission) (position : Nat) : Tally := e.perStream.tally position

end Emission

end SyncAccounting
