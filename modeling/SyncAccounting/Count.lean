/-!
Counters of records, bytes and checkpoints. A count never wraps: past the largest 64-bit number it
stays there, and below zero it stays at zero. Its view is `toNat`, and each operation has one
equation through it.
-/

set_option autoImplicit false

namespace SyncAccounting

/-- A natural number that fits 64 bits. -/
structure Count where
  toNat : Nat
  toNat_lt : toNat < 0x1_0000_0000_0000_0000 := by omega
  deriving DecidableEq

namespace Count

/-- The largest count, where sums stay. -/
def limit : Nat := 0xFFFF_FFFF_FFFF_FFFF

def ofNat (n : Nat) : Count :=
  ⟨min n limit, by unfold limit; omega⟩

def ofNat? (n : Nat) : Option Count :=
  if h : n < 0x1_0000_0000_0000_0000 then some ⟨n, h⟩ else none

instance (n : Nat) : OfNat Count n := ⟨ofNat n⟩
instance : Inhabited Count := ⟨0⟩

def add (a b : Count) : Count := ofNat (a.toNat + b.toNat)

def sub (a b : Count) : Count := ofNat (a.toNat - b.toNat)

def mul (a b : Count) : Count := ofNat (a.toNat * b.toNat)

instance : Add Count := ⟨add⟩
instance : Sub Count := ⟨sub⟩
instance : Mul Count := ⟨mul⟩
instance : LT Count := ⟨fun a b => a.toNat < b.toNat⟩
instance : LE Count := ⟨fun a b => a.toNat ≤ b.toNat⟩
instance (a b : Count) : Decidable (a < b) := Nat.decLt a.toNat b.toNat
instance (a b : Count) : Decidable (a ≤ b) := Nat.decLe a.toNat b.toNat
instance : Max Count := ⟨fun a b => if a ≤ b then b else a⟩

def succ (a : Count) : Count := a + 1

def sum (xs : List Count) : Count := xs.foldl add 0

def text (a : Count) : String := a.toNat.repr

instance : ToString Count := ⟨text⟩

@[ext] theorem ext {a b : Count} (h : a.toNat = b.toNat) : a = b := by
  cases a; cases b; cases h; rfl

theorem lt_trans {a b c : Count} (hab : a < b) (hbc : b < c) : a < c := Nat.lt_trans hab hbc

theorem lt_asymm {a b : Count} (h : a < b) : ¬b < a := Nat.lt_asymm h

theorem toNat_ofNat (n : Nat) : (ofNat n).toNat = min n limit := rfl

theorem toNat_add (a b : Count) : (a + b).toNat = min (a.toNat + b.toNat) limit := rfl

theorem toNat_sub (a b : Count) : (a - b).toNat = a.toNat - b.toNat := by
  have := a.toNat_lt
  show min (a.toNat - b.toNat) limit = _
  unfold limit
  omega

theorem toNat_succ (a : Count) : a.succ.toNat = min (a.toNat + 1) limit := rfl

end Count

/-- Checkpoints of a sync are numbered from zero, in the order in which the source emits them. -/
abbrev CheckpointIndex := Count

end SyncAccounting
