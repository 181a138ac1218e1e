import SyncAccounting.Binary64.Shortest
import SyncAccounting.Count
import SyncAccounting.SortedList

/-!
Values of the data format that messages are written in. Numbers written without a point keep
64-bit integers apart from floating-point numbers. Members of an object have an order; a value
whose objects are sorted by key, each key once, is in normal form.
-/

set_option autoImplicit false

namespace SyncAccounting.Json

/-- A whole number of 64 bits, with or without a sign, or a floating-point number. -/
inductive Number where
  | natural (n : Count)
  | negative (n : Int) (range : -0x8000_0000_0000_0000 ≤ n ∧ n < 0)
  | real (x : Binary64)
  deriving DecidableEq

namespace Number

def ofInt (n : Int) : Number :=
  if h : 0 ≤ n ∧ n < 0x1_0000_0000_0000_0000 then .natural ⟨n.toNat, by omega⟩
  else if h : -0x8000_0000_0000_0000 ≤ n ∧ n < 0 then .negative n h
  else .real (.ofInt n)

def toBinary64 : Number → Binary64
  | natural n => .ofInt n.toNat
  | negative n _ => .ofInt n
  | real x => x

end Number

inductive Value where
  | null
  | bool (b : Bool)
  | number (n : Number)
  | string (s : String)
  | array (items : List Value)
  | object (members : List (String × Value))

instance : Inhabited Value := ⟨.null⟩

namespace Value

def count (n : Count) : Value := .number (.natural n)

def member? : Value → String → Option Value
  | object members, key => SortedList.find? key members
  | _, _ => none

mutual

/-- Every object lists its members by ascending key. -/
def IsNormal : Value → Prop
  | array items => AllNormal items
  | object members => members.Pairwise (fun p q => p.1 < q.1) ∧ MembersNormal members
  | _ => True

def AllNormal : List Value → Prop
  | [] => True
  | v :: rest => IsNormal v ∧ AllNormal rest

def MembersNormal : List (String × Value) → Prop
  | [] => True
  | (_, v) :: rest => IsNormal v ∧ MembersNormal rest

end

end Value

end SyncAccounting.Json
