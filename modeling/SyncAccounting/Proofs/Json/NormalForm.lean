import Mathlib.Data.String.Basic
import SyncAccounting.Json.ReadError
import SyncAccounting.Proofs.SortedList

/-!
How deeply a value is nested, and what becomes of a value that is kept as a tree: a value in normal
form comes back as it was, whatever comes back is in normal form, and it is nested no deeper than
the tree was allowed to be.
-/

set_option autoImplicit false

namespace SyncAccounting.Json

namespace Value

mutual

def depth : Value → Nat
  | array items => itemDepth items + 1
  | object members => memberDepth members + 1
  | _ => 0

def itemDepth : List Value → Nat
  | [] => 0
  | v :: rest => max (depth v) (itemDepth rest)

def memberDepth : List (String × Value) → Nat
  | [] => 0
  | (_, v) :: rest => max (depth v) (memberDepth rest)

end

theorem itemDepth_le_iff {items : List Value} {n : Nat} :
    itemDepth items ≤ n ↔ ∀ v ∈ items, v.depth ≤ n := by
  induction items with
  | nil => simp [itemDepth]
  | cons v rest ih => rw [itemDepth, Nat.max_le, ih, List.forall_mem_cons]

theorem memberDepth_le_iff {members : List (String × Value)} {n : Nat} :
    memberDepth members ≤ n ↔ ∀ p ∈ members, p.2.depth ≤ n := by
  induction members with
  | nil => simp [memberDepth]
  | cons p rest ih => rw [memberDepth, Nat.max_le, ih, List.forall_mem_cons]

private theorem allNormal_iff {items : List Value} : AllNormal items ↔ ∀ v ∈ items, v.IsNormal := by
  induction items with
  | nil => simp [AllNormal]
  | cons v rest ih => rw [AllNormal, ih, List.forall_mem_cons]

private theorem membersNormal_iff {members : List (String × Value)} :
    MembersNormal members ↔ ∀ p ∈ members, p.2.IsNormal := by
  induction members with
  | nil => simp [MembersNormal]
  | cons p rest ih => rw [MembersNormal, ih, List.forall_mem_cons]

theorem isNormal_object {members : List (String × Value)} :
    (object members).IsNormal ↔
      (members.map Prod.fst).Pairwise (· < ·) ∧ ∀ p ∈ members, p.2.IsNormal := by
  rw [IsNormal, membersNormal_iff, List.pairwise_map]

end Value

namespace Tree

/-! ### Trees of values -/

mutual

theorem isSound_ofValue (v : Value) (levels : Nat) :
    (ofValue v).isSound levels = true ↔ v.depth ≤ levels := by
  match v with
  | .null | .bool _ | .number _ | .string _ => simp [ofValue, isSound, Value.depth]
  | .array items =>
    have inside := allSound_ofValues items (levels - 1)
    simp only [ofValue, isSound, Value.depth, Bool.and_true, Bool.and_eq_true, decide_eq_true_eq,
      inside]
    omega
  | .object members =>
    have inside := membersSound_ofMembers members (levels - 1)
    simp only [ofValue, isSound, Value.depth, Bool.and_true, Bool.and_eq_true, decide_eq_true_eq,
      inside]
    omega

private theorem allSound_ofValues (items : List Value) (levels : Nat) :
    allSound levels (ofValues items) = true ↔ Value.itemDepth items ≤ levels := by
  match items with
  | [] => simp [ofValues, allSound, Value.itemDepth]
  | v :: rest =>
    rw [ofValues, allSound, Bool.and_eq_true, isSound_ofValue v levels,
      allSound_ofValues rest levels, Value.itemDepth, Nat.max_le]

private theorem membersSound_ofMembers (members : List (String × Value)) (levels : Nat) :
    membersSound levels (ofMembers members) = true ↔ Value.memberDepth members ≤ levels := by
  match members with
  | [] => simp [ofMembers, membersSound, Value.memberDepth]
  | (key, v) :: rest =>
    rw [ofMembers, membersSound, Option.isSome_some, Bool.true_and, Bool.and_eq_true,
      isSound_ofValue v levels, membersSound_ofMembers rest levels, Value.memberDepth, Nat.max_le]

end

mutual

/-- A value in normal form is the value of its tree. -/
theorem toValue_ofValue {v : Value} (normal : v.IsNormal) : (ofValue v).toValue = v := by
  match v with
  | .null | .bool _ | .number _ | .string _ => rfl
  | .array items => rw [ofValue, toValue, toValues_ofValues normal]
  | .object members =>
    have sorted := (Value.isNormal_object.1 normal).1
    rw [ofValue, toValue, toMembers_ofMembers normal.2, SortedList.ofList_of_ascending sorted]

private theorem toValues_ofValues {items : List Value} (normal : Value.AllNormal items) :
    toValues (ofValues items) = items := by
  match items with
  | [] => rfl
  | v :: rest =>
    rw [ofValues, toValues, toValue_ofValue normal.1, toValues_ofValues normal.2]

private theorem toMembers_ofMembers {members : List (String × Value)}
    (normal : Value.MembersNormal members) : toMembers (ofMembers members) = members := by
  match members with
  | [] => rfl
  | (key, v) :: rest =>
    rw [ofMembers, toMembers, toValue_ofValue normal.1, toMembers_ofMembers normal.2,
      Option.getD_some]

end

/-! ### Values of trees -/

mutual

theorem isNormal_toValue (t : Tree) : t.toValue.IsNormal := by
  match t with
  | broken | null | bool _ | number _ | string _ => trivial
  | array items _ => exact Value.allNormal_iff.2 (isNormal_toValues items)
  | object members _ =>
    refine Value.isNormal_object.2 ⟨SortedList.ascending_ofList _, fun p hp => ?_⟩
    exact isNormal_toMembers members p (SortedList.mem_of_mem_ofList hp)

private theorem isNormal_toValues (items : List Tree) : ∀ v ∈ toValues items, v.IsNormal := by
  match items with
  | [] => simp [toValues]
  | t :: rest =>
    exact List.forall_mem_cons.2 ⟨isNormal_toValue t, isNormal_toValues rest⟩

private theorem isNormal_toMembers (members : List (Option String × Tree)) :
    ∀ p ∈ toMembers members, p.2.IsNormal := by
  match members with
  | [] => simp [toMembers]
  | (_, t) :: rest =>
    exact List.forall_mem_cons.2 ⟨isNormal_toValue t, isNormal_toMembers rest⟩

end

mutual

theorem depth_toValue_le {levels : Nat} {t : Tree} (sound : t.isSound levels = true) :
    t.toValue.depth ≤ levels := by
  match t with
  | broken | null | bool _ | number _ | string _ => exact Nat.zero_le _
  | array items closed =>
    simp only [isSound, Bool.and_eq_true, decide_eq_true_eq] at sound
    have inside := Value.itemDepth_le_iff.2 (depth_toValues_le sound.1.2)
    rw [toValue, Value.depth]
    omega
  | object members closed =>
    simp only [isSound, Bool.and_eq_true, decide_eq_true_eq] at sound
    have inside : Value.memberDepth (SortedList.ofList (toMembers members)) ≤ levels - 1 :=
      Value.memberDepth_le_iff.2 fun p hp =>
        depth_toMembers_le sound.1.2 p (SortedList.mem_of_mem_ofList hp)
    rw [toValue, Value.depth]
    omega

private theorem depth_toValues_le {levels : Nat} {items : List Tree}
    (sound : allSound levels items = true) : ∀ v ∈ toValues items, v.depth ≤ levels := by
  match items with
  | [] => simp [toValues]
  | t :: rest =>
    rw [allSound, Bool.and_eq_true] at sound
    exact List.forall_mem_cons.2 ⟨depth_toValue_le sound.1, depth_toValues_le sound.2⟩

private theorem depth_toMembers_le {levels : Nat} {members : List (Option String × Tree)}
    (sound : membersSound levels members = true) :
    ∀ p ∈ toMembers members, p.2.depth ≤ levels := by
  match members with
  | [] => simp [toMembers]
  | (_, t) :: rest =>
    rw [membersSound, Bool.and_eq_true, Bool.and_eq_true] at sound
    exact List.forall_mem_cons.2 ⟨depth_toValue_le sound.1.2, depth_toMembers_le sound.2⟩

end

end Tree

end SyncAccounting.Json
