import Mathlib.Data.List.Nodup
import SyncAccounting.Json.Codec
import SyncAccounting.Proofs.Json.Compact
import SyncAccounting.Proofs.Json.NormalForm

/-!
What is written is read back. A codec keeps a value if it reads what it writes for it as the same
value, wherever there is room for that. The codecs of words, numbers and names keep all values;
those of optional values and lists keep what their parts keep, and free data are kept in normal
form.
-/

set_option autoImplicit false

namespace SyncAccounting.Json

/-! ### Room for a value -/

namespace Medium

/-- Whether so many levels of arrays and objects can be read here: inside others, a text holds only
so many more. -/
def Fits (m : Medium) (levels : Nat) : Prop :=
  match m with
  | text depth => depth + levels ≤ maxDepth
  | _ => True

def HasRoom (m : Medium) (v : Value) : Prop := m.Fits v.depth

variable {m : Medium}

private theorem Fits.mono {k n : Nat} (fits : m.Fits n) (le : k ≤ n) : m.Fits k := by
  cases m with
  | text depth => exact (Nat.add_le_add_left le depth).trans fits
  | buffer | parsed => trivial

private theorem Fits.enter {n : Nat} (fits : m.Fits (n + 1)) :
    ∃ inside, m.enter = .ok inside ∧ inside.Fits n := by
  cases m with
  | text depth =>
    have room : depth + (n + 1) ≤ maxDepth := fits
    have below : depth + 1 + n ≤ maxDepth := by omega
    exact ⟨.text (depth + 1), if_pos (by omega), below⟩
  | buffer => exact ⟨.buffer, rfl, trivial⟩
  | parsed => exact ⟨.parsed, rfl, trivial⟩

theorem canHold_ofValue {v : Value} (room : m.HasRoom v) : m.canHold (.ofValue v) = true := by
  cases m with
  | text depth =>
    have fits : depth + v.depth ≤ maxDepth := room
    exact (Tree.isSound_ofValue v _).2 (by omega)
  | buffer | parsed => rfl

private theorem enter_array {items : List Value} (room : m.HasRoom (.array items)) :
    ∃ inside, m.enter = .ok inside ∧ ∀ v ∈ items, inside.HasRoom v := by
  obtain ⟨inside, enter, fits⟩ := Fits.enter room
  exact ⟨inside, enter, fun v hv => fits.mono (Value.itemDepth_le_iff.1 (Nat.le_refl _) v hv)⟩

theorem enter_object {members : List (String × Value)} (room : m.HasRoom (.object members)) :
    ∃ inside, m.enter = .ok inside ∧ ∀ p ∈ members, inside.HasRoom p.2 := by
  obtain ⟨inside, enter, fits⟩ := Fits.enter room
  exact ⟨inside, enter, fun p hp => fits.mono (Value.memberDepth_le_iff.1 (Nat.le_refl _) p hp)⟩

end Medium

/-! ### Parts of values -/

namespace Value

private theorem itemNumbers_eq (items : List Value) :
    itemNumbers items = items.flatMap numbers := by
  induction items with
  | nil => rfl
  | cons v rest ih => rw [itemNumbers, ih, List.flatMap_cons]

private theorem memberNumbers_eq (members : List (String × Value)) :
    memberNumbers members = members.flatMap fun p => p.2.numbers := by
  induction members with
  | nil => rfl
  | cons p rest ih => rw [memberNumbers, ih, List.flatMap_cons]

private theorem isLegible_array {items : List Value} :
    (array items).IsLegible ↔ ∀ v ∈ items, v.IsLegible := by
  simp only [IsLegible, numbers, itemNumbers_eq, List.mem_flatMap]
  exact ⟨fun all v hv n hn => all n ⟨v, hv, hn⟩, fun all n ⟨v, hv, hn⟩ => all v hv n hn⟩

theorem isLegible_object {members : List (String × Value)} :
    (object members).IsLegible ↔ ∀ p ∈ members, p.2.IsLegible := by
  simp only [IsLegible, numbers, memberNumbers_eq, List.mem_flatMap]
  exact ⟨fun all p hp n hn => all n ⟨p, hp, hn⟩, fun all n ⟨p, hp, hn⟩ => all p hp n hn⟩

private theorem isLegible_null : null.IsLegible := fun _ mem => absurd mem List.not_mem_nil

theorem isLegible_string (s : String) : (string s).IsLegible :=
  fun _ mem => absurd mem List.not_mem_nil

private theorem isLegible_number {n : Number} (legible : n.IsLegible) : (number n).IsLegible := by
  intro k hk
  rw [List.mem_singleton.1 hk]
  exact legible

end Value

namespace Tree

theorem ofMembers_eq (members : List (String × Value)) :
    ofMembers members = members.map fun p => (some p.1, ofValue p.2) := by
  induction members with
  | nil => rfl
  | cons p rest ih => rw [ofMembers, ih, List.map_cons]

private theorem ofValue_eq_null {v : Value} (null : ofValue v = .null) : v = .null := by
  cases v with
  | null => rfl
  | _ => cases null

end Tree

namespace Codec

variable {α β : Type}

/-- What is written for a value can be told from its text, and is read back as the value. -/
structure Keeps (c : Codec α) (a : α) : Prop where
  legible : (c.write a).IsLegible
  reads : ∀ m : Medium, m.HasRoom (c.write a) → c.read m (.ofValue (c.write a)) = .ok a

/-! ### Words and numbers -/

theorem keeps_string (s : String) : string.Keeps s := ⟨Value.isLegible_string s, fun _ _ => rfl⟩

theorem keeps_count (n : Count) : count.Keeps n :=
  ⟨Value.isLegible_number (Number.isLegible_of_isWhole trivial), fun _ _ => rfl⟩

theorem keeps_real {x : Binary64} (legible : (Number.real x).IsLegible) : real.Keeps x :=
  ⟨Value.isLegible_number legible, fun _ _ => rfl⟩

theorem keeps_word (n : UInt32) : word.Keeps n := by
  have bound := n.toNat_lt
  have natural : Number.ofInt n.toNat = .natural ⟨n.toNat, by omega⟩ :=
    Number.ofInt_toNat ⟨n.toNat, by omega⟩
  have written : word.write n = .number (.natural ⟨n.toNat, by omega⟩) :=
    congrArg Value.number natural
  refine ⟨?_, fun m _ => ?_⟩
  · rw [written]
    exact Value.isLegible_number (Number.isLegible_of_isWhole trivial)
  · rw [written]
    change (if n.toNat < 0x1_0000_0000 then Except.ok (UInt32.ofNat n.toNat) else _) = _
    rw [if_pos bound, UInt32.ofNat_toNat]

theorem keeps_integer (n : Int64) : integer.Keeps n := by
  have least := n.le_toInt
  have bound := n.toInt_lt
  rcases Int.lt_or_le n.toInt 0 with negative | natural
  · have range : -0x8000_0000_0000_0000 ≤ n.toInt ∧ n.toInt < 0 := by omega
    have written : integer.write n = .number (.negative n.toInt range) :=
      congrArg Value.number (Number.ofInt_of_negative n.toInt range)
    refine ⟨?_, fun m _ => ?_⟩
    · rw [written]
      exact Value.isLegible_number (Number.isLegible_of_isWhole trivial)
    · rw [written]
      exact congrArg Except.ok (Int64.ofInt_toInt n)
  · obtain ⟨k, value⟩ := Int.eq_ofNat_of_zero_le natural
    have fits : k < 0x8000_0000_0000_0000 := by omega
    have written : integer.write n = .number (.natural ⟨k, by omega⟩) := by
      have same := Number.ofInt_toNat ⟨k, by omega⟩
      rw [← value] at same
      exact congrArg Value.number same
    refine ⟨?_, fun m _ => ?_⟩
    · rw [written]
      exact Value.isLegible_number (Number.isLegible_of_isWhole trivial)
    · rw [written]
      change (if k < 0x8000_0000_0000_0000 then Except.ok (Int64.ofNat k) else _) = _
      rw [if_pos fits, ← Int64.ofInt_eq_ofNat]
      refine congrArg Except.ok ?_
      rw [← Int64.ofInt_toInt n, value]

/-! ### Names -/

theorem nameIndex_of_getElem? {names : List String} (once : names.Nodup) {i : Nat} {name : String}
    (listed : names[i]? = some name) : nameIndex names name = .ok i := by
  obtain ⟨bound, value⟩ := List.getElem?_eq_some_iff.1 listed
  have first : names.idxOf? name = some i := by
    refine List.idxOf?_eq_some_iff.2 ⟨bound, value, fun j less same => ?_⟩
    have place : j = i := once.getElem_inj_iff.1 (same.trans value.symm)
    exact absurd less (Nat.not_lt.2 (Nat.le_of_eq place.symm))
  rw [nameIndex, first]

theorem keeps_named [DecidableEq α] [Inhabited α] {names : List (String × α)}
    (once : (names.map Prod.fst).Nodup) {a : α} (known : a ∈ names.map Prod.snd) :
    (named names).Keeps a := by
  obtain ⟨p, hp, rfl⟩ := List.mem_map.1 known
  obtain ⟨q, found⟩ : ∃ q, (names.find? fun q => q.2 = p.2) = some q :=
    Option.isSome_iff_exists.1 (List.find?_isSome.2 ⟨p, hp, decide_eq_true rfl⟩)
  have same := @List.find?_some _ _ _ _ found
  have value : q.2 = p.2 := of_decide_eq_true same
  obtain ⟨i, listed⟩ := List.getElem?_of_mem (List.mem_of_find?_eq_some found)
  have index : nameIndex (names.map Prod.fst) q.1 = .ok i :=
    nameIndex_of_getElem? once (by rw [List.getElem?_map, listed]; rfl)
  have written : (named names).write p.2 = .string q.1 := by
    change Value.string ((names.find? fun q => q.2 = p.2).elim "" Prod.fst) = _
    rw [found]
    rfl
  refine ⟨by rw [written]; exact Value.isLegible_string q.1, fun m _ => ?_⟩
  rw [written]
  change (nameIndex (names.map Prod.fst) q.1).map _ = _
  rw [index]
  change Except.ok ((names.map Prod.snd).getD i default) = _
  rw [List.getD_eq_getElem?_getD, List.getElem?_map, listed, ← value]
  rfl

/-! ### Free values, optional values and lists -/

theorem keeps_free {v : Value} (normal : v.IsNormal) (legible : v.IsLegible) : free.Keeps v := by
  refine ⟨legible, fun m room => ?_⟩
  have holds : m.canHold (.ofValue v) = true := Medium.canHold_ofValue room
  change (if m.canHold (.ofValue v) then Except.ok (Tree.ofValue v).toValue else _) = _
  rw [if_pos holds, Tree.toValue_ofValue normal]

theorem keeps_optional {c : Codec α} {o : Option α}
    (keeps : ∀ a ∈ o, c.Keeps a ∧ c.write a ≠ .null) : c.optional.Keeps o := by
  cases o with
  | none => exact ⟨Value.isLegible_null, fun _ _ => rfl⟩
  | some a =>
    obtain ⟨keep, something⟩ := keeps a rfl
    refine ⟨keep.legible, fun m room => ?_⟩
    have read : c.optional.read m (.ofValue (c.write a)) =
        (c.read m (.ofValue (c.write a))).map some := by
      cases same : Tree.ofValue (c.write a) with
      | null => exact absurd (Tree.ofValue_eq_null same) something
      | _ => rfl
    exact read.trans (congrArg (Except.map some) (keep.reads m room))

private theorem readAll_ofValues {c : Codec α} {as : List α} {m : Medium}
    (reads : ∀ a ∈ as, c.read m (.ofValue (c.write a)) = .ok a) :
    readAll c.read m (Tree.ofValues (as.map c.write)) true = .ok as := by
  induction as with
  | nil => rfl
  | cons a as ih =>
    obtain ⟨first, others⟩ := List.forall_mem_cons.1 reads
    rw [List.map_cons, Tree.ofValues, readAll, first, ih others]
    rfl

theorem keeps_list {c : Codec α} {as : List α} (keeps : ∀ a ∈ as, c.Keeps a) :
    c.list.Keeps as := by
  refine ⟨Value.isLegible_array.2 fun v hv => ?_, fun m room => ?_⟩
  · obtain ⟨a, ha, rfl⟩ := List.mem_map.1 hv
    exact (keeps a ha).legible
  · obtain ⟨inside, enter, rooms⟩ := Medium.enter_array room
    change (m.enter >>= fun inside => readAll c.read inside _ true) = _
    rw [enter]
    exact readAll_ofValues fun a ha =>
      (keeps a ha).reads inside (rooms _ (List.mem_map_of_mem ha))

end Codec

/-! ### Depths and texts -/

namespace Codec

variable {α : Type} {c : Codec α}

theorem depth_optional_le {levels : Nat} {o : Option α}
    (within : ∀ a ∈ o, (c.write a).depth ≤ levels) : (c.optional.write o).depth ≤ levels := by
  cases o with
  | none => exact Nat.zero_le levels
  | some a => exact within a rfl

theorem depth_list_le {levels : Nat} {as : List α}
    (within : ∀ a ∈ as, (c.write a).depth ≤ levels) : (c.list.write as).depth ≤ levels + 1 := by
  refine Nat.succ_le_succ (Value.itemDepth_le_iff.2 fun v hv => ?_)
  obtain ⟨a, ha, rfl⟩ := List.mem_map.1 hv
  exact within a ha

theorem Keeps.ofText_text {a : α} (keeps : c.Keeps a) (shallow : (c.write a).depth ≤ maxDepth) :
    c.ofText (c.text a) = .ok a := by
  have document := Document.ofText_compact keeps.legible
  have read := keeps.reads (.text 0) ((Nat.zero_add _).trans_le shallow)
  rw [ofText, text, document]
  change (c.read (.text 0) (.ofValue (c.write a)) >>= fun a => .ok a) = _
  rw [read]
  rfl

/-- The text of a value is read as the value, and what is read is written as the text. -/
def RoundTrips (c : Codec α) (a : α) : Prop :=
  c.ofText (c.text a) = .ok a ∧ (c.ofText (c.text a)).map c.text = .ok (c.text a)

theorem Keeps.roundTrips {a : α} (keeps : c.Keeps a) (shallow : (c.write a).depth ≤ maxDepth) :
    c.RoundTrips a := by
  have read := keeps.ofText_text shallow
  refine ⟨read, ?_⟩
  rw [read]
  rfl

end Codec

end SyncAccounting.Json
