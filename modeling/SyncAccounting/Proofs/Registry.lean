import Mathlib.Data.List.Infix
import Mathlib.Data.List.Nodup
import SyncAccounting.Proofs.SortedList
import SyncAccounting.Registry

/-!
A registry leads from streams to positions by one store and from positions to streams by another.
Observing a stream writes to both of them or to none, so that they stay inverse to each other.
-/

set_option autoImplicit false

namespace SyncAccounting

namespace Registry

def ofKeys (keys : List StreamKey) : Registry := keys.foldl observe empty

/-- The map and the list undo each other. -/
def Paired (r : Registry) : Prop := ∀ key i, r.position? key = some i ↔ r.key? i = some key

variable {r : Registry}

theorem ofKeys_append (keys more : List StreamKey) :
    ofKeys (keys ++ more) = more.foldl observe (ofKeys keys) := List.foldl_append

/-! ### One more stream -/

private theorem position?_eq_none {key : StreamKey} (fresh : ¬r.isKnown key = true) :
    r.position? key = none := by
  simpa [isKnown] using fresh

private theorem position?_observe_fresh {key : StreamKey} (fresh : ¬r.isKnown key = true)
    (other : StreamKey) :
    (r.observe key).position? other = if other = key then some r.size else r.position? other := by
  rw [observe, if_neg fresh]
  exact SortedList.find?_insert key other r.size r.positions

private theorem key?_observe_fresh {key : StreamKey} (fresh : ¬r.isKnown key = true) (i : Nat) :
    (r.observe key).key? i = if i = r.size then some key else r.key? i := by
  rw [observe, if_neg fresh]
  change (r.keys ++ [key])[i]? = if i = r.keys.length then some key else r.keys[i]?
  rcases Nat.lt_trichotomy i r.keys.length with below | rfl | above
  · rw [List.getElem?_append_left below, if_neg below.ne]
  · rw [List.getElem?_concat_length, if_pos rfl]
  · rw [if_neg above.ne', List.getElem?_eq_none above.le, List.getElem?_eq_none]
    rw [List.length_append]
    exact above

theorem isSome_key?_iff (r : Registry) (i : Nat) : (r.key? i).isSome ↔ i < r.size := by
  simp [key?, size]

theorem prefix_observe (r : Registry) (key : StreamKey) : r.keys <+: (r.observe key).keys := by
  rw [observe]
  split
  · exact List.prefix_rfl
  · exact List.prefix_append _ _

/-- What stands in one store after a new stream is entered stands in the other: the new stream has
the first position that was free, and no older entry is touched. -/
theorem Paired.observe (paired : r.Paired) (key : StreamKey) : (r.observe key).Paired := by
  by_cases known : r.isKnown key = true
  · rw [Registry.observe, if_pos known]
    exact paired
  intro other i
  rw [position?_observe_fresh known, key?_observe_fresh known]
  have free : r.key? r.size = none := List.getElem?_eq_none le_rfl
  by_cases new : other = key <;> by_cases last : i = r.size
  · simp [new, last]
  · have absent : r.key? i ≠ some key := fun found => by
      rw [← paired, position?_eq_none known] at found
      cases found
    simp [new, last, absent, Ne.symm last]
  · have absent : r.position? other ≠ some r.size := fun found => by
      rw [paired, free] at found
      cases found
    simp [new, last, absent, Ne.symm new]
  · simp only [if_neg new, if_neg last]
    exact paired other i

/-! ### All streams -/

theorem paired_empty : empty.Paired := fun key i => by
  simp [position?, key?, empty, SortedList.find?]

theorem paired_ofKeys (keys : List StreamKey) : (ofKeys keys).Paired := by
  induction keys using List.reverseRecOn with
  | nil => exact paired_empty
  | append_singleton keys key ih =>
    rw [ofKeys_append]
    exact ih.observe key

theorem prefix_ofKeys_append (keys more : List StreamKey) :
    (ofKeys keys).keys <+: (ofKeys (keys ++ more)).keys := by
  induction more using List.reverseRecOn with
  | nil => rw [List.append_nil]
  | append_singleton more key ih =>
    have step := prefix_observe (ofKeys (keys ++ more)) key
    rw [← List.append_assoc, ofKeys_append (keys ++ more)]
    exact ih.trans step

/-! ### Consequences for the list -/

namespace Paired

theorem isKnown_iff (paired : r.Paired) (key : StreamKey) :
    r.isKnown key = true ↔ key ∈ r.keys := by
  rw [isKnown, Option.isSome_iff_exists, List.mem_iff_getElem?]
  exact exists_congr (paired key)

theorem nodup (paired : r.Paired) : r.keys.Nodup := by
  refine List.nodup_iff_getElem?_ne_getElem?.2 fun i j less bound same => less.ne ?_
  obtain ⟨key, found⟩ := Option.isSome_iff_exists.1 ((r.isSome_key?_iff j).2 bound)
  have first := (paired key i).2 (same.trans found)
  have second := (paired key j).2 found
  exact Option.some.inj (first.symm.trans second)

theorem positionOf_eq_idxOf (paired : r.Paired) (key : StreamKey) :
    r.positionOf key = r.keys.idxOf key := by
  cases found : r.position? key with
  | none =>
    have fresh : key ∉ r.keys := by
      rw [← paired.isKnown_iff, isKnown, found]
      exact Bool.false_ne_true
    rw [positionOf, found, List.idxOf_of_notMem fresh]
    rfl
  | some i =>
    obtain ⟨bound, rfl⟩ := List.getElem?_eq_some_iff.1 ((paired key i).1 found)
    rw [positionOf, found, paired.nodup.idxOf_getElem i bound]
    rfl

theorem keys_observe (paired : r.Paired) (key : StreamKey) :
    (r.observe key).keys = if key ∈ r.keys then r.keys else r.keys ++ [key] := by
  rw [Registry.observe, apply_ite keys]
  exact if_congr (paired.isKnown_iff key) rfl rfl

/-- The position that a stream is counted under is the one it has afterwards. -/
theorem position?_observe (paired : r.Paired) (key : StreamKey) :
    (r.observe key).position? key = some (r.positionOf key) := by
  rw [paired.observe key, paired.positionOf_eq_idxOf, key?, paired.keys_observe]
  by_cases known : key ∈ r.keys
  · rw [if_pos known]
    exact List.getElem?_idxOf known
  · rw [if_neg known, List.idxOf_of_notMem known, List.getElem?_concat_length]

end Paired

theorem mem_keys_ofKeys (keys : List StreamKey) (key : StreamKey) :
    key ∈ (ofKeys keys).keys ↔ key ∈ keys := by
  induction keys using List.reverseRecOn with
  | nil => exact Iff.rfl
  | append_singleton keys last ih =>
    rw [List.mem_append, List.mem_singleton, ← ih, ofKeys_append]
    change key ∈ ((ofKeys keys).observe last).keys ↔ _
    rw [(paired_ofKeys keys).keys_observe]
    split
    · next known =>
      refine ⟨.inl, fun h => h.elim id ?_⟩
      rintro rfl
      exact known
    · rw [List.mem_append, List.mem_singleton]

theorem toList_eq_map (distinct : r.keys.Nodup) :
    r.toList = r.keys.map fun key => (r.keys.idxOf key, key) := by
  refine List.ext_getElem (by simp [toList]) fun n hn _ => ?_
  have bound : n < r.keys.length := by simpa [toList] using hn
  simp [toList, distinct.idxOf_getElem n bound]

end Registry

end SyncAccounting
