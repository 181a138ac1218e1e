import Mathlib.Algebra.Ring.Nat
import SyncAccounting.Message

/-!
The algebra of sums that stay at the largest count. `Count.ofNat` takes exact sums to saturated
ones, so a saturated sum depends neither on the order of its terms nor on where it was split.
-/

set_option autoImplicit false

namespace SyncAccounting

namespace Count

theorem toNat_le_limit (a : Count) : a.toNat ≤ limit := Nat.le_sub_one_of_lt a.toNat_lt

theorem toNat_ofNat_of_le {n : Nat} (h : n ≤ limit) : (ofNat n).toNat = n := Nat.min_eq_left h

theorem ofNat_toNat (a : Count) : ofNat a.toNat = a :=
  ext (toNat_ofNat_of_le a.toNat_le_limit)

theorem toNat_zero : (0 : Count).toNat = 0 := rfl

theorem ofNat_add (m n : Nat) : ofNat (m + n) = ofNat m + ofNat n := by
  apply ext
  simp only [toNat_ofNat, toNat_add]
  omega

theorem succ_ofNat (n : Nat) : (ofNat n).succ = ofNat (n + 1) := by
  apply ext
  simp only [toNat_ofNat, toNat_succ]
  omega

theorem zero_add (a : Count) : 0 + a = a := by
  apply ext
  have := a.toNat_le_limit
  rw [toNat_add, toNat_zero]
  omega

theorem add_comm (a b : Count) : a + b = b + a := by
  apply ext
  simp only [toNat_add]
  omega

theorem add_zero (a : Count) : a + 0 = a := (add_comm a 0).trans (zero_add a)

theorem add_assoc (a b c : Count) : a + b + c = a + (b + c) := by
  apply ext
  simp only [toNat_add]
  omega

theorem le_def {a b : Count} : a ≤ b ↔ a.toNat ≤ b.toNat := Iff.rfl

theorem lt_def {a b : Count} : a < b ↔ a.toNat < b.toNat := Iff.rfl

theorem ofNat_lt_ofNat_iff (m n : Nat) : ofNat m < ofNat n ↔ m < min n limit := by
  simp only [lt_def, toNat_ofNat]
  omega

theorem le_refl (a : Count) : a ≤ a := Nat.le_refl a.toNat

theorem le_add_right (a b : Count) : a ≤ a + b := by
  have := a.toNat_le_limit
  rw [le_def, toNat_add]
  omega

theorem add_le_add {a b c d : Count} (hab : a ≤ b) (hcd : c ≤ d) : a + c ≤ b + d := by
  rw [le_def] at hab hcd ⊢
  simp only [toNat_add]
  omega

theorem toNat_max (a b : Count) : (max a b).toNat = max a.toNat b.toNat := by
  change (if a.toNat ≤ b.toNat then b else a).toNat = _
  split <;> omega

theorem foldl_add (xs : List Count) (a : Count) : xs.foldl add a = a + sum xs := by
  induction xs generalizing a with
  | nil => exact (add_zero a).symm
  | cons x xs ih =>
    have tail : sum (x :: xs) = 0 + x + sum xs := ih (0 + x)
    rw [tail, zero_add, ← add_assoc]
    exact ih (a + x)

theorem sum_cons (x : Count) (xs : List Count) : sum (x :: xs) = x + sum xs := by
  have tail : sum (x :: xs) = 0 + x + sum xs := foldl_add xs (0 + x)
  rw [tail, zero_add]

theorem sum_append (xs ys : List Count) : sum (xs ++ ys) = sum xs + sum ys := by
  rw [sum, List.foldl_append, foldl_add]
  rfl

theorem sum_perm {xs ys : List Count} (perm : xs.Perm ys) : sum xs = sum ys := by
  induction perm with
  | nil => rfl
  | cons x _ ih => rw [sum_cons, sum_cons, ih]
  | swap x y l => rw [sum_cons, sum_cons, sum_cons, sum_cons, ← add_assoc, ← add_assoc, add_comm x]
  | trans _ _ first second => exact first.trans second

theorem sum_map_le {α : Type} (f g : α → Count) (xs : List α) (h : ∀ x ∈ xs, f x ≤ g x) :
    sum (xs.map f) ≤ sum (xs.map g) := by
  induction xs with
  | nil => exact le_refl 0
  | cons x xs ih =>
    have head := h x List.mem_cons_self
    have tail := ih fun y hy => h y (List.mem_cons_of_mem x hy)
    rw [List.map_cons, List.map_cons, sum_cons, sum_cons]
    exact add_le_add head tail

end Count

namespace Tally

theorem ext {s t : Tally} (records : s.records = t.records) (bytes : s.bytes = t.bytes) :
    s = t := by
  cases s
  cases t
  cases records
  cases bytes
  rfl

theorem records_add (s t : Tally) : (s + t).records = s.records + t.records := rfl

theorem bytes_add (s t : Tally) : (s + t).bytes = s.bytes + t.bytes := rfl

theorem zero_add (t : Tally) : zero + t = t := ext (Count.zero_add _) (Count.zero_add _)

theorem add_zero (t : Tally) : t + zero = t := ext (Count.add_zero _) (Count.add_zero _)

theorem add_comm (s t : Tally) : s + t = t + s := ext (Count.add_comm _ _) (Count.add_comm _ _)

theorem add_assoc (s t u : Tally) : s + t + u = s + (t + u) :=
  ext (Count.add_assoc _ _ _) (Count.add_assoc _ _ _)

theorem add_right_comm (s t u : Tally) : s + t + u = s + u + t := by
  rw [add_assoc, add_comm t, ← add_assoc]

def sum (ts : List Tally) : Tally := ts.foldl (· + ·) zero

theorem foldl_add (ts : List Tally) (t : Tally) : ts.foldl (· + ·) t = t + sum ts := by
  induction ts generalizing t with
  | nil => exact (add_zero t).symm
  | cons s ts ih =>
    have tail : sum (s :: ts) = zero + s + sum ts := ih (zero + s)
    rw [tail, zero_add, ← add_assoc]
    exact ih (t + s)

theorem sum_cons (t : Tally) (ts : List Tally) : sum (t :: ts) = t + sum ts := by
  have tail : sum (t :: ts) = zero + t + sum ts := foldl_add ts (zero + t)
  rw [tail, zero_add]

theorem sum_append (ts us : List Tally) : sum (ts ++ us) = sum ts + sum us := by
  rw [sum, List.foldl_append, foldl_add]
  rfl

/-! ### Tallies of records -/

/-- How many records there are and how many bytes they take, each saturated once. -/
def ofRecords (records : List RecordMessage) : Tally :=
  ⟨.ofNat records.length, .ofNat (records.map (·.byteSize.toNat)).sum⟩

theorem ofRecords_nil : ofRecords [] = zero := rfl

theorem ofRecords_append (rs ss : List RecordMessage) :
    ofRecords (rs ++ ss) = ofRecords rs + ofRecords ss := by
  apply ext
  · simp only [ofRecords, records_add, List.length_append, Count.ofNat_add]
  · simp only [ofRecords, bytes_add, List.map_append, List.sum_append, Count.ofNat_add]

theorem ofRecords_singleton (r : RecordMessage) : ofRecords [r] = single r.byteSize := by
  apply ext
  · rfl
  · simp only [ofRecords, single, List.map_cons, List.map_nil, List.sum_singleton,
      Count.ofNat_toNat]

theorem ofRecords_eq_zero_iff (rs : List RecordMessage) : ofRecords rs = zero ↔ rs = [] := by
  constructor
  · intro h
    have records : (Count.ofNat rs.length).toNat = (0 : Count).toNat :=
      congrArg (fun t => t.records.toNat) h
    rw [Count.toNat_ofNat, Count.toNat_zero, Count.limit] at records
    exact List.eq_nil_of_length_eq_zero (by omega)
  · rintro rfl
    exact ofRecords_nil

end Tally

end SyncAccounting
