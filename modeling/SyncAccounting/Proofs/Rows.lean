import SyncAccounting.Proofs.Saturation
import Mathlib.Data.Finset.Card

/-!
Rows of tallies, seen through `tally`. The deltas of a row hold each of its tallies once, so adding
them to another row adds the two rows stream by stream; and the row of some records tells their
streams apart by the position of each stream among the keys.
-/

set_option autoImplicit false

namespace SyncAccounting.TallyRow

/-- What some deltas hold of a stream: zero where they say nothing of it. -/
def deltaAt (deltas : List (Nat × Tally)) (stream : Nat) : Tally :=
  (deltas.lookup stream).getD .zero

theorem tally_nil (stream : Nat) : tally [] stream = .zero := rfl

theorem tally_of_length_le {row : TallyRow} {stream : Nat} (h : row.length ≤ stream) :
    row.tally stream = .zero := by
  rw [tally, List.getD_eq_getElem?_getD, List.getElem?_eq_none h]
  rfl

theorem length_addAt (row : TallyRow) (n : Nat) (t : Tally) :
    (row.addAt n t).length = max row.length (n + 1) := by
  induction row generalizing n with
  | nil =>
    induction n with
    | zero => rfl
    | succ n ih =>
      simp only [addAt, List.length_cons, List.length_nil] at ih ⊢
      omega
  | cons s row ih =>
    cases n with
    | zero =>
      simp only [addAt, List.length_cons]
      omega
    | succ n =>
      simp only [addAt, List.length_cons, ih]
      omega

theorem length_addAll_le {row : TallyRow} {deltas : List (Nat × Tally)} {n : Nat}
    (hrow : row.length ≤ n) (hdeltas : ∀ d ∈ deltas, d.1 < n) :
    (row.addAll deltas).length ≤ n := by
  induction deltas generalizing row with
  | nil => exact hrow
  | cons d deltas ih =>
    have head := hdeltas d List.mem_cons_self
    have longer : (row.addAt d.1 d.2).length ≤ n := by
      rw [length_addAt]
      omega
    exact ih longer fun e he => hdeltas e (List.mem_cons_of_mem d he)

theorem deltaAt_cons (key : Nat) (t : Tally) (deltas : List (Nat × Tally)) (stream : Nat) :
    deltaAt ((key, t) :: deltas) stream = if stream = key then t else deltaAt deltas stream := by
  rw [deltaAt, List.lookup_cons]
  by_cases h : stream = key
  · rw [if_pos h, beq_iff_eq.2 h]
    rfl
  · rw [if_neg h, beq_eq_false_iff_ne.2 h]
    rfl

theorem deltaAt_of_not_mem {deltas : List (Nat × Tally)} {stream : Nat}
    (h : stream ∉ deltas.map Prod.fst) : deltaAt deltas stream = .zero := by
  have absent : deltas.lookup stream = none := by
    refine List.lookup_eq_none_iff.2 fun p hp => ?_
    simpa using fun e : stream = p.1 => h (e ▸ List.mem_map_of_mem hp)
  rw [deltaAt, absent]
  rfl

theorem tally_addAll (row : TallyRow) {deltas : List (Nat × Tally)}
    (distinct : (deltas.map Prod.fst).Nodup) (stream : Nat) :
    (row.addAll deltas).tally stream = row.tally stream + deltaAt deltas stream := by
  induction deltas generalizing row with
  | nil => exact (Tally.add_zero _).symm
  | cons d deltas ih =>
    obtain ⟨key, t⟩ := d
    obtain ⟨fresh, distinct⟩ := List.nodup_cons.1 distinct
    have rest := ih (row.addAt key t) distinct
    rw [tally_addAt] at rest
    rw [deltaAt_cons]
    refine rest.trans ?_
    by_cases h : stream = key
    · have nothing : deltaAt deltas stream = .zero := deltaAt_of_not_mem (h ▸ fresh)
      rw [if_pos h, if_pos h, nothing, Tally.add_zero]
    · rw [if_neg h, if_neg h]

def total (tallies : List (Nat × Tally)) (stream : Nat) : Tally :=
  .sum ((tallies.filter (·.1 = stream)).map Prod.snd)

theorem total_cons (d : Nat × Tally) (tallies : List (Nat × Tally)) (stream : Nat) :
    total (d :: tallies) stream =
      (if d.1 = stream then d.2 else .zero) + total tallies stream := by
  by_cases h : d.1 = stream
  · rw [total, List.filter_cons_of_pos (by simpa using h), List.map_cons, Tally.sum_cons, if_pos h]
    rfl
  · rw [total, List.filter_cons_of_neg (by simpa using h), if_neg h, Tally.zero_add]
    rfl

/-- Adding tallies, also several of one stream, adds to each stream what they add up to. -/
theorem tally_addAll_eq_total (row : TallyRow) (tallies : List (Nat × Tally)) (stream : Nat) :
    (row.addAll tallies).tally stream = row.tally stream + total tallies stream := by
  induction tallies generalizing row with
  | nil => exact (Tally.add_zero _).symm
  | cons d tallies ih =>
    have rest := ih (row.addAt d.1 d.2)
    rw [tally_addAt] at rest
    rw [total_cons, ← Tally.add_assoc]
    refine rest.trans ?_
    by_cases h : stream = d.1
    · rw [if_pos h, if_pos h.symm]
    · rw [if_neg h, if_neg (Ne.symm h), Tally.add_zero]

/-! ### The deltas of a row -/

private theorem zipIdx_eq_map (row : TallyRow) :
    row.zipIdx = (List.range row.length).map fun s => (row.tally s, s) := by
  refine List.ext_getElem (by simp) fun i h _ => ?_
  have bound : i < row.length := by simpa using h
  simp [tally, List.getD_eq_getElem?_getD, bound]

theorem nonzero_eq_map (row : TallyRow) :
    row.nonzero = ((List.range row.length).filter fun s => row.tally s ≠ .zero).map
      fun s => (s, row.tally s) := by
  rw [nonzero, zipIdx_eq_map, List.filter_map, List.map_map]
  refine congrArg (List.map _) (List.filter_congr fun s _ => ?_)
  simp [Tally.isZero]

theorem map_fst_nonzero (row : TallyRow) :
    row.nonzero.map Prod.fst = (List.range row.length).filter fun s => row.tally s ≠ .zero := by
  rw [nonzero_eq_map, List.map_map]
  exact List.map_id _

theorem nodup_nonzero (row : TallyRow) : (row.nonzero.map Prod.fst).Nodup := by
  rw [map_fst_nonzero]
  exact List.nodup_range.filter _

theorem mem_map_fst_nonzero (row : TallyRow) (stream : Nat) :
    stream ∈ row.nonzero.map Prod.fst ↔ row.tally stream ≠ .zero := by
  rw [map_fst_nonzero, List.mem_filter, List.mem_range, decide_eq_true_iff]
  refine ⟨And.right, fun h => ⟨?_, h⟩⟩
  by_contra outside
  exact h (tally_of_length_le (Nat.le_of_not_lt outside))

theorem lt_length_of_mem_nonzero {row : TallyRow} {d : Nat × Tally} (h : d ∈ row.nonzero) :
    d.1 < row.length := by
  have key := List.mem_map_of_mem (f := Prod.fst) h
  rw [map_fst_nonzero] at key
  exact List.mem_range.1 (List.mem_filter.1 key).1

private theorem deltaAt_map (f : Nat → Tally) {streams : List Nat} {stream : Nat}
    (h : stream ∈ streams) : deltaAt (streams.map fun s => (s, f s)) stream = f stream := by
  induction streams with
  | nil => simp at h
  | cons s streams ih =>
    rw [List.map_cons, deltaAt_cons]
    by_cases same : stream = s
    · rw [if_pos same, same]
    · rw [if_neg same]
      exact ih ((List.mem_cons.1 h).resolve_left same)

theorem deltaAt_nonzero (row : TallyRow) (stream : Nat) :
    deltaAt row.nonzero stream = row.tally stream := by
  by_cases h : row.tally stream = .zero
  · rw [h]
    exact deltaAt_of_not_mem fun mem => (mem_map_fst_nonzero row stream).1 mem h
  · have mem := (mem_map_fst_nonzero row stream).2 h
    rw [map_fst_nonzero] at mem
    rw [nonzero_eq_map, deltaAt_map row.tally mem]

/-! ### Sums over a row -/

private theorem map_eq_range (f : Tally → Count) (row : TallyRow) :
    row.map f = (List.range row.length).map fun s => f (row.tally s) := by
  refine List.ext_getElem (by simp) fun i h _ => ?_
  have bound : i < row.length := by simpa using h
  simp [tally, List.getD_eq_getElem?_getD, bound]

theorem sum_map_eq_range {f : Tally → Count} (hf : f .zero = 0) {row : TallyRow} {n : Nat}
    (h : row.length ≤ n) :
    Count.sum (row.map f) = Count.sum ((List.range n).map fun s => f (row.tally s)) := by
  induction n, h using Nat.le_induction with
  | base => rw [map_eq_range]
  | succ n bound ih =>
    have last : f (row.tally n) = 0 := by rw [tally_of_length_le bound, hf]
    have nothing : Count.sum [0] = 0 := rfl
    rw [List.range_succ, List.map_append, Count.sum_append, ← ih, List.map_singleton, last,
      nothing, Count.add_zero]

theorem sum_map_eq_keys {f : Tally → Count} (zero : f .zero = 0) {row : TallyRow}
    {keys : List StreamKey} (distinct : keys.Nodup) (h : row.length ≤ keys.length) :
    Count.sum (row.map f) = Count.sum (keys.map fun key => f (row.tally (keys.idxOf key))) := by
  rw [sum_map_eq_range zero h]
  refine congrArg Count.sum (List.ext_getElem (by simp) fun n hn _ => ?_)
  have bound : n < keys.length := by simpa using hn
  rw [List.getElem_map, List.getElem_map, List.getElem_range, distinct.idxOf_getElem n bound]

theorem sum_map_addAt {f : Tally → Count} (zero : f .zero = 0)
    (add : ∀ s t, f (s + t) = f s + f t) (row : TallyRow) (n : Nat) (t : Tally) :
    Count.sum ((row.addAt n t).map f) = Count.sum (row.map f) + f t := by
  induction row generalizing n with
  | nil =>
    induction n with
    | zero =>
      rw [addAt, List.map_singleton, Count.sum_cons, Tally.zero_add]
      exact Count.add_comm _ _
    | succ n ih =>
      rw [addAt, List.map_cons, Count.sum_cons, zero, Count.zero_add]
      exact ih
  | cons s row ih =>
    cases n with
    | zero =>
      rw [addAt, List.map_cons, List.map_cons, Count.sum_cons, Count.sum_cons, add,
        Count.add_assoc, Count.add_assoc, Count.add_comm (f t)]
    | succ n =>
      rw [addAt, List.map_cons, List.map_cons, Count.sum_cons, Count.sum_cons, ih,
        Count.add_assoc]

theorem sum_map_le {f : Tally → Count} (zero : f .zero = 0) {row other : TallyRow}
    (h : ∀ s, f (row.tally s) ≤ f (other.tally s)) :
    Count.sum (row.map f) ≤ Count.sum (other.map f) := by
  rw [sum_map_eq_range zero (Nat.le_max_left row.length other.length),
    sum_map_eq_range zero (Nat.le_max_right row.length other.length)]
  exact Count.sum_map_le _ _ _ fun s _ => h s

/-! ### The row of some records -/

def ofRecords (keys : List StreamKey) (records : List RecordMessage) : TallyRow :=
  records.foldl (fun row r => row.addAt (keys.idxOf r.stream) (.single r.byteSize)) []

theorem ofRecords_append_singleton (keys : List StreamKey) (records : List RecordMessage)
    (r : RecordMessage) :
    ofRecords keys (records ++ [r]) =
      (ofRecords keys records).addAt (keys.idxOf r.stream) (.single r.byteSize) := by
  rw [ofRecords, List.foldl_append]
  rfl

theorem ofRecords_append_keys {keys : List StreamKey} {records : List RecordMessage}
    (known : ∀ r ∈ records, r.stream ∈ keys) (more : List StreamKey) :
    ofRecords (keys ++ more) records = ofRecords keys records := by
  refine List.foldl_ext _ _ _ fun row r hr => ?_
  rw [List.idxOf_append_of_mem (known r hr)]

theorem tally_ofRecords (keys : List StreamKey) (records : List RecordMessage) (stream : Nat) :
    (ofRecords keys records).tally stream =
      .ofRecords (records.filter fun r => keys.idxOf r.stream = stream) := by
  induction records using List.reverseRecOn with
  | nil => rfl
  | append_singleton records r ih =>
    rw [ofRecords_append_singleton, tally_addAt, ih, List.filter_append, Tally.ofRecords_append]
    by_cases h : keys.idxOf r.stream = stream
    · simp [h, Tally.ofRecords_singleton]
    · simp [h, Ne.symm h, Tally.ofRecords_nil, Tally.add_zero]

theorem length_ofRecords_le {keys : List StreamKey} {records : List RecordMessage}
    (known : ∀ r ∈ records, r.stream ∈ keys) : (ofRecords keys records).length ≤ keys.length := by
  induction records using List.reverseRecOn with
  | nil => exact Nat.zero_le _
  | append_singleton records r ih =>
    have bound := ih fun s hs => known s (List.mem_append_left [r] hs)
    have position := List.idxOf_lt_length_of_mem (known r (by simp))
    rw [ofRecords_append_singleton, length_addAt]
    omega

/-- A row of records holds a delta for each stream that has a record among them. -/
theorem length_nonzero_ofRecords {keys : List StreamKey} {records : List RecordMessage}
    (known : ∀ r ∈ records, r.stream ∈ keys) :
    (ofRecords keys records).nonzero.length = (records.map (·.stream)).toFinset.card := by
  have positions : ((ofRecords keys records).nonzero.map Prod.fst).toFinset =
      (records.map (·.stream)).toFinset.image (fun k => keys.idxOf k) := by
    ext s
    rw [List.mem_toFinset, mem_map_fst_nonzero, tally_ofRecords, ne_eq,
      Tally.ofRecords_eq_zero_iff, List.filter_eq_nil_iff]
    simp
  have injective : Set.InjOn (fun k => keys.idxOf k) (records.map (·.stream)).toFinset := by
    intro a ha b _ same
    obtain ⟨r, hr, rfl⟩ := List.mem_map.1 (List.mem_toFinset.1 ha)
    exact (List.idxOf_inj (known r hr)).1 same
  calc
    (ofRecords keys records).nonzero.length =
        ((ofRecords keys records).nonzero.map Prod.fst).length := (List.length_map _).symm
    _ = ((ofRecords keys records).nonzero.map Prod.fst).toFinset.card :=
        (List.toFinset_card_of_nodup (nodup_nonzero _)).symm
    _ = (records.map (·.stream)).toFinset.card := by
        rw [positions, Finset.card_image_of_injOn injective]

end SyncAccounting.TallyRow
