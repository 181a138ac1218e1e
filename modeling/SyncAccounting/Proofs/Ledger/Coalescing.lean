import SyncAccounting.Proofs.Ledger.Folding

/-!
Acknowledgements that come together, again or in another order. A fold and then one of a later
checkpoint leave what the later one would leave alone, and a checkpoint that was folded with a later
one is not folded again. So of several acknowledgements only the highest counts.
-/

set_option autoImplicit false

namespace SyncAccounting

private theorem Count.succ_le_succ {a b : Count} (le : a ≤ b) : a.succ ≤ b.succ := by
  rw [le_def] at le ⊢
  rw [toNat_succ, toNat_succ]
  omega

namespace Backlog

variable {ν : Type} {i j : CheckpointIndex}

private theorem dropWhile_dropWhile {α : Type} {p q : α → Bool} (weaker : ∀ a, p a → q a)
    (l : List α) : (l.dropWhile p).dropWhile q = l.dropWhile q := by
  induction l with
  | nil => rfl
  | cons a rest ih =>
    by_cases below : p a = true
    · rw [List.dropWhile_cons_of_pos below, ih, List.dropWhile_cons_of_pos (weaker a below)]
    · rw [List.dropWhile_cons_of_neg below]

private theorem cut_cut (le : i ≤ j) (early late : List (CheckpointIndex × ν)) :
    cut j (cut i early late).1 (cut i early late).2 = cut j early late := by
  have weaker : ∀ e : CheckpointIndex × ν, decide (e.1 < i) → decide (e.1 < j) := by
    intro e below
    exact decide_eq_true (Nat.lt_of_lt_of_le (of_decide_eq_true below) le)
  have first := dropWhile_dropWhile weaker early
  have second := dropWhile_dropWhile weaker late.reverse
  cases kept : early.dropWhile (·.1 < i) with
  | nil =>
    have lower : cut i early late = (late.reverse.dropWhile (·.1 < i), []) := by rw [cut, kept]
    rw [kept, List.dropWhile_nil] at first
    have higher : cut j early late = (late.reverse.dropWhile (·.1 < j), []) := by
      rw [cut, ← first]
    rw [lower, higher, cut, second]
    cases late.reverse.dropWhile (·.1 < j) <;> rfl
  | cons e rest =>
    have lower : cut i early late = (e :: rest, late) := by rw [cut, kept]
    rw [kept] at first
    rw [lower, cut, first, cut]

private theorem eq_of_lists {v w : Backlog ν} (early : v.early = w.early) (late : v.late = w.late) :
    v = w := by
  obtain ⟨_, _, size, sorted, length⟩ := v
  obtain ⟨_, _, size', sorted', length'⟩ := w
  cases early
  cases late
  cases length
  cases length'
  rfl

private theorem dropBelow_dropBelow (w : Backlog ν) (le : i ≤ j) :
    (w.dropBelow i).dropBelow j = w.dropBelow j := by
  have same := cut_cut le w.early w.late
  exact eq_of_lists (congrArg Prod.fst same) (congrArg Prod.snd same)

private theorem takeBelow_append_takeBelow (w : Backlog ν) (le : i ≤ j) :
    w.takeBelow i ++ (w.dropBelow i).takeBelow j = w.takeBelow j := by
  have all : (w.takeBelow i).filter (·.1 < j) = w.takeBelow i := by
    refine List.filter_eq_self.2 fun e he => ?_
    rw [takeBelow_eq] at he
    have below : e.1 < i := of_decide_eq_true (List.mem_filter.1 he).2
    exact decide_eq_true (Nat.lt_of_lt_of_le below le)
  rw [takeBelow_eq _ j, takeBelow_eq w j, ← w.takeBelow_append i, List.filter_append, all]

end Backlog

attribute [ext] Budget Books

namespace Books

variable (b : Books) {i j : CheckpointIndex}

private theorem covered_append_covered (le : i ≤ j) :
    b.covered i ++ (b.settle i).covered j = b.covered j := by
  rw [covered, covered, covered, ← List.map_append]
  exact congrArg (List.map Prod.snd)
    (b.pending.takeBelow_append_takeBelow (Count.succ_le_succ le))

/-- Of two folds the later one counts: what it finds left is all that it would have folded alone
and the earlier one has not. -/
private theorem settle_settle (le : i ≤ j) : (b.settle i).settle j = b.settle j := by
  have parts := b.covered_append_covered le
  have used : ((b.settle i).settle j).budget.used = (b.settle j).budget.used := by
    apply Count.ext
    rw [used_settle, used_settle, used_settle, ← parts, List.map_append, List.sum_append,
      Nat.sub_sub]
  ext1
  · ext1
    · rw [limit_settle, limit_settle, limit_settle]
    · exact used
    · rw [peak_settle, peak_settle, peak_settle]
  · rw [current_settle, current_settle, current_settle]
  · exact b.pending.dropBelow_dropBelow (Count.succ_le_succ le)
  · rw [committed_settle, committed_settle, committed_settle, ← parts, List.foldl_append]
  · rw [lastAdded_settle, lastAdded_settle, lastAdded_settle]
  · rfl

private theorem isSome_find?_settle_iff (small : i.toNat < Count.limit)
    (waits : j ∈ b.pending.toList.map Prod.fst) :
    ((b.settle i).pending.find? j).isSome ↔ i < j := by
  have rest : (b.settle i).pending.toList = b.pending.toList.filter (i < ·.1) :=
    b.pending.toList_dropBelow_succ small
  rw [Backlog.isSome_find?_iff, rest]
  constructor
  · intro left
    obtain ⟨e, he, rfl⟩ := List.mem_map.1 left
    exact of_decide_eq_true (List.mem_filter.1 he).2
  · intro later
    obtain ⟨e, he, rfl⟩ := List.mem_map.1 waits
    exact List.mem_map_of_mem (List.mem_filter.2 ⟨he, decide_eq_true later⟩)

end Books

namespace Ledger

def answers (l : Ledger) : List Call → List (Except Fault Unit)
  | [] => []
  | c :: calls => (l.perform c).2 :: (l.perform c).1.answers calls

private theorem answers_concat (l : Ledger) (calls : List Call) (c : Call) :
    l.answers (calls ++ [c]) = l.answers calls ++ [((l.performAll calls).perform c).2] := by
  induction calls generalizing l with
  | nil => rfl
  | cons d calls ih =>
    rw [List.cons_append, answers, ih]
    rfl

/-- After a fold, an acknowledgement of what waited before it succeeds: it folds on where it is
later, and else changes nothing. -/
private theorem commitUpTo_settle (b : Books) {i j : CheckpointIndex}
    (small : i.toNat < Count.limit) (waits : j ∈ b.pending.toList.map Prod.fst) :
    (healthy (b.settle i)).perform (.commitUpTo j) =
      (healthy (b.settle (if i < j then j else i)), .ok ()) := by
  have pending := b.isSome_find?_settle_iff small waits
  by_cases later : i < j
  · rw [if_pos later, ← b.settle_settle (Nat.le_of_lt later)]
    exact commitUpTo_pending (pending.2 later)
  · have folded : (b.settle i).committedThrough.any (j ≤ ·) = true :=
      decide_eq_true (Nat.not_lt.1 later)
    rw [if_neg later]
    exact commitUpTo_folded (mt pending.1 later) folded

theorem performAll_commits (b : Books) {indices : List CheckpointIndex} (nonempty : indices ≠ [])
    (waiting : ∀ index ∈ indices,
      index ∈ b.pending.toList.map Prod.fst ∧ index.toNat < Count.limit) :
    ∃ greatest ∈ indices, (∀ index ∈ indices, index ≤ greatest) ∧
      (healthy b).performAll (indices.map .commitUpTo) = healthy (b.settle greatest) ∧
      (healthy b).answers (indices.map .commitUpTo) = indices.map fun _ => .ok () := by
  induction indices using List.reverseRecOn with
  | nil => exact absurd rfl nonempty
  | append_singleton earlier j ih =>
    obtain ⟨before, last⟩ := List.forall_mem_append.1 waiting
    obtain ⟨waits, -⟩ := List.forall_mem_singleton.1 last
    by_cases alone : earlier = []
    · subst alone
      have folded : (healthy b).perform (.commitUpTo j) = (healthy (b.settle j), .ok ()) :=
        commitUpTo_pending ((b.pending.isSome_find?_iff j).2 waits)
      refine ⟨j, List.mem_singleton_self j, ?_, congrArg Prod.fst folded, ?_⟩
      · exact List.forall_mem_singleton.2 (Count.le_refl j)
      · exact congrArg (fun o => [o.2]) folded
    · -- the highest index so far has been folded, and the last one folds on where it is higher
      obtain ⟨g, hg, bound, state, ends⟩ := ih alone before
      have next := commitUpTo_settle b (before g hg).2 waits
      refine ⟨if g < j then j else g, ?_, ?_, ?_, ?_⟩
      · split
        · exact List.mem_append_right _ (List.mem_singleton_self j)
        · exact List.mem_append_left _ hg
      · refine List.forall_mem_append.2 ⟨fun index hi => ?_, List.forall_mem_singleton.2 ?_⟩
        · have le := bound index hi
          split
          · next later => exact Nat.le_trans le (Nat.le_of_lt later)
          · exact le
        · split
          · exact Count.le_refl j
          · next sooner => exact Nat.not_lt.1 sooner
      · rw [List.map_append, List.map_singleton, performAll_concat, state, next]
      · rw [List.map_append, List.map_singleton, answers_concat, state, next, ends,
          List.map_append, List.map_singleton]

/-- Acknowledgements of checkpoints that wait, in any order and some of them again, all succeed.
They leave the very ledger that the highest of them leaves alone, in which it has been folded and
only later checkpoints wait. -/
theorem only_highest_acknowledgement_counts (b : Books) (indices : List CheckpointIndex)
    (nonempty : indices ≠ []) (waiting : ∀ index ∈ indices,
      index ∈ b.pending.toList.map Prod.fst ∧ index.toNat < Count.limit) :
    (healthy b).answers (indices.map .commitUpTo) = indices.map (fun _ => .ok ()) ∧
      ∃ greatest ∈ indices, (∀ index ∈ indices, index ≤ greatest) ∧
        ∃ d, (healthy b).performAll (indices.map .commitUpTo) = healthy d ∧
          (healthy b).perform (.commitUpTo greatest) = (healthy d, .ok ()) ∧
          d.committedThrough = .some greatest ∧
          d.pending.toList = b.pending.toList.filter (greatest < ·.1) := by
  obtain ⟨greatest, listed, bound, state, ends⟩ := performAll_commits b nonempty waiting
  obtain ⟨waits, small⟩ := waiting greatest listed
  refine ⟨ends, greatest, listed, bound, b.settle greatest, state, ?_, rfl, ?_⟩
  · exact commitUpTo_pending ((b.pending.isSome_find?_iff greatest).2 waits)
  · exact b.pending.toList_dropBelow_succ small

/-- Snapshots at 2, 5 and 9, with a gap below each. The acknowledgement of 2 comes after that of 5,
and that of 5 comes again. -/
theorem only_highest_acknowledgement_counts_of_stale :
    let calls : List Call := [.addState 2 [(1, ⟨2, 9⟩)], .record 0 4, .checkpoint 5 none,
      .record 0 6, .checkpoint 9 none]
    ∃ b d, (ofLimit 1000).performAll calls = healthy b ∧
      (healthy b).answers [.commitUpTo 5, .commitUpTo 2, .commitUpTo 5] = [.ok (), .ok (), .ok ()] ∧
      (healthy b).performAll [.commitUpTo 5, .commitUpTo 2, .commitUpTo 5] = healthy d ∧
      (healthy b).perform (.commitUpTo 5) = (healthy d, .ok ()) ∧
      d.committedThrough = some 5 ∧
      d.pending.toList = [(9, ⟨[(0, ⟨1, 6⟩)], none⟩)] := by
  intro calls
  cases ends : (ofLimit 1000).performAll calls with
  | failed budget =>
    have healthy : ((ofLimit 1000).performAll calls).isHealthy = true := by decide
    rw [ends] at healthy
    cases healthy
  | healthy b =>
    have known : b.pending.toList = [(2, ⟨[(1, ⟨2, 9⟩)], none⟩), (5, ⟨[(0, ⟨1, 4⟩)], none⟩),
        (9, ⟨[(0, ⟨1, 6⟩)], none⟩)] := by
      have state : ((ofLimit 1000).performAll calls).pending.toList =
          [(2, ⟨[(1, ⟨2, 9⟩)], none⟩), (5, ⟨[(0, ⟨1, 4⟩)], none⟩),
            (9, ⟨[(0, ⟨1, 6⟩)], none⟩)] := by decide
      rw [ends] at state
      exact state
    have waiting : ∀ index ∈ ([5, 2, 5] : List CheckpointIndex),
        index ∈ b.pending.toList.map Prod.fst ∧ index.toNat < Count.limit := by
      rw [known]
      decide
    obtain ⟨answers, greatest, listed, bound, d, state, single, through, left⟩ :=
      only_highest_acknowledgement_counts b [5, 2, 5] (List.cons_ne_nil _ _) waiting
    have highest : ∀ index ∈ ([5, 2, 5] : List CheckpointIndex), 5 ≤ index → index = 5 := by
      decide
    obtain rfl := highest greatest listed (bound 5 List.mem_cons_self)
    refine ⟨b, d, rfl, answers, state, single, through, left.trans ?_⟩
    rw [known]
    decide

end Ledger

end SyncAccounting
