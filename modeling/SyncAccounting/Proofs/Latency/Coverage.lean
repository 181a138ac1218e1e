import SyncAccounting.Proofs.Latency.Calls
import SyncAccounting.Proofs.Ledger.Folding

/-!
Which acknowledgement covers which checkpoint. A checkpoint waits for the first acknowledgement
after it that goes as far as its index, and its delay is the time up to that one. Where checkpoints
come by ascending index, the times that are held are those of the checkpoints that wait, and every
delay is observed once, until the times take more than their limit: then, and only then, this is
logged, and there are no delays any more.
-/

set_option autoImplicit false

namespace SyncAccounting

namespace Latency

namespace Call

def index? : Call → Option CheckpointIndex
  | record _ => none
  | emitted index _ | committed index _ => some index

def checkpoint? : Call → Option (CheckpointIndex × Instant)
  | emitted index now => some (index, now)
  | record _ | committed _ _ => none

def checkpoints (calls : List Call) : List (CheckpointIndex × Instant) :=
  calls.filterMap checkpoint?

/-- The time of the first acknowledgement that goes as far as an index. -/
def coveredAt? (index : CheckpointIndex) : List Call → Option Instant
  | [] => none
  | committed last now :: calls => if index ≤ last then some now else coveredAt? index calls
  | record _ :: calls | emitted _ _ :: calls => coveredAt? index calls

/-- The checkpoints that no acknowledgement after them covers, and their times. -/
def waiting : List Call → List (CheckpointIndex × Instant)
  | [] => []
  | emitted index now :: calls =>
    if (coveredAt? index calls).isNone then (index, now) :: waiting calls else waiting calls
  | record _ :: calls | committed _ _ :: calls => waiting calls

/-- The times from the covered checkpoints to the acknowledgements that cover them, where those come
later. -/
def delays : List Call → List Span
  | [] => []
  | emitted index now :: calls => ((coveredAt? index calls).map (· - now)).toList ++ delays calls
  | record _ :: calls | committed _ _ :: calls => delays calls

end Call

/-- The times of the checkpoints that wait, and of one more, take more than the limit. The product
stays at the largest count, so nothing passes the largest limit; no memory holds that many times. -/
def Overruns (capacity : Count) (before : List Call) : Prop :=
  capacity.toNat < min (24 * ((Call.waiting before).length + 1)) Count.limit

instance (capacity : Count) (before : List Call) : Decidable (Overruns capacity before) :=
  inferInstanceAs (Decidable (_ < _))

def Affords (capacity : Count) (calls : List Call) : Prop :=
  ∀ before index now, before ++ [.emitted index now] <+: calls → ¬Overruns capacity before

/-- Checkpoints come by ascending index, and no index is the largest count: nothing comes after it,
so no acknowledgement covers it. -/
structure Numbered (calls : List Call) : Prop where
  ascending : (Call.checkpoints calls).Pairwise fun a b => a.1 < b.1
  small : ∀ c ∈ calls, ∀ index ∈ c.index?, index.toNat < Count.limit

structure Mirrors (l : Latency) (calls : List Call) : Prop where
  outstanding : ∃ times, l.outstanding = some times ∧ times.toList = Call.waiting calls
  delays : l.delays = .ofSpans (Call.delays calls)

variable {l : Latency} {calls : List Call} {capacity : Count} {c : Call} {index : CheckpointIndex}
  {now : Instant}

/-! ### One more call -/

namespace Call

private theorem coveredAt?_concat (index : CheckpointIndex) (calls : List Call) (c : Call) :
    coveredAt? index (calls ++ [c]) = (coveredAt? index calls).or (coveredAt? index [c]) := by
  induction calls with
  | nil => rfl
  | cons first calls ih =>
    cases first with
    | record now => exact ih
    | emitted i now => exact ih
    | committed last now =>
      by_cases covers : index ≤ last
      · simp only [List.cons_append, coveredAt?, if_pos covers, Option.some_or]
      · simp only [List.cons_append, coveredAt?, if_neg covers]
        exact ih

private theorem waiting_concat (calls : List Call) (c : Call) :
    waiting (calls ++ [c]) =
      (waiting calls).filter (fun e => (coveredAt? e.1 [c]).isNone) ++ c.checkpoint?.toList := by
  induction calls with
  | nil => cases c <;> rfl
  | cons first calls ih =>
    cases first with
    | record now => exact ih
    | committed last now => exact ih
    | emitted index now =>
      rw [List.cons_append, waiting, waiting, coveredAt?_concat, ih]
      cases coveredAt? index calls with
      | some covered => rfl
      | none =>
        rw [Option.none_or, if_pos Option.isNone_none, List.filter_cons]
        cases coveredAt? index [c] <;> rfl

private theorem delays_concat (calls : List Call) (c : Call) :
    (delays (calls ++ [c])).Perm
      (delays calls ++ (waiting calls).filterMap fun e => (coveredAt? e.1 [c]).map (· - e.2)) := by
  induction calls with
  | nil => cases c <;> exact .refl _
  | cons first calls ih =>
    cases first with
    | record now => exact ih
    | committed last now => exact ih
    | emitted index now =>
      rw [List.cons_append, delays, delays, waiting, coveredAt?_concat]
      cases coveredAt? index calls with
      | some covered => exact ih.cons (covered - now)
      | none =>
        rw [Option.none_or, if_pos Option.isNone_none, List.filterMap_cons]
        cases coveredAt? index [c] with
        | none => exact ih
        | some covered => exact (ih.cons (covered - now)).trans List.perm_middle.symm

private theorem waiting_concat_of_none (coversNone : ∀ index, coveredAt? index [c] = none)
    (calls : List Call) :
    waiting (calls ++ [c]) = waiting calls ++ c.checkpoint?.toList := by
  have all : (waiting calls).filter (fun e => (coveredAt? e.1 [c]).isNone) = waiting calls :=
    List.filter_eq_self.2 fun e _ => Option.isNone_iff_eq_none.2 (coversNone e.1)
  rw [waiting_concat, all]

private theorem ofSpans_delays_concat_of_none (coversNone : ∀ index, coveredAt? index [c] = none)
    (calls : List Call) :
    SpanStats.ofSpans (delays (calls ++ [c])) = .ofSpans (delays calls) := by
  have nothing : (waiting calls).filterMap (fun e => (coveredAt? e.1 [c]).map (· - e.2)) = [] :=
    List.filterMap_eq_nil_iff.2 fun e _ => by rw [coversNone, Option.map_none]
  have perm := delays_concat calls c
  rw [nothing, List.append_nil] at perm
  exact SpanStats.ofSpans_perm perm

private theorem waiting_concat_committed (calls : List Call) (index : CheckpointIndex)
    (now : Instant) :
    waiting (calls ++ [committed index now]) = (waiting calls).filter (index < ·.1) := by
  have rest : ∀ e : CheckpointIndex × Instant,
      (coveredAt? e.1 [committed index now]).isNone = decide (index < e.1) := by
    intro e
    by_cases covers : e.1 ≤ index
    · have below : ¬index < e.1 := Nat.not_lt.2 covers
      rw [coveredAt?, if_pos covers, decide_eq_false below]
      rfl
    · have above : index < e.1 := Nat.lt_of_not_le covers
      rw [coveredAt?, if_neg covers, decide_eq_true above]
      rfl
  rw [waiting_concat, List.filter_congr fun e _ => rest e]
  exact List.append_nil _

private theorem delays_concat_committed (calls : List Call) (index : CheckpointIndex)
    (now : Instant) :
    (delays (calls ++ [committed index now])).Perm
      (delays calls ++ ((waiting calls).filter (·.1 ≤ index)).map (now - ·.2)) := by
  have front : (waiting calls).filterMap
        (fun e => (coveredAt? e.1 [committed index now]).map (· - e.2)) =
      ((waiting calls).filter (·.1 ≤ index)).map (now - ·.2) := by
    rw [← List.filterMap_eq_map, List.filterMap_filter]
    refine List.filterMap_congr fun e _ => ?_
    by_cases covers : e.1 ≤ index
    · rw [coveredAt?, if_pos covers, if_pos (decide_eq_true covers)]
      rfl
    · rw [coveredAt?, if_neg covers, decide_eq_false covers]
      rfl
  rw [← front]
  exact delays_concat calls (committed index now)

private theorem checkpoints_concat (calls : List Call) (c : Call) :
    checkpoints (calls ++ [c]) = checkpoints calls ++ c.checkpoint?.toList := by
  rw [checkpoints, List.filterMap_append, checkpoints]
  cases c <;> rfl

private theorem waiting_sublist (calls : List Call) :
    (waiting calls).Sublist (checkpoints calls) := by
  induction calls with
  | nil => exact .refl []
  | cons first calls ih =>
    cases first with
    | record now => exact ih
    | committed last now => exact ih
    | emitted index now =>
      rw [waiting]
      split
      · exact ih.cons_cons (index, now)
      · exact ih.cons (index, now)

private theorem length_waiting_add_length_delays (calls : List Call) :
    (waiting calls).length + (delays calls).length = (checkpoints calls).length := by
  induction calls with
  | nil => rfl
  | cons first calls ih =>
    cases first with
    | record now => exact ih
    | committed last now => exact ih
    | emitted index now =>
      have longer : (checkpoints (emitted index now :: calls)).length =
          (checkpoints calls).length + 1 := rfl
      rw [waiting, delays, longer, ← ih]
      cases coveredAt? index calls with
      | none =>
        rw [if_pos Option.isNone_none]
        exact Nat.add_right_comm _ 1 _
      | some covered => exact (Nat.add_assoc _ _ 1).symm

end Call

private theorem overruns_iff (capacity : Count) (before : List Call) :
    Overruns capacity before ↔ capacity < timesCost ((Call.waiting before).length + 1) := by
  have product : (timesCost ((Call.waiting before).length + 1)).toNat =
      min (min ((Call.waiting before).length + 1) Count.limit * 24) Count.limit := rfl
  rw [Overruns, Count.lt_def, product]
  omega

/-- Only at the largest limit does it matter that the product stays there. -/
private theorem overruns_iff_of_fits {before : List Call}
    (fits : capacity.toNat < Count.limit ∨
      24 * ((Call.waiting before).length + 1) ≤ Count.limit) :
    Overruns capacity before ↔ capacity.toNat < 24 * ((Call.waiting before).length + 1) := by
  rw [Overruns]
  omega

private theorem affords_nil (capacity : Count) : Affords capacity [] := by
  intro before index now first
  have empty := List.prefix_nil.1 first
  exact absurd empty (List.append_ne_nil_of_right_ne_nil before (List.cons_ne_nil _ _))

private theorem affords_concat_iff :
    Affords capacity (calls ++ [c]) ↔
      Affords capacity calls ∧ (c.checkpoint?.isSome → ¬Overruns capacity calls) := by
  constructor
  · intro affords
    refine ⟨fun before index now first => ?_, fun sent => ?_⟩
    · exact affords before index now (first.trans (List.prefix_append calls [c]))
    · cases c with
      | record now => cases sent
      | committed last now => cases sent
      | emitted index now => exact affords calls index now List.prefix_rfl
  · rintro ⟨affords, last⟩ before index now first
    rcases List.prefix_concat_iff.1 first with whole | earlier
    · obtain ⟨rfl, same⟩ := List.append_inj' whole rfl
      cases same
      exact last rfl
    · exact affords before index now earlier

private theorem Numbered.of_concat (numbered : Numbered (calls ++ [c])) : Numbered calls where
  ascending := by
    have ascending := numbered.ascending
    rw [Call.checkpoints_concat] at ascending
    exact (List.pairwise_append.1 ascending).1
  small := fun d mem => numbered.small d (List.mem_append_left [c] mem)

private theorem Numbered.lt_of_mem_waiting (numbered : Numbered (calls ++ [.emitted index now])) :
    ∀ e ∈ Call.waiting calls, e.1 < index := by
  intro e mem
  have ascending := numbered.ascending
  rw [Call.checkpoints_concat] at ascending
  have sent := (Call.waiting_sublist calls).subset mem
  exact (List.pairwise_append.1 ascending).2.2 e sent (index, now) List.mem_cons_self

private theorem Numbered.lt_limit (numbered : Numbered (calls ++ [.committed index now])) :
    index.toNat < Count.limit :=
  numbered.small (.committed index now) List.mem_concat_self index rfl

/-! ### What the times hold -/

private theorem mirrors_ofCapacity (capacity : Count) : (ofCapacity capacity).Mirrors [] :=
  ⟨⟨.empty, rfl, Backlog.toList_empty⟩, rfl⟩

namespace Mirrors

private theorem size_eq (mirrors : l.Mirrors calls) {times : Backlog Instant}
    (held : l.outstanding = some times) : times.size = (Call.waiting calls).length := by
  obtain ⟨same, also, holds⟩ := mirrors.outstanding
  cases held.symm.trans also
  rw [times.size_eq_length, holds]

private theorem record (mirrors : l.Mirrors calls) (now : Instant) :
    (l.record now).Mirrors (calls ++ [.record now]) := by
  obtain ⟨times, held, holds⟩ := mirrors.outstanding
  refine ⟨⟨times, held, ?_⟩, ?_⟩
  · rw [Call.waiting_concat_of_none (fun _ => rfl), holds]
    exact (List.append_nil _).symm
  · rw [Call.ofSpans_delays_concat_of_none fun _ => rfl]
    exact mirrors.delays

private theorem emitted (mirrors : l.Mirrors calls)
    (numbered : Numbered (calls ++ [.emitted index now])) (room : ¬Overruns l.capacity calls) :
    (l.emitted index now).1.Mirrors (calls ++ [.emitted index now]) ∧
      (l.emitted index now).2 = [] := by
  obtain ⟨times, held, holds⟩ := mirrors.outstanding
  have above : ∀ e ∈ times.toList, e.1 < index := holds ▸ numbered.lt_of_mem_waiting
  rw [overruns_iff, ← mirrors.size_eq held] at room
  rw [emitted_of_room held room]
  refine ⟨⟨⟨_, rfl, ?_⟩, ?_⟩, rfl⟩
  · rw [Backlog.toList_insert_of_lt above, Call.waiting_concat_of_none (fun _ => rfl), holds]
    rfl
  · rw [Call.ofSpans_delays_concat_of_none fun _ => rfl]
    exact mirrors.delays

private theorem committed (mirrors : l.Mirrors calls)
    (numbered : Numbered (calls ++ [.committed index now])) :
    (l.committed index now).Mirrors (calls ++ [.committed index now]) := by
  obtain ⟨times, held, holds⟩ := mirrors.outstanding
  rw [committed_of_some held]
  refine ⟨⟨_, rfl, ?_⟩, ?_⟩
  · rw [times.toList_dropBelow_succ numbered.lt_limit, Call.waiting_concat_committed, holds]
  · rw [times.takeBelow_succ numbered.lt_limit, holds, mirrors.delays,
      SpanStats.ofSpans_perm (Call.delays_concat_committed calls index now),
      SpanStats.ofSpans_append]

private theorem longestDelay_timing (mirrors : l.Mirrors calls) :
    l.timing.longestDelay =
      if 0 < (Call.delays calls).length then
        some (Span.seconds ((Call.delays calls).foldl max 0))
      else none := by
  obtain ⟨times, held, -⟩ := mirrors.outstanding
  rw [(timing_of_some held).1, mirrors.delays, SpanStats.longest?_ofSpans]

private theorem meanDelay_timing (mirrors : l.Mirrors calls)
    (sum : (Call.delays calls).sum ≤ Span.limit) (few : (Call.delays calls).length ≤ 0xFFFF_FFFF) :
    l.timing.meanDelay =
      if 0 < (Call.delays calls).length then
        some (Span.seconds ((Call.delays calls).sum / (Call.delays calls).length))
      else none := by
  obtain ⟨times, held, -⟩ := mirrors.outstanding
  rw [(timing_of_some held).2, mirrors.delays, SpanStats.mean?_ofSpans _ sum few]

private theorem emitted_of_overruns (mirrors : l.Mirrors calls)
    (overruns : Overruns l.capacity calls) (index : CheckpointIndex) (now : Instant) :
    (l.emitted index now).1.outstanding = none ∧
      (l.emitted index now).2 = [.delaysAbandoned index (Call.waiting calls).length] := by
  obtain ⟨times, held, -⟩ := mirrors.outstanding
  rw [overruns_iff, ← mirrors.size_eq held] at overruns
  rw [emitted_of_full held overruns, mirrors.size_eq held]
  exact ⟨rfl, rfl⟩

end Mirrors

private theorem perform_of_none (withdrawn : l.outstanding = none) (c : Call) :
    (l.perform c).1.outstanding = .none ∧ (l.perform c).2 = [] := by
  cases c with
  | record now => exact ⟨withdrawn, rfl⟩
  | emitted index now =>
    rw [perform, emitted_of_none withdrawn]
    exact ⟨withdrawn, rfl⟩
  | committed index now =>
    rw [perform, committed_of_none withdrawn]
    exact ⟨withdrawn, rfl⟩

private theorem mirrors_performAll (numbered : Numbered calls) (affords : Affords capacity calls) :
    ((ofCapacity capacity).performAll calls).Mirrors calls ∧
      (ofCapacity capacity).events calls = [] := by
  induction calls using List.reverseRecOn with
  | nil => exact ⟨mirrors_ofCapacity capacity, rfl⟩
  | append_singleton calls c ih =>
    obtain ⟨before, room⟩ := affords_concat_iff.1 affords
    obtain ⟨mirrors, silent⟩ := ih numbered.of_concat before
    rw [performAll_concat, events_concat, silent]
    cases c with
    | record now => exact ⟨mirrors.record now, rfl⟩
    | committed index now => exact ⟨mirrors.committed numbered, rfl⟩
    | emitted index now =>
      refine mirrors.emitted numbered ?_
      rw [capacity_performAll]
      exact room rfl

/-- The times are given up at the first checkpoint for which there is no room. -/
theorem withdrawn_performAll (numbered : Numbered calls) (lacks : ¬Affords capacity calls) :
    ((ofCapacity capacity).performAll calls).outstanding = none ∧
      ∃ before index now, before ++ [.emitted index now] <+: calls ∧
        Affords capacity before ∧ Overruns capacity before ∧
        (ofCapacity capacity).events before = [] ∧
        (ofCapacity capacity).events calls =
          [.delaysAbandoned index (Call.waiting before).length] ∧
        (ofCapacity capacity).events (before ++ [.emitted index now]) =
          (ofCapacity capacity).events calls := by
  induction calls using List.reverseRecOn with
  | nil => exact absurd (affords_nil capacity) lacks
  | append_singleton calls c ih =>
    by_cases affords : Affords capacity calls
    · -- the last call is the one
      obtain ⟨mirrors, silent⟩ := mirrors_performAll numbered.of_concat affords
      have last : c.checkpoint?.isSome ∧ Overruns capacity calls := by
        by_contra room
        exact lacks (affords_concat_iff.2 ⟨affords, not_and.1 room⟩)
      cases c with
      | record now => cases last.1
      | committed index now => cases last.1
      | emitted index now =>
        have overruns : Overruns ((ofCapacity capacity).performAll calls).capacity calls := by
          rw [capacity_performAll]
          exact last.2
        obtain ⟨withdrawn, logged⟩ := mirrors.emitted_of_overruns overruns index now
        rw [performAll_concat]
        refine ⟨withdrawn, calls, index, now, List.prefix_rfl, affords, last.2, silent, ?_, rfl⟩
        rw [events_concat, silent]
        exact logged
    · obtain ⟨withdrawn, before, index, now, first, earlier⟩ := ih numbered.of_concat affords
      obtain ⟨still, silent⟩ := perform_of_none withdrawn c
      have same : (ofCapacity capacity).events (calls ++ [c]) =
          (ofCapacity capacity).events calls := by
        rw [events_concat, silent, List.append_nil]
      rw [performAll_concat, same]
      exact ⟨still, before, index, now, first.trans (List.prefix_append calls [c]), earlier⟩

/-- Whatever the calls are, every checkpoint either waits or has one delay, up to the first
acknowledgement after it that goes as far as its index. As long as there is room, the times that are
held are those of the checkpoints that wait, nothing is logged, and the figures are those of the
delays. At the first checkpoint for which there is no room this is logged, with the number of those
that wait; it is not logged again, and there are no figures any more. -/
theorem delays_observed_once_or_withdrawn (capacity : Count) (calls : List Call)
    (numbered : Numbered calls) :
    let l := (ofCapacity capacity).performAll calls
    let delays := Call.delays calls
    (Call.waiting calls).length + delays.length = (Call.checkpoints calls).length ∧
      (Affords capacity calls →
        (∃ times, l.outstanding = some times ∧ times.toList = Call.waiting calls) ∧
        (ofCapacity capacity).events calls = [] ∧
        (delays = [] → l.timing.longestDelay = none ∧ l.timing.meanDelay = none) ∧
        (delays ≠ [] →
          l.timing.longestDelay = some (Span.seconds (delays.foldl max 0)) ∧
          (delays.length < 2 ^ 32 → delays.sum ≤ Span.limit →
            l.timing.meanDelay = some (Span.seconds (delays.sum / delays.length))))) ∧
      (¬Affords capacity calls →
        l.outstanding = none ∧ l.timing.longestDelay = none ∧ l.timing.meanDelay = none ∧
        ∃ before index now, before ++ [.emitted index now] <+: calls ∧
          Affords capacity before ∧ Overruns capacity before ∧
          (ofCapacity capacity).events before = [] ∧
          (ofCapacity capacity).events calls =
            [.delaysAbandoned index (Call.waiting before).length] ∧
          (ofCapacity capacity).events (before ++ [.emitted index now]) =
            (ofCapacity capacity).events calls) ∧
      ∀ before, capacity.toNat < Count.limit ∨
          24 * ((Call.waiting before).length + 1) ≤ Count.limit →
        (Overruns capacity before ↔
          capacity.toNat < 24 * ((Call.waiting before).length + 1)) := by
  intro l delays
  refine ⟨Call.length_waiting_add_length_delays calls, fun affords => ?_, fun lacks => ?_,
    fun before fits => overruns_iff_of_fits fits⟩
  · obtain ⟨mirrors, silent⟩ := mirrors_performAll numbered affords
    refine ⟨mirrors.outstanding, silent, fun noDelay => ?_, fun nonempty => ⟨?_, fun few sum => ?_⟩⟩
    · have nothing : Call.delays calls = [] := noDelay
      have sum : (Call.delays calls).sum ≤ Span.limit := by
        rw [nothing]
        exact Nat.zero_le Span.limit
      have few : (Call.delays calls).length ≤ 0xFFFF_FFFF := by
        rw [nothing]
        exact Nat.zero_le _
      rw [mirrors.longestDelay_timing, mirrors.meanDelay_timing sum few, nothing]
      exact ⟨rfl, rfl⟩
    · rw [mirrors.longestDelay_timing, if_pos (List.length_pos_iff.2 nonempty)]
    · rw [mirrors.meanDelay_timing sum (Nat.le_of_lt_succ few),
        if_pos (List.length_pos_iff.2 nonempty)]
  · obtain ⟨withdrawn, first⟩ := withdrawn_performAll numbered lacks
    obtain ⟨longest, mean⟩ := timing_of_none withdrawn
    exact ⟨withdrawn, longest, mean, first⟩

/-- An acknowledgement of an index between those of checkpoints, later ones that go back or come
before their checkpoint by the clock, and then one checkpoint too many. -/
theorem delays_observed_once_or_withdrawn_of_skipped_indices :
    let calls : List Call := [.committed 9 0, .emitted 2 5000000000, .emitted 4 1000000000,
      .committed 3 8000000000, .committed 1 9000000000, .committed 9 0, .emitted 10 0,
      .emitted 12 7000000000]
    let more := calls ++ [.emitted 13 8000000000, .committed 13 9000000000]
    let l := (ofCapacity 48).performAll calls
    let after := (ofCapacity 48).performAll more
    Numbered calls ∧ Affords 48 calls ∧ Call.delays calls = [3000000000, 0] ∧
      l.timing.longestDelay = some 3 ∧ l.timing.meanDelay = some 1 ∧
      Numbered more ∧ ¬Affords 48 more ∧
      (ofCapacity 48).events more = [.delaysAbandoned 13 2] ∧
      after.timing.longestDelay = none ∧ after.timing.meanDelay = none := by
  intro calls more l after
  have numbered : Numbered calls := ⟨by decide, by decide⟩
  have numberedMore : Numbered more := ⟨by decide, by decide⟩
  obtain ⟨-, figures, withdrawn, -⟩ := delays_observed_once_or_withdrawn 48 calls numbered
  obtain ⟨-, -, withdrawnMore, -⟩ := delays_observed_once_or_withdrawn 48 more numberedMore
  have affords : Affords 48 calls := by
    by_contra lacks
    have held : l.outstanding ≠ none := by decide
    exact held (withdrawn lacks).1
  have lacks : ¬Affords 48 more := by
    intro affords
    exact affords calls 13 8000000000 ⟨[.committed 13 9000000000], rfl⟩ (by decide)
  have delays : Call.delays calls = [3000000000, 0] := by decide
  obtain ⟨-, -, -, reported⟩ := figures affords
  rw [delays] at reported
  obtain ⟨longest, mean⟩ := reported (List.cons_ne_nil _ _)
  obtain ⟨-, longestGone, meanGone, -⟩ := withdrawnMore lacks
  have longestSeconds : Span.seconds ([3000000000, 0].foldl max 0) = 3 := by decide
  have meanSeconds : Span.seconds ([3000000000, 0].sum / 2) = 1 := by decide
  refine ⟨numbered, affords, delays, ?_, ?_, numberedMore, lacks, by decide, longestGone, meanGone⟩
  · exact longest.trans (congrArg some longestSeconds)
  · exact (mean (by decide) (by decide)).trans (congrArg some meanSeconds)

end Latency

end SyncAccounting
