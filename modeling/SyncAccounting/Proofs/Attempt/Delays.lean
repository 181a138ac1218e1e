import Mathlib.Algebra.Order.BigOperators.Group.List
import Mathlib.Algebra.Order.Ring.Nat
import Mathlib.Data.List.GetD
import SyncAccounting.Proofs.FailureCondition
import SyncAccounting.Proofs.Latency.Calls

/-!
The times that a healthy attempt holds. There is one for each checkpoint that waits, and every
acknowledgement has left the delay of its checkpoint. The memory for times never runs out first: a
time takes less than the snapshot of its checkpoint does, and both have the same limit.
-/

set_option autoImplicit false

namespace SyncAccounting

variable {h : History} {i : Instant × Attempt.Input}

namespace History

def times (sort : Attempt.Input → Option Checkpoint) (h : History) : List Instant :=
  (h.filter fun i => (sort i.2).isSome).map Prod.fst

def checkpointTime (h : History) (k : Nat) : Instant := (h.times (·.checkpoint?)).getD k 0

def acknowledgementTime (h : History) (k : Nat) : Instant := (h.times (·.acknowledgement?)).getD k 0

def delay (h : History) (k : Nat) : Span := h.acknowledgementTime k - h.checkpointTime k

def longestDelay (h : History) : Span :=
  ((List.range h.acknowledgements.length).map h.delay).foldl max 0

def Chronological (h : History) : Prop := h.Pairwise fun i j => i.1 ≤ j.1

instance (h : History) : Decidable h.Chronological :=
  inferInstanceAs (Decidable (h.Pairwise fun i j => i.1 ≤ j.1))

/-! ### One more time -/

section Times

variable {sort : Attempt.Input → Option Checkpoint}

theorem length_times (sort : Attempt.Input → Option Checkpoint) (h : History) :
    (h.times sort).length = (h.filterMap fun i => sort i.2).length := by
  rw [times, List.length_map, List.length_filterMap_eq_countP, List.countP_eq_length_filter]

theorem times_concat (h : History) :
    times sort (h ++ [i]) = h.times sort ++ if (sort i.2).isSome then [i.1] else [] := by
  rw [times, List.filter_append, List.map_append, times]
  cases sent : (sort i.2).isSome <;> simp [sent]

private theorem times_concat_of_lt {k : Nat} (hk : k < (h.times sort).length) :
    (times sort (h ++ [i])).getD k 0 = (h.times sort).getD k 0 := by
  rw [times_concat, List.getD_append _ _ _ _ hk]

private theorem times_concat_self {k : Nat} (sent : (sort i.2).isSome)
    (hk : (h.times sort).length = k) : (times sort (h ++ [i])).getD k 0 = i.1 := by
  rw [times_concat, if_pos sent, List.getD_append_right _ _ _ _ (Nat.le_of_eq hk), hk,
    Nat.sub_self]
  rfl

end Times

private theorem checkpointTime_concat_of_lt {k : Nat} (hk : k < h.checkpoints.length) :
    checkpointTime (h ++ [i]) k = h.checkpointTime k :=
  times_concat_of_lt (by rwa [length_times])

private theorem checkpointTime_concat_of_checkpoint {c : Checkpoint}
    (sent : i.2.checkpoint? = some c) :
    checkpointTime (h ++ [i]) h.checkpoints.length = i.1 :=
  times_concat_self (Option.isSome_of_eq_some sent) (length_times _ h)

private theorem checkpointTime_le_of_chronological (chronological : Chronological (h ++ [i]))
    {k : Nat} (hk : k < (checkpoints (h ++ [i])).length) : checkpointTime (h ++ [i]) k ≤ i.1 := by
  have position : k < (times (·.checkpoint?) (h ++ [i])).length := by rwa [length_times]
  have mem : checkpointTime (h ++ [i]) k ∈ times (·.checkpoint?) (h ++ [i]) := by
    rw [checkpointTime, List.getD_eq_getElem _ _ position]
    exact List.getElem_mem position
  obtain ⟨j, sent, same⟩ := List.mem_map.1 mem
  rw [← same]
  rcases List.mem_append.1 (List.mem_filter.1 sent).1 with earlier | last
  · exact (List.pairwise_append.1 chronological).2.2 j earlier i (List.mem_singleton_self i)
  · rw [List.mem_singleton.1 last]

private theorem acknowledgementTime_concat_of_lt {k : Nat} (hk : k < h.acknowledgements.length) :
    acknowledgementTime (h ++ [i]) k = h.acknowledgementTime k :=
  times_concat_of_lt (by rwa [length_times])

private theorem acknowledgementTime_concat_of_acknowledgement {c : Checkpoint}
    (sent : i.2.acknowledgement? = some c) :
    acknowledgementTime (h ++ [i]) h.acknowledgements.length = i.1 :=
  times_concat_self (Option.isSome_of_eq_some sent) (length_times _ h)

private theorem delay_concat_of_lt {k : Nat}
    (ordered : h.acknowledgements.length ≤ h.checkpoints.length)
    (hk : k < h.acknowledgements.length) : delay (h ++ [i]) k = h.delay k := by
  rw [delay, acknowledgementTime_concat_of_lt hk, checkpointTime_concat_of_lt (by omega), delay]

private theorem longestDelay_concat_of_none (noAcknowledgement : i.2.acknowledgement? = none)
    (ordered : h.acknowledgements.length ≤ h.checkpoints.length) :
    longestDelay (h ++ [i]) = h.longestDelay := by
  rw [longestDelay, acknowledgements_concat_of_none noAcknowledgement, longestDelay]
  refine congrArg _ (List.map_congr_left fun k hk => ?_)
  rw [delay_concat_of_lt ordered (List.mem_range.1 hk)]

private theorem longestDelay_concat_of_acknowledgement {c : Checkpoint}
    (sent : i.2.acknowledgement? = some c)
    (behind : h.acknowledgements.length < h.checkpoints.length) :
    longestDelay (h ++ [i]) =
      max h.longestDelay (i.1 - h.checkpointTime h.acknowledgements.length) := by
  have last : delay (h ++ [i]) h.acknowledgements.length =
      i.1 - h.checkpointTime h.acknowledgements.length := by
    rw [delay, acknowledgementTime_concat_of_acknowledgement sent,
      checkpointTime_concat_of_lt behind]
  have earlier : (List.range h.acknowledgements.length).map (delay (h ++ [i])) =
      (List.range h.acknowledgements.length).map h.delay :=
    List.map_congr_left fun k hk =>
      delay_concat_of_lt (Nat.le_of_lt behind) (List.mem_range.1 hk)
  rw [longestDelay, length_acknowledgements_concat sent, List.range_succ, List.map_append,
    List.foldl_append, earlier, List.map_singleton, last]
  rfl

private theorem timesCost_le (h : History) {limit : Count} (fits : h.waitingCost ≤ limit.toNat) :
    Latency.timesCost h.waiting.length ≤ limit := by
  have least : ∀ cost ∈ h.waiting.map fun k => (h.windowCost k).toNat, 40 ≤ cost := by
    intro cost mem
    obtain ⟨k, -, rfl⟩ := List.mem_map.1 mem
    exact Count.le_add_right 40 _
  have total := List.card_nsmul_le_sum _ _ least
  rw [List.length_map, Nat.nsmul_eq_mul] at total
  have headers : h.waiting.length * 40 ≤ limit.toNat := Nat.le_trans total fits
  have product : (Latency.timesCost h.waiting.length).toNat =
      min (min h.waiting.length Count.limit * 24) Count.limit := rfl
  rw [Count.le_def, product]
  omega

end History

namespace Latency

structure Reflects (l : Latency) (h : History) : Prop where
  outstanding : ∃ times, l.outstanding = some times ∧
    times.toList = h.waiting.map fun k => (Count.ofNat k, h.checkpointTime k)
  longest : l.delays.longest = min h.longestDelay Span.limit
  count : l.delays.count = min h.acknowledgements.length 0xFFFF_FFFF

variable {l : Latency}

private theorem reflects_ofCapacity (capacity : Count) : (ofCapacity capacity).Reflects [] :=
  ⟨⟨.empty, rfl, Backlog.toList_empty⟩, rfl, rfl⟩

namespace Reflects

private theorem idle (reflects : l.Reflects h)
    (ordered : h.acknowledgements.length ≤ h.checkpoints.length)
    (noCheckpoint : i.2.checkpoint? = none) (noAcknowledgement : i.2.acknowledgement? = none) :
    l.Reflects (h ++ [i]) := by
  obtain ⟨times, held, holds⟩ := reflects.outstanding
  refine ⟨⟨times, held, ?_⟩, ?_, ?_⟩
  · rw [History.waiting_concat_of_none noCheckpoint noAcknowledgement, holds]
    refine List.map_congr_left fun k hk => ?_
    rw [History.checkpointTime_concat_of_lt ((History.mem_waiting h k).1 hk).2]
  · rw [History.longestDelay_concat_of_none noAcknowledgement ordered]
    exact reflects.longest
  · rw [History.acknowledgements_concat_of_none noAcknowledgement]
    exact reflects.count

private theorem record (reflects : l.Reflects h) (now : Instant) : (l.record now).Reflects h :=
  ⟨reflects.outstanding, reflects.longest, reflects.count⟩

private theorem emitted (reflects : l.Reflects h) (countable : h.Countable)
    (ordered : h.acknowledgements.length ≤ h.checkpoints.length) {c : Checkpoint}
    (sent : i.2.checkpoint? = some c) (noAcknowledgement : i.2.acknowledgement? = none)
    (room : timesCost (History.waiting (h ++ [i])).length ≤ l.capacity) :
    (l.emitted (.ofNat h.checkpoints.length) i.1).1.Reflects (h ++ [i]) := by
  obtain ⟨times, held, holds⟩ := reflects.outstanding
  have longer := History.waiting_concat_of_checkpoint sent noAcknowledgement ordered
  have size : (History.waiting (h ++ [i])).length = times.size + 1 := by
    rw [longer, List.length_append, List.length_singleton, times.size_eq_length, holds,
      List.length_map]
  rw [size] at room
  rw [emitted_of_room held (Nat.not_lt.2 room)]
  refine ⟨⟨_, rfl, ?_⟩, ?_, ?_⟩
  · rw [Backlog.toList_insert_waiting holds countable, holds, longer, List.map_append,
      List.map_singleton, History.checkpointTime_concat_of_checkpoint sent]
    refine congrArg (· ++ _) (List.map_congr_left fun k hk => ?_)
    rw [History.checkpointTime_concat_of_lt ((History.mem_waiting h k).1 hk).2]
  · rw [History.longestDelay_concat_of_none noAcknowledgement ordered]
    exact reflects.longest
  · rw [History.acknowledgements_concat_of_none noAcknowledgement]
    exact reflects.count

private theorem committed (reflects : l.Reflects h) (countable : h.Countable) {c : Checkpoint}
    (sent : i.2.acknowledgement? = some c) (noCheckpoint : i.2.checkpoint? = none)
    (behind : h.acknowledgements.length < h.checkpoints.length) :
    (l.committed (.ofNat h.acknowledgements.length) i.1).Reflects (h ++ [i]) := by
  obtain ⟨times, held, holds⟩ := reflects.outstanding
  obtain ⟨oldest, rest⟩ := Backlog.cut_waiting holds countable sent noCheckpoint behind
  rw [committed_of_some held, oldest]
  refine ⟨⟨_, rfl, ?_⟩, ?_, ?_⟩
  · rw [rest]
    refine List.map_congr_left fun k hk => ?_
    have bound := ((History.mem_waiting _ k).1 hk).2
    rw [History.checkpoints_concat_of_none noCheckpoint] at bound
    rw [History.checkpointTime_concat_of_lt bound]
  · rw [History.longestDelay_concat_of_acknowledgement sent behind]
    rw [min_max_distrib_right, ← reflects.longest]
    rfl
  · rw [History.length_acknowledgements_concat sent]
    have earlier := reflects.count
    show min (l.delays.count + 1) 0xFFFF_FFFF = _
    omega

theorem longestDelay_timing (reflects : l.Reflects h) :
    l.timing.longestDelay =
      if 0 < h.acknowledgements.length then some h.longestDelay.seconds else none := by
  obtain ⟨times, held, -⟩ := reflects.outstanding
  rw [(timing_of_some held).1, SpanStats.longest?, reflects.longest, Span.seconds_min_limit,
    reflects.count]
  refine if_congr ?_ rfl rfl
  omega

end Reflects

end Latency

namespace Attempt

variable {settings : Settings}

private theorem capacity_latencyAfter (a : Attempt) (now : Instant) (input : Input) :
    (a.latencyAfter now input).capacity = a.latency.capacity := by
  rcases input with ⟨side, m⟩ | _
  · cases side <;> cases m
    case source.checkpoint c => exact Latency.capacity_emitted _ _ _
    case destination.checkpoint c => exact Latency.capacity_committed _ _ _
    all_goals rfl
  · rfl

private theorem capacity_run (settings : Settings) (h : History) :
    (run settings h).attempt.latency.capacity = settings.maxPendingStateBytes := by
  induction h using List.reverseRecOn with
  | nil => rfl
  | append_singleton h i ih => rw [latency_run_concat, capacity_latencyAfter, ih]

/-- The times of a healthy run mirror its history. -/
theorem latency_reflects_run (enabled : settings.commitTrackingEnabled = true)
    (countable : h.Countable) (healthy : (run settings h).attempt.isHealthy = true) :
    (run settings h).attempt.latency.Reflects h := by
  induction h using List.reverseRecOn with
  | nil => exact Latency.reflects_ofCapacity _
  | append_singleton h i ih =>
    have before := isHealthy_of_append enabled healthy
    have reflects := ih countable.of_concat before
    have ordered := length_acknowledgements_le enabled countable.of_concat before
    -- the ledger survived the input, so there is room for a time, or a checkpoint to acknowledge
    have holds := not_breaks_of_isHealthy enabled countable.of_concat healthy
    have sources := sourceCheckpoints_run settings h
    have destinations := destinationCheckpoints_run settings h
    rw [latency_run_concat]
    obtain ⟨now, input⟩ := i
    rcases input with ⟨side, m⟩ | _
    · cases side <;> cases m
      case source.record r => exact (reflects.idle ordered rfl rfl).record now
      case source.checkpoint c =>
        have fits : History.waitingCost (h ++ [(now, .message .source (.checkpoint c))]) ≤
            settings.maxPendingStateBytes.toNat := Nat.not_lt.1 holds
        have room := History.timesCost_le _ fits
        rw [← capacity_run settings h] at room
        rw [latencyAfter, sources]
        exact reflects.emitted countable.of_concat ordered rfl rfl room
      case destination.checkpoint c =>
        have known : (History.acknowledgements (h ++ [(now, .message .destination
            (.checkpoint c))])).length ≤ (History.checkpoints h).length := Nat.not_lt.1 holds
        rw [History.length_acknowledgements_concat rfl] at known
        rw [latencyAfter, destinations]
        exact reflects.committed countable.of_concat rfl rfl known
      all_goals exact reflects.idle ordered rfl rfl
    · exact reflects.idle ordered rfl rfl

theorem checkpointTime_le_acknowledgementTime (enabled : settings.commitTrackingEnabled = true)
    (countable : h.Countable) (healthy : (run settings h).attempt.isHealthy = true)
    (chronological : h.Chronological) :
    ∀ k < h.acknowledgements.length, h.checkpointTime k ≤ h.acknowledgementTime k := by
  induction h using List.reverseRecOn with
  | nil => simp [History.acknowledgements]
  | append_singleton h i ih =>
    intro k hk
    have before := isHealthy_of_append enabled healthy
    have ordered := length_acknowledgements_le enabled countable healthy
    have earlier := length_acknowledgements_le enabled countable.of_concat before
    -- an acknowledgement that is new comes last, so its checkpoint came no later
    by_cases old : k < (History.acknowledgements h).length
    · rw [History.checkpointTime_concat_of_lt (by omega),
        History.acknowledgementTime_concat_of_lt old]
      exact ih countable.of_concat before (List.pairwise_append.1 chronological).1 k old
    · cases sent : i.2.acknowledgement? with
      | none =>
        rw [History.acknowledgements_concat_of_none sent] at hk
        exact absurd hk old
      | some c =>
        have last : k = (History.acknowledgements h).length := by
          rw [History.length_acknowledgements_concat sent] at hk
          omega
        have sooner := History.checkpointTime_le_of_chronological chronological
          (Nat.lt_of_lt_of_le hk ordered)
        rw [last, History.acknowledgementTime_concat_of_acknowledgement sent, ← last]
        exact sooner

end Attempt

end SyncAccounting
