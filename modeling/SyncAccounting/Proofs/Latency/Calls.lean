import SyncAccounting.Proofs.Spans

/-!
The times as a machine that takes calls: records, checkpoints and acknowledgements, with any indices
and at any times. The gaps and the delays that are held are those that the calls ended, in order.
-/

set_option autoImplicit false

namespace SyncAccounting

namespace Latency

inductive Call where
  | record (now : Instant)
  | emitted (index : CheckpointIndex) (now : Instant)
  | committed (index : CheckpointIndex) (now : Instant)

def perform (l : Latency) : Call → Latency × List Event
  | .record now => (l.record now, [])
  | .emitted index now => l.emitted index now
  | .committed index now => (l.committed index now, [])

def performAll (l : Latency) (calls : List Call) : Latency :=
  calls.foldl (fun l c => (l.perform c).1) l

def collect {α : Type} (gives : Latency → Call → List α) (l : Latency) : List Call → List α
  | [] => []
  | c :: calls => gives l c ++ collect gives (l.perform c).1 calls

def events (l : Latency) (calls : List Call) : List Event :=
  l.collect (fun l c => (l.perform c).2) calls

def gapsAt (l : Latency) : Call → List Span
  | .emitted _ now => ((l.lastCheckpoint.or l.firstRecord).map (now - ·)).toList
  | .record _ | .committed _ _ => []

def delaysAt (l : Latency) : Call → List Span
  | .committed index now =>
    l.outstanding.elim [] fun waiting => (waiting.takeBelow index.succ).map (now - ·.2)
  | .record _ | .emitted _ _ => []

def gapsOver (l : Latency) (calls : List Call) : List Span := l.collect gapsAt calls

def delaysOver (l : Latency) (calls : List Call) : List Span := l.collect delaysAt calls

variable {l : Latency} {index : CheckpointIndex} {now : Instant}

theorem performAll_concat (l : Latency) (calls : List Call) (c : Call) :
    l.performAll (calls ++ [c]) = ((l.performAll calls).perform c).1 := by
  simp only [performAll, List.foldl_append, List.foldl_cons, List.foldl_nil]

private theorem collect_concat {α : Type} (gives : Latency → Call → List α) (l : Latency)
    (calls : List Call) (c : Call) :
    l.collect gives (calls ++ [c]) = l.collect gives calls ++ gives (l.performAll calls) c := by
  induction calls generalizing l with
  | nil => exact List.append_nil _
  | cons first calls ih =>
    rw [List.cons_append, collect, ih, collect, List.append_assoc]
    rfl

theorem events_concat (l : Latency) (calls : List Call) (c : Call) :
    l.events (calls ++ [c]) = l.events calls ++ ((l.performAll calls).perform c).2 :=
  collect_concat _ l calls c

theorem gapsOver_concat (l : Latency) (calls : List Call) (c : Call) :
    l.gapsOver (calls ++ [c]) = l.gapsOver calls ++ (l.performAll calls).gapsAt c :=
  collect_concat _ l calls c

theorem delaysOver_concat (l : Latency) (calls : List Call) (c : Call) :
    l.delaysOver (calls ++ [c]) = l.delaysOver calls ++ (l.performAll calls).delaysAt c :=
  collect_concat _ l calls c

/-! ### What a call does -/

theorem emitted_of_none (withdrawn : l.outstanding = none) :
    l.emitted index now = (l.closeGap now, []) := by
  have still : (l.closeGap now).outstanding = .none := withdrawn
  simp only [emitted, still]

/-- With too many times, those of the checkpoints that wait are given up. -/
theorem emitted_of_full {waiting : Backlog Instant} (held : l.outstanding = some waiting)
    (full : l.capacity < timesCost (waiting.size + 1)) :
    l.emitted index now =
      ({ l.closeGap now with outstanding := none }, [.delaysAbandoned index waiting.size]) := by
  have still : (l.closeGap now).outstanding = some waiting := held
  have limit : (l.closeGap now).capacity = l.capacity := rfl
  simp only [emitted, still, limit, if_pos full]

theorem emitted_of_room {waiting : Backlog Instant} (held : l.outstanding = some waiting)
    (room : ¬l.capacity < timesCost (waiting.size + 1)) :
    l.emitted index now =
      ({ l.closeGap now with outstanding := some (waiting.insert index now) }, []) := by
  have still : (l.closeGap now).outstanding = some waiting := held
  have limit : (l.closeGap now).capacity = l.capacity := rfl
  simp only [emitted, still, limit, if_neg room]

theorem committed_of_none (withdrawn : l.outstanding = none) : l.committed index now = l := by
  simp only [committed, withdrawn]

theorem committed_of_some {waiting : Backlog Instant} (held : l.outstanding = some waiting) :
    l.committed index now =
      { l with
        outstanding := some (waiting.dropBelow index.succ)
        delays := ((waiting.takeBelow index.succ).map (now - ·.2)).foldl
          (fun s span => s.observe (min span Span.limit)) l.delays } := by
  simp only [committed, held, List.foldl_map]
  rfl

private theorem gaps_emitted (l : Latency) (index : CheckpointIndex) (now : Instant) :
    (l.emitted index now).1.gaps = (l.closeGap now).gaps := by
  cases held : l.outstanding with
  | none => rw [emitted_of_none held]
  | some waiting =>
    by_cases full : l.capacity < timesCost (waiting.size + 1)
    · rw [emitted_of_full held full]
    · rw [emitted_of_room held full]

private theorem delays_emitted (l : Latency) (index : CheckpointIndex) (now : Instant) :
    (l.emitted index now).1.delays = l.delays := by
  cases held : l.outstanding with
  | none =>
    rw [emitted_of_none held]
    rfl
  | some waiting =>
    by_cases full : l.capacity < timesCost (waiting.size + 1)
    · rw [emitted_of_full held full]
      rfl
    · rw [emitted_of_room held full]
      rfl

private theorem gaps_committed (l : Latency) (index : CheckpointIndex) (now : Instant) :
    (l.committed index now).gaps = l.gaps := by
  cases held : l.outstanding with
  | none => rw [committed_of_none held]
  | some waiting => rw [committed_of_some held]

theorem capacity_emitted (l : Latency) (index : CheckpointIndex) (now : Instant) :
    (l.emitted index now).1.capacity = l.capacity := by
  cases held : l.outstanding with
  | none =>
    rw [emitted_of_none held]
    rfl
  | some waiting =>
    by_cases full : l.capacity < timesCost (waiting.size + 1)
    · rw [emitted_of_full held full]
      rfl
    · rw [emitted_of_room held full]
      rfl

theorem capacity_committed (l : Latency) (index : CheckpointIndex) (now : Instant) :
    (l.committed index now).capacity = l.capacity := by
  cases held : l.outstanding with
  | none => rw [committed_of_none held]
  | some waiting => rw [committed_of_some held]

theorem capacity_perform (l : Latency) (c : Call) : (l.perform c).1.capacity = l.capacity := by
  cases c with
  | record now => rfl
  | emitted index now => exact capacity_emitted l index now
  | committed index now => exact capacity_committed l index now

theorem capacity_performAll (l : Latency) (calls : List Call) :
    (l.performAll calls).capacity = l.capacity := by
  induction calls using List.reverseRecOn with
  | nil => rfl
  | append_singleton calls c ih => rw [performAll_concat, capacity_perform, ih]

/-! ### What is reported of delays -/

theorem timing_of_some {waiting : Backlog Instant} (held : l.outstanding = some waiting) :
    l.timing.longestDelay = l.delays.longest? ∧ l.timing.meanDelay = l.delays.mean? := by
  simp only [timing, held, Option.bind_some, and_self]

theorem timing_of_none (withdrawn : l.outstanding = none) :
    l.timing.longestDelay = .none ∧ l.timing.meanDelay = .none := by
  simp only [timing, withdrawn, Option.bind_none, and_self]

/-! ### What several calls leave -/

private theorem gaps_perform (l : Latency) (c : Call) :
    (l.perform c).1.gaps =
      (l.gapsAt c).foldl (fun s span => s.observe (min span Span.limit)) l.gaps := by
  cases c with
  | record now => rfl
  | emitted index now =>
    rw [perform, gaps_emitted, closeGap, gapsAt]
    cases l.lastCheckpoint.or l.firstRecord <;> rfl
  | committed index now => exact gaps_committed l index now

private theorem delays_perform (l : Latency) (c : Call) :
    (l.perform c).1.delays =
      (l.delaysAt c).foldl (fun s span => s.observe (min span Span.limit)) l.delays := by
  cases c with
  | record now => rfl
  | emitted index now => exact delays_emitted l index now
  | committed index now =>
    cases held : l.outstanding with
    | none =>
      rw [perform, committed_of_none held, delaysAt, held]
      rfl
    | some waiting =>
      rw [perform, committed_of_some held, delaysAt, held]
      rfl

theorem gaps_performAll (capacity : Count) (calls : List Call) :
    ((ofCapacity capacity).performAll calls).gaps =
      .ofSpans ((ofCapacity capacity).gapsOver calls) := by
  induction calls using List.reverseRecOn with
  | nil => rfl
  | append_singleton calls c ih =>
    rw [performAll_concat, gaps_perform, ih, gapsOver_concat, SpanStats.ofSpans_append]

theorem delays_performAll (capacity : Count) (calls : List Call) :
    ((ofCapacity capacity).performAll calls).delays =
      .ofSpans ((ofCapacity capacity).delaysOver calls) := by
  induction calls using List.reverseRecOn with
  | nil => rfl
  | append_singleton calls c ih =>
    rw [performAll_concat, delays_perform, ih, delaysOver_concat, SpanStats.ofSpans_append]

end Latency

end SyncAccounting
