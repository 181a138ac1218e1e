import SyncAccounting.Attempt.Statistics
import SyncAccounting.Proofs.Attempt.Delays

/-!
The gaps between the checkpoints of the source. They are the steps from one mark to the next, where
the marks are the times of the checkpoints and, before these, that of a record which comes before
all of them. Under a clock that never goes back the steps add up to the time from the first mark to
the last one, so that their mean needs no more than these two and their number.
-/

set_option autoImplicit false

namespace SyncAccounting

variable {h : History} {i : Instant × Attempt.Input}

namespace Instant

def steps : List Instant → List Span
  | now :: next :: rest => (next - now) :: steps (next :: rest)
  | _ => []

private theorem length_steps (marks : List Instant) : (steps marks).length = marks.length - 1 := by
  fun_induction steps marks with
  | case1 now next rest ih => simp [ih]
  | case2 marks short =>
    match marks, short with
    | [], _ => rfl
    | [_], _ => rfl
    | now :: next :: rest, short => exact absurd rfl (short now next rest)

private theorem steps_concat (marks : List Instant) (now : Instant) :
    steps (marks ++ [now]) = steps marks ++ (marks.getLast?.map (now - ·)).toList := by
  induction marks with
  | nil => rfl
  | cons first rest ih =>
    cases rest with
    | nil => rfl
    | cons next rest =>
      rw [List.getLast?_cons_cons]
      exact congrArg ((next - first) :: ·) ih

private theorem getLast?_eq_add_sum_steps (first : Instant) (rest : List Instant)
    (ascending : (first :: rest).Pairwise (· ≤ ·)) :
    (first :: rest).getLast? = some (first + (steps (first :: rest)).sum) := by
  induction rest generalizing first with
  | nil => rfl
  | cons next rest ih =>
    obtain ⟨least, later⟩ := List.pairwise_cons.1 ascending
    have sooner := least next List.mem_cons_self
    have total : next + (steps (next :: rest)).sum =
        first + (steps (first :: next :: rest)).sum := by
      calc next + (steps (next :: rest)).sum
          = first + (next - first) + (steps (next :: rest)).sum := by
            rw [Nat.add_sub_cancel' sooner]
        _ = first + (steps (first :: next :: rest)).sum := Nat.add_assoc _ _ _
    rw [List.getLast?_cons_cons, ih next later, total]

end Instant

namespace History

/-- The time of the first record of the source, where it comes before all checkpoints. -/
def openingRecord? : History → Option Instant
  | [] => none
  | (now, .message .source (.record _)) :: _ => some now
  | (_, .message .source (.checkpoint _)) :: _ => none
  | _ :: rest => openingRecord? rest

def marks (h : History) : List Instant := h.openingRecord?.toList ++ h.times (·.checkpoint?)

def gaps (h : History) : List Span := Instant.steps h.marks

/-- Where the first gap starts: at an opening record, else at the first checkpoint. -/
def gapStart (h : History) : Instant := h.openingRecord?.getD (h.checkpointTime 0)

/-- Every checkpoint ends a gap, apart from one with nothing before it. -/
def gapCount (h : History) : Nat :=
  if h.openingRecord?.isSome then h.checkpoints.length else h.checkpoints.length - 1

def lastCheckpointTime (h : History) : Instant := h.checkpointTime (h.checkpoints.length - 1)

def flow (h : History) : History := h.filter fun i => i.2.record?.isSome || i.2.checkpoint?.isSome

private theorem openingRecord?_flow (h : History) : openingRecord? h.flow = h.openingRecord? := by
  induction h with
  | nil => rfl
  | cons i h ih =>
    obtain ⟨now, input⟩ := i
    rcases input with ⟨side, m⟩ | _
    · cases side <;> cases m
      case source.record r => rfl
      case source.checkpoint c => rfl
      all_goals exact ih
    · exact ih

private theorem marks_flow (h : History) : marks h.flow = h.marks := by
  have sent : ∀ i : Instant × Attempt.Input,
      (i.2.checkpoint?.isSome && (i.2.record?.isSome || i.2.checkpoint?.isSome)) =
        i.2.checkpoint?.isSome := fun i => by
    cases i.2.record?.isSome <;> cases i.2.checkpoint?.isSome <;> rfl
  have same : times (·.checkpoint?) h.flow = h.times (·.checkpoint?) := by
    simp only [times, flow, List.filter_filter, sent]
  rw [marks, openingRecord?_flow, same, marks]

private theorem openingRecord?_concat (h : History) (i : Instant × Attempt.Input) :
    openingRecord? (h ++ [i]) =
      h.openingRecord?.or (if h.checkpoints = [] then i.2.record?.map fun _ => i.1 else none) := by
  induction h with
  | nil =>
    obtain ⟨now, input⟩ := i
    rcases input with ⟨side, m⟩ | _
    · cases side <;> cases m <;> rfl
    · rfl
  | cons j h ih =>
    obtain ⟨now, input⟩ := j
    rcases input with ⟨side, m⟩ | _
    · cases side <;> cases m
      case source.record r => rfl
      case source.checkpoint c => rfl
      all_goals exact ih
    · exact ih

private theorem gapCount_le (h : History) : h.gapCount ≤ h.checkpoints.length := by
  rw [gapCount]
  split <;> omega

private theorem length_marks (h : History) :
    h.marks.length = h.openingRecord?.toList.length + h.checkpoints.length := by
  rw [marks, List.length_append, length_times, checkpoints]

private theorem length_gaps (h : History) : h.gaps.length = h.gapCount := by
  rw [gaps, Instant.length_steps, length_marks, gapCount]
  cases h.openingRecord? with
  | none => simp
  | some since => simp

private theorem marks_sublist (h : History) : h.marks.Sublist (h.map Prod.fst) := by
  induction h with
  | nil => exact List.Sublist.slnil
  | cons i h ih =>
    obtain ⟨now, input⟩ := i
    have later : (times (·.checkpoint?) h).Sublist (h.map Prod.fst) := List.filter_sublist.map _
    rcases input with ⟨side, m⟩ | _
    · cases side <;> cases m
      case source.record r => exact later.cons_cons now
      case source.checkpoint c => exact later.cons_cons now
      all_goals exact ih.cons now
    · exact ih.cons now

private theorem pairwise_marks (chronological : h.Chronological) : h.marks.Pairwise (· ≤ ·) :=
  (List.pairwise_map.2 chronological).sublist h.marks_sublist

private theorem getLast?_marks (nonempty : h.checkpoints ≠ []) :
    h.marks.getLast? = .some h.lastCheckpointTime := by
  have position : h.checkpoints.length - 1 < (h.times (·.checkpoint?)).length := by
    rw [length_times]
    exact Nat.sub_one_lt (mt List.length_eq_zero_iff.1 nonempty)
  have last : (h.times (·.checkpoint?)).getLast? = .some h.lastCheckpointTime := by
    rw [List.getLast?_eq_getElem?, length_times, lastCheckpointTime, checkpointTime,
      List.getD_eq_getElem _ _ position]
    exact List.getElem?_eq_getElem position
  rw [marks, List.getLast?_append, last, Option.some_or]

private theorem marks_eq_cons (someGap : 0 < h.gapCount) :
    h.marks = h.gapStart :: h.marks.tail := by
  rw [gapCount] at someGap
  cases opening : h.openingRecord? with
  | some since => simp only [marks, gapStart, opening]; rfl
  | none =>
    rw [opening, Option.isSome_none, if_neg Bool.false_ne_true] at someGap
    have sent : 0 < (h.times (·.checkpoint?)).length := by
      rw [length_times]
      exact Nat.lt_of_lt_of_le someGap (Nat.sub_le _ _)
    simp only [marks, gapStart, opening, Option.toList_none, List.nil_append, Option.getD_none,
      checkpointTime]
    cases times : h.times (·.checkpoint?) with
    | nil =>
      rw [times] at sent
      exact absurd sent (Nat.lt_irrefl 0)
    | cons first rest => rfl

private theorem checkpoints_ne_nil (someGap : 0 < h.gapCount) : h.checkpoints ≠ [] := by
  intro noCheckpoints
  rw [gapCount, noCheckpoints, List.length_nil, ite_self] at someGap
  exact Nat.lt_irrefl 0 someGap

/-- The gaps add up to the time from where the first one starts to the last checkpoint. -/
private theorem sum_gaps (chronological : h.Chronological) (someGap : 0 < h.gapCount) :
    h.gaps.sum = h.lastCheckpointTime - h.gapStart := by
  have ascending := pairwise_marks chronological
  have last := getLast?_marks (checkpoints_ne_nil someGap)
  rw [marks_eq_cons someGap] at ascending last
  rw [Instant.getLast?_eq_add_sum_steps _ _ ascending, ← marks_eq_cons someGap] at last
  rw [← Option.some.inj last, Nat.add_sub_cancel_left]
  rfl

private theorem sum_gaps_le {limit : Span} (fits : ∀ i ∈ h, ∀ j ∈ h, j.1 - i.1 ≤ limit)
    (chronological : h.Chronological) (someGap : 0 < h.gapCount) : h.gaps.sum ≤ limit := by
  have marked : ∀ t ∈ h.marks, ∃ i ∈ h, i.1 = t := fun t mem =>
    List.mem_map.1 (h.marks_sublist.subset mem)
  obtain ⟨i, sent, first⟩ := marked h.gapStart (marks_eq_cons someGap ▸ List.mem_cons_self)
  obtain ⟨j, also, last⟩ := marked h.lastCheckpointTime
    (List.mem_of_getLast? (getLast?_marks (checkpoints_ne_nil someGap)))
  rw [sum_gaps chronological someGap, ← first, ← last]
  exact fits i sent j also

/-! ### One more input -/

private theorem times_concat_of_none (noCheckpoint : i.2.checkpoint? = none) :
    times (·.checkpoint?) (h ++ [i]) = h.times (·.checkpoint?) := by
  rw [times_concat, noCheckpoint]
  exact List.append_nil _

private theorem marks_concat_of_checkpoint {c : Checkpoint} (sent : i.2.checkpoint? = some c)
    (noRecord : i.2.record? = none) : marks (h ++ [i]) = h.marks ++ [i.1] := by
  rw [marks, openingRecord?_concat, times_concat, sent, noRecord, Option.map_none, ite_self,
    Option.or_none, ← List.append_assoc]
  rfl

/-- A record makes a mark where it is the first one and no checkpoint has come: it ends no gap. -/
private theorem gaps_concat_of_none (noCheckpoint : i.2.checkpoint? = none) :
    gaps (h ++ [i]) = h.gaps := by
  rw [gaps, gaps, marks, marks, times_concat_of_none noCheckpoint, openingRecord?_concat]
  cases opening : h.openingRecord? with
  | some since => rfl
  | none =>
    by_cases noCheckpoints : h.checkpoints = []
    · have nothing : h.times (·.checkpoint?) = [] := by
        rw [← List.length_eq_zero_iff, length_times]
        exact List.length_eq_zero_iff.2 noCheckpoints
      rw [if_pos noCheckpoints, nothing]
      cases i.2.record? <;> rfl
    · rw [if_neg noCheckpoints]
      rfl

end History

namespace Latency

structure Measures (l : Latency) (h : History) : Prop where
  lastCheckpoint : l.lastCheckpoint = (h.times (·.checkpoint?)).getLast?
  firstRecord : h.checkpoints = [] → l.firstRecord = h.openingRecord?
  gaps : l.gaps = .ofSpans h.gaps

variable {l : Latency}

private theorem measures_ofCapacity (capacity : Count) : (ofCapacity capacity).Measures [] :=
  ⟨rfl, fun _ => rfl, rfl⟩

namespace Measures

private theorem since (measures : l.Measures h) :
    l.lastCheckpoint.or l.firstRecord = h.marks.getLast? := by
  rw [History.marks, List.getLast?_append, measures.lastCheckpoint]
  cases last : (h.times (·.checkpoint?)).getLast? with
  | some now => rfl
  | none =>
    have noCheckpoints : h.checkpoints = [] := by
      rw [← List.length_eq_zero_iff, History.checkpoints, ← History.length_times,
        List.getLast?_eq_none_iff.1 last, List.length_nil]
    rw [measures.firstRecord noCheckpoints]
    cases h.openingRecord? <;> rfl

private theorem idle (measures : l.Measures h) (noRecord : i.2.record? = none)
    (noCheckpoint : i.2.checkpoint? = none) : l.Measures (h ++ [i]) where
  lastCheckpoint := by
    rw [History.times_concat_of_none noCheckpoint]
    exact measures.lastCheckpoint
  firstRecord := fun noCheckpoints => by
    rw [History.checkpoints_concat_of_none noCheckpoint] at noCheckpoints
    rw [History.openingRecord?_concat, noRecord, Option.map_none, ite_self, Option.or_none]
    exact measures.firstRecord noCheckpoints
  gaps := by
    rw [History.gaps_concat_of_none noCheckpoint]
    exact measures.gaps

private theorem record (measures : l.Measures h) {r : RecordMessage} (sent : i.2.record? = some r)
    (noCheckpoint : i.2.checkpoint? = none) : (l.record i.1).Measures (h ++ [i]) where
  lastCheckpoint := by
    rw [History.times_concat_of_none noCheckpoint]
    exact measures.lastCheckpoint
  firstRecord := fun noCheckpoints => by
    rw [History.checkpoints_concat_of_none noCheckpoint] at noCheckpoints
    rw [History.openingRecord?_concat, if_pos noCheckpoints, sent,
      ← measures.firstRecord noCheckpoints]
    rfl
  gaps := by
    rw [History.gaps_concat_of_none noCheckpoint]
    exact measures.gaps

private theorem closeGap (measures : l.Measures h) {c : Checkpoint}
    (sent : i.2.checkpoint? = some c) (noRecord : i.2.record? = none) :
    (l.closeGap i.1).Measures (h ++ [i]) where
  lastCheckpoint := by
    rw [History.times_concat, if_pos (Option.isSome_of_eq_some sent), List.getLast?_concat]
    rfl
  firstRecord := fun noCheckpoints => by
    have longer := History.length_checkpoints_concat sent (h := h)
    rw [noCheckpoints] at longer
    cases longer
  gaps := by
    rw [History.gaps, History.marks_concat_of_checkpoint sent noRecord, Instant.steps_concat,
      ← measures.since]
    cases since : l.lastCheckpoint.or l.firstRecord with
    | none =>
      simp only [Latency.closeGap, since]
      exact measures.gaps.trans (congrArg SpanStats.ofSpans (List.append_nil _).symm)
    | some since' =>
      simp only [Latency.closeGap, since, measures.gaps]
      exact (SpanStats.ofSpans_concat _ _).symm

/-- Whether there is room for one more time is asked after the gap. -/
private theorem emitted (measures : l.Measures h) {c : Checkpoint} (sent : i.2.checkpoint? = some c)
    (noRecord : i.2.record? = none) (index : CheckpointIndex) :
    (l.emitted index i.1).1.Measures (h ++ [i]) := by
  have closed := measures.closeGap sent noRecord
  cases held : l.outstanding with
  | none =>
    rw [emitted_of_none held]
    exact closed
  | some waiting =>
    by_cases full : l.capacity < timesCost (waiting.size + 1)
    · rw [emitted_of_full held full]
      exact ⟨closed.lastCheckpoint, closed.firstRecord, closed.gaps⟩
    · rw [emitted_of_room held full]
      exact ⟨closed.lastCheckpoint, closed.firstRecord, closed.gaps⟩

private theorem committed (measures : l.Measures h) (index : CheckpointIndex) (now : Instant) :
    (l.committed index now).Measures h := by
  cases held : l.outstanding with
  | none =>
    rw [committed_of_none held]
    exact measures
  | some waiting =>
    rw [committed_of_some held]
    exact ⟨measures.lastCheckpoint, measures.firstRecord, measures.gaps⟩

end Measures

end Latency

namespace Attempt

variable {settings : Settings}

theorem measures_run (settings : Settings) (h : History) :
    (run settings h).attempt.latency.Measures h := by
  induction h using List.reverseRecOn with
  | nil => exact Latency.measures_ofCapacity _
  | append_singleton h i ih =>
    rw [latency_run_concat]
    obtain ⟨now, input⟩ := i
    rcases input with ⟨side, m⟩ | _
    · cases side <;> cases m
      case source.record r => exact ih.record rfl rfl
      case source.checkpoint c => exact ih.emitted rfl rfl _
      case destination.checkpoint c => exact (ih.idle rfl rfl).committed _ now
      all_goals exact ih.idle rfl rfl
    · exact ih.idle rfl rfl

private theorem longestGap_run (settings : Settings) (h : History) :
    (run settings h).attempt.latency.timing.longestGap =
      if 0 < h.gapCount then some (Span.seconds (h.gaps.foldl max 0)) else none := by
  rw [Latency.timing, (measures_run settings h).gaps, SpanStats.longest?_ofSpans,
    History.length_gaps]

private theorem meanGap_run (settings : Settings) (sum : h.gaps.sum ≤ Span.limit)
    (few : h.gapCount ≤ 0xFFFF_FFFF) :
    (run settings h).attempt.latency.timing.meanGap =
      if 0 < h.gapCount then some (Span.seconds (h.gaps.sum / h.gapCount)) else none := by
  rw [← History.length_gaps] at few ⊢
  rw [Latency.timing, (measures_run settings h).gaps, SpanStats.mean?_ofSpans _ sum few]

/-- Where the source sends the same records and checkpoints at the same times, the gaps are the
same: neither acknowledgements nor settings, the limit of memory among them, have a part in them.
Under a clock that never goes back and does not go further than a span, there is a longest gap and
a mean one where there is a gap at all. The mean is the time from the start of the first gap to the
last checkpoint, over the number of gaps. -/
theorem checkpoint_gaps_telescope (settings : Settings) (h : History) :
    (∀ (other : Settings) (g : History), g.flow = h.flow →
      (run other g).attempt.latency.timing.longestGap =
          (run settings h).attempt.latency.timing.longestGap ∧
        (run other g).attempt.latency.timing.meanGap =
          (run settings h).attempt.latency.timing.meanGap) ∧
      (h.Chronological → (∀ i ∈ h, ∀ j ∈ h, j.1 - i.1 ≤ Span.limit) →
        h.checkpoints.length < 2 ^ 32 →
        h.gaps.length = h.gapCount ∧
        (h.gapCount = 0 →
          (run settings h).attempt.latency.timing.longestGap = none ∧
            (run settings h).attempt.latency.timing.meanGap = none) ∧
        (0 < h.gapCount →
          (run settings h).attempt.latency.timing.longestGap =
              some (Span.seconds (h.gaps.foldl max 0)) ∧
            (run settings h).attempt.latency.timing.meanGap =
              some (Span.seconds ((h.lastCheckpointTime - h.gapStart) / h.gapCount)))) := by
  refine ⟨fun other g same => ?_, fun chronological fits few => ⟨h.length_gaps, ?_, ?_⟩⟩
  · have gaps : (run other g).attempt.latency.gaps = (run settings h).attempt.latency.gaps := by
      rw [(measures_run other g).gaps, (measures_run settings h).gaps, History.gaps,
        ← History.marks_flow, same, History.marks_flow, History.gaps]
    exact ⟨congrArg SpanStats.longest? gaps, congrArg SpanStats.mean? gaps⟩
  · intro noGap
    have nothing : h.gaps = [] := List.length_eq_zero_iff.1 (h.length_gaps.trans noGap)
    have stats := (measures_run settings h).gaps
    rw [nothing] at stats
    exact ⟨congrArg SpanStats.longest? stats, congrArg SpanStats.mean? stats⟩
  · intro someGap
    have sum := History.sum_gaps_le fits chronological someGap
    have count : h.gapCount ≤ 0xFFFF_FFFF := by
      have := h.gapCount_le
      omega
    refine ⟨?_, ?_⟩
    · rw [longestGap_run, if_pos someGap]
    · rw [meanGap_run settings sum count, if_pos someGap, History.sum_gaps chronological someGap]

/-- The first gap takes four seconds and a half, from the record on; the delays are given up. -/
theorem checkpoint_gaps_telescope_of_opening_record :
    let record : Input := .message .source (.record ⟨⟨"a", none⟩, .null, 5⟩)
    let sent : Input := .message .source (.checkpoint (.global .null))
    let returned : Input := .message .destination (.checkpoint (.global .null))
    let h : History := [(0, returned), (500000000, record), (1000000000, record),
      (5000000000, sent), (6000000000, record), (7000000000, sent)]
    h.Chronological ∧ h.gapCount = 2 ∧
      (run ⟨8, true, false⟩ h).attempt.latency.timing.longestGap = some 4 ∧
      (run ⟨8, true, false⟩ h).attempt.latency.timing.meanGap = some 3 ∧
      (run ⟨400, false, false⟩ (h.drop 1)).attempt.latency.timing.meanGap = some 3 := by
  intro record sent returned h
  have chronological : h.Chronological := by decide
  have number : h.gapCount = 2 := by decide
  obtain ⟨same, telescopes⟩ := checkpoint_gaps_telescope ⟨8, true, false⟩ h
  obtain ⟨-, -, gaps⟩ := telescopes chronological (by decide) (by decide)
  obtain ⟨longest, mean⟩ := gaps (by rw [number]; decide)
  have longestSeconds : (Span.seconds (h.gaps.foldl max 0)) = 4 := by decide
  have meanSeconds :
      Span.seconds ((h.lastCheckpointTime - h.gapStart) / h.gapCount) = 3 := by decide
  refine ⟨chronological, number, longest.trans (congrArg some longestSeconds),
    mean.trans (congrArg some meanSeconds), ?_⟩
  rw [(same ⟨400, false, false⟩ (h.drop 1) rfl).2, mean, meanSeconds]

end Attempt

end SyncAccounting
