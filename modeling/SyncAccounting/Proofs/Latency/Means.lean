import SyncAccounting.Proofs.Latency.Calls
import SyncAccounting.Proofs.Ledger.Folding

/-!
How the mean of the gaps, and that of the delays, stands to the longest. Where there is a mean there
is a longest, and the mean is not above it as long as the number of spans is exact. From the largest
number on, the sum still grows while the number stays, so the mean comes to lie above the longest.
-/

set_option autoImplicit false

namespace SyncAccounting

namespace SpanStats

private theorem foldl_max_replicate (span : Span) (n : Nat) :
    (List.replicate (n + 1) span).foldl max 0 = span := by
  induction n with
  | zero => exact Nat.zero_max span
  | succ n ih =>
    rw [List.replicate_succ', List.foldl_append, ih]
    exact Nat.max_self span

/-- The sum and the number each stay at their end, so beyond it their quotient is not the span. -/
private theorem figures_replicate (span : Span) (n : Nat) :
    (ofSpans (List.replicate (n + 1) span)).longest? = some span.seconds ∧
      (ofSpans (List.replicate (n + 1) span)).mean? =
        some (Span.seconds (min ((n + 1) * span) Span.limit / min (n + 1) 0xFFFF_FFFF)) := by
  have counted : 0 < min (n + 1) 0xFFFF_FFFF := by omega
  constructor
  · rw [longest?_ofSpans, foldl_max_replicate, List.length_replicate, if_pos n.succ_pos]
  · rw [mean?, total_ofSpans, count_ofSpans, List.sum_replicate_nat, List.length_replicate,
      if_pos counted]

end SpanStats

namespace Latency

variable {l : Latency}

private theorem delays_of_meanDelay {mean : Count} (reported : mean ∈ l.timing.meanDelay) :
    mean ∈ l.delays.mean? ∧ l.timing.longestDelay = l.delays.longest? := by
  cases held : l.outstanding with
  | none =>
    rw [(timing_of_none held).2] at reported
    cases reported
  | some times =>
    obtain ⟨longest, same⟩ := timing_of_some held
    rw [same] at reported
    exact ⟨reported, longest⟩

/-- Whatever the calls are, a mean comes with a longest. As long as there are no more than the
largest number of 32 bits, the mean is not above it, even where the sum is at its end. -/
theorem mean_le_longest (capacity : Count) (calls : List Call) :
    let l := (ofCapacity capacity).performAll calls
    (∀ mean ∈ l.timing.meanGap, ∃ longest ∈ l.timing.longestGap,
      ((ofCapacity capacity).gapsOver calls).length < 2 ^ 32 → mean ≤ longest) ∧
    (∀ mean ∈ l.timing.meanDelay, ∃ longest ∈ l.timing.longestDelay,
      ((ofCapacity capacity).delaysOver calls).length < 2 ^ 32 → mean ≤ longest) := by
  intro l
  refine ⟨fun mean reported => ?_, fun mean reported => ?_⟩
  · have gaps : l.gaps = .ofSpans ((ofCapacity capacity).gapsOver calls) :=
      gaps_performAll capacity calls
    rw [timing, gaps] at reported ⊢
    obtain ⟨longest, also, bound⟩ := SpanStats.exists_longest?_of_mean? _ mean reported
    exact ⟨longest, also, fun few => bound (Nat.le_of_lt_succ few)⟩
  · have delays : l.delays = .ofSpans ((ofCapacity capacity).delaysOver calls) :=
      delays_performAll capacity calls
    obtain ⟨reported, also⟩ := delays_of_meanDelay reported
    rw [delays] at reported also
    rw [also]
    obtain ⟨longest, also, bound⟩ := SpanStats.exists_longest?_of_mean? _ mean reported
    exact ⟨longest, also, fun few => bound (Nat.le_of_lt_succ few)⟩

/-- Gaps of four and two seconds; one acknowledgement ends delays of twelve and ten. -/
theorem mean_le_longest_of_coalesced_acknowledgement :
    let calls : List Call := [.record 0, .emitted 0 4000000000, .emitted 1 6000000000,
      .committed 1 16000000000]
    let l := (ofCapacity 48).performAll calls
    l.timing.meanGap = some 3 ∧ (∃ longest ∈ l.timing.longestGap, 3 ≤ longest) ∧
      l.timing.meanDelay = some 11 ∧ ∃ longest ∈ l.timing.longestDelay, 11 ≤ longest := by
  intro calls l
  obtain ⟨gaps, delays⟩ := mean_le_longest 48 calls
  have meanGap : l.timing.meanGap = some 3 := by decide
  have meanDelay : l.timing.meanDelay = some 11 := by decide
  obtain ⟨longestGap, gapKnown, gapBound⟩ := gaps 3 meanGap
  obtain ⟨longestDelay, delayKnown, delayBound⟩ := delays 11 meanDelay
  exact ⟨meanGap, ⟨longestGap, gapKnown, gapBound (by decide)⟩, meanDelay, longestDelay, delayKnown,
    delayBound (by decide)⟩

/-! ### Spans of one length -/

def Call.rounds (span : Span) : Nat → List Call
  | 0 => [.record 0]
  | n + 1 => rounds span n ++ [.emitted 0 ((n + 1) * span), .committed 0 ((n + 2) * span)]

/-- The next gap is measured from a multiple of the span, and no checkpoint waits. -/
structure Paced (l : Latency) (span : Span) (n : Nat) : Prop where
  since : l.lastCheckpoint.or l.firstRecord = some (n * span)
  idle : ∃ times, l.outstanding = some times ∧ times.toList = []
  room : l.capacity = 24

private theorem succ_mul_sub (n : Nat) (span : Span) : (n + 1) * span - n * span = span := by
  rw [Nat.succ_mul, Nat.add_sub_cancel_left]

private theorem Paced.round {span : Span} {n : Nat} (paced : l.Paced span n) :
    let sent := (l.perform (.emitted 0 ((n + 1) * span))).1
    l.gapsAt (.emitted 0 ((n + 1) * span)) = [span] ∧
      l.delaysAt (.emitted 0 ((n + 1) * span)) = [] ∧
      sent.gapsAt (.committed 0 ((n + 2) * span)) = [] ∧
      sent.delaysAt (.committed 0 ((n + 2) * span)) = [span] ∧
      (sent.perform (.committed 0 ((n + 2) * span))).1.Paced span (n + 1) := by
  intro sent
  obtain ⟨times, held, idle⟩ := paced.idle
  have room : ¬l.capacity < timesCost (times.size + 1) := by
    rw [times.size_eq_length, idle, paced.room]
    decide
  have small : (0 : CheckpointIndex).toNat < Count.limit := by decide
  have stored : sent.outstanding = some (times.insert 0 ((n + 1) * span)) := by
    simp only [sent, perform, emitted_of_room held room]
  have last : sent.lastCheckpoint = some ((n + 1) * span) := by
    simp only [sent, perform, emitted_of_room held room, closeGap]
  have waiting : (times.insert 0 ((n + 1) * span)).toList = [(0, (n + 1) * span)] := by
    rw [Backlog.toList_insert_of_lt (by simp [idle]), idle]
    rfl
  refine ⟨?_, rfl, rfl, ?_, ?_⟩
  · simp only [gapsAt, paced.since, Option.map_some, succ_mul_sub, Option.toList_some]
  · rw [delaysAt, stored, Option.elim_some, Backlog.takeBelow_succ _ small, waiting]
    exact congrArg (fun s => [s]) (succ_mul_sub (n + 1) span)
  · rw [perform, committed_of_some stored]
    refine ⟨?_, ⟨_, rfl, ?_⟩, ?_⟩
    · rw [last]
      rfl
    · rw [Backlog.toList_dropBelow_succ _ small, waiting]
      rfl
    · exact (capacity_perform l _).trans paced.room

private theorem paced_rounds (span : Span) (n : Nat) :
    ((ofCapacity 24).performAll (Call.rounds span n)).Paced span n ∧
      (ofCapacity 24).gapsOver (Call.rounds span n) = List.replicate n span ∧
      (ofCapacity 24).delaysOver (Call.rounds span n) = List.replicate n span := by
  induction n with
  | zero =>
    refine ⟨⟨?_, ⟨.empty, rfl, rfl⟩, rfl⟩, rfl, rfl⟩
    rw [Nat.zero_mul]
    rfl
  | succ n ih =>
    obtain ⟨paced, gaps, delays⟩ := ih
    obtain ⟨gap, noDelay, noGap, delay, next⟩ := paced.round
    rw [Call.rounds, List.append_cons, gapsOver_concat, gapsOver_concat, delaysOver_concat,
      delaysOver_concat, performAll_concat, performAll_concat, gaps, delays, gap, noDelay, noGap,
      delay, List.replicate_succ']
    exact ⟨next, List.append_nil _, congrArg (· ++ [span]) (List.append_nil _)⟩

private theorem timing_of_rounds (span : Span) (n : Nat) :
    let l := (ofCapacity 24).performAll (Call.rounds span (n + 1))
    let mean := Span.seconds (min ((n + 1) * span) Span.limit / min (n + 1) 0xFFFF_FFFF)
    l.timing.longestGap = some span.seconds ∧ l.timing.meanGap = some mean ∧
      l.timing.longestDelay = some span.seconds ∧ l.timing.meanDelay = some mean := by
  intro l mean
  obtain ⟨paced, gaps, delays⟩ := paced_rounds span (n + 1)
  obtain ⟨times, held, -⟩ := paced.idle
  have sameGaps : l.gaps = .ofSpans (List.replicate (n + 1) span) :=
    gaps ▸ gaps_performAll 24 (Call.rounds span (n + 1))
  have sameDelays : l.delays = .ofSpans (List.replicate (n + 1) span) :=
    delays ▸ delays_performAll 24 (Call.rounds span (n + 1))
  have known : l.outstanding = some times := held
  obtain ⟨sameLongest, sameMean⟩ := timing_of_some known
  obtain ⟨longestSpan, meanSpan⟩ := SpanStats.figures_replicate span n
  rw [sameLongest, sameMean, timing, sameGaps, sameDelays]
  exact ⟨longestSpan, meanSpan, longestSpan, meanSpan⟩

/-- One span more than the largest number, each a nanosecond short of five seconds: the longest has
four whole seconds, and the mean has five. -/
theorem mean_above_longest_of_rounds :
    let calls := Call.rounds 4999999999 (0xFFFF_FFFF + 1)
    let l := (ofCapacity 24).performAll calls
    ((ofCapacity 24).gapsOver calls).length = 0xFFFF_FFFF + 1 ∧
      ((ofCapacity 24).delaysOver calls).length = 0xFFFF_FFFF + 1 ∧
      l.timing.longestGap = some 4 ∧ l.timing.meanGap = some 5 ∧
      l.timing.longestDelay = some 4 ∧ l.timing.meanDelay = some 5 ∧ ¬(5 : Count) ≤ 4 := by
  intro calls l
  obtain ⟨-, gaps, delays⟩ := paced_rounds 4999999999 (0xFFFF_FFFF + 1)
  obtain ⟨longestGap, meanGap, longestDelay, meanDelay⟩ := timing_of_rounds 4999999999 0xFFFF_FFFF
  have longest : Span.seconds 4999999999 = 4 := by decide
  have mean : Span.seconds (min ((0xFFFF_FFFF + 1) * 4999999999) Span.limit /
      min (0xFFFF_FFFF + 1) 0xFFFF_FFFF) = 5 := by decide
  rw [longest] at longestGap longestDelay
  rw [mean] at meanGap meanDelay
  refine ⟨?_, ?_, longestGap, meanGap, longestDelay, meanDelay, by decide⟩
  · rw [gaps, List.length_replicate]
  · rw [delays, List.length_replicate]

end Latency

end SyncAccounting
