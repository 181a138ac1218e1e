import Mathlib.Data.List.Induction
import Mathlib.Order.MinMax
import SyncAccounting.Latency
import SyncAccounting.Proofs.Saturation

/-!
The figures of some spans. The longest, the sum and the number are those of the spans, each as far
as it goes: the first two up to the longest span there is, the number up to the largest of 32 bits.
They do not depend on the order. As long as the number is exact, the mean is not above the longest.
-/

set_option autoImplicit false

namespace SyncAccounting

namespace Span

theorem seconds_min_limit (s : Span) : seconds (min s limit) = seconds s := by
  apply Count.ext
  simp only [seconds, limit, nanosPerSecond, Count.toNat_ofNat, Count.limit]
  omega

/-- A sum that stays at the longest span does not see whether its parts did before. -/
theorem min_add_min (s t : Nat) :
    min (min s limit + min t limit) limit = min (s + t) limit := by
  omega

theorem add_right_comm_min (total s t : Nat) :
    min (min (total + s) limit + t) limit = min (min (total + t) limit + s) limit := by
  omega

theorem seconds_le_seconds {s t : Span} (shorter : s ≤ t) : seconds s ≤ seconds t := by
  have whole := Nat.div_le_div_right shorter (c := nanosPerSecond)
  rw [Count.le_def]
  simp only [seconds, Count.toNat_ofNat]
  omega

theorem sum_le_length_mul_longest (spans : List Span) :
    spans.sum ≤ spans.length * spans.foldl max 0 := by
  induction spans using List.reverseRecOn with
  | nil => exact Nat.le_refl 0
  | append_singleton spans span ih =>
    rw [List.sum_append, List.sum_singleton, List.length_append, List.length_singleton,
      List.foldl_append, List.foldl_cons, List.foldl_nil, Nat.add_mul, Nat.one_mul]
    have earlier := Nat.mul_le_mul_left spans.length (Nat.le_max_left (spans.foldl max 0) span)
    have last := Nat.le_max_right (spans.foldl max 0) span
    exact Nat.add_le_add (Nat.le_trans ih earlier) last

end Span

namespace SpanStats

def ofSpans (spans : List Span) : SpanStats :=
  spans.foldl (fun s span => s.observe (min span Span.limit)) .empty

theorem ofSpans_append (spans more : List Span) :
    ofSpans (spans ++ more) =
      more.foldl (fun s span => s.observe (min span Span.limit)) (ofSpans spans) :=
  List.foldl_append

theorem ofSpans_concat (spans : List Span) (span : Span) :
    ofSpans (spans ++ [span]) = (ofSpans spans).observe (min span Span.limit) :=
  ofSpans_append spans [span]

theorem ofSpans_perm {spans others : List Span} (perm : spans.Perm others) :
    ofSpans spans = ofSpans others := by
  refine perm.foldl_eq' (fun s _ t _ stats => ?_) SpanStats.empty
  simp only [observe, SpanStats.mk.injEq, and_true]
  constructor
  · exact max_right_comm stats.longest _ _
  · exact Span.add_right_comm_min stats.total _ _

theorem longest_ofSpans (spans : List Span) :
    (ofSpans spans).longest = min (spans.foldl max 0) Span.limit := by
  induction spans using List.reverseRecOn with
  | nil => rfl
  | append_singleton spans span ih =>
    rw [ofSpans_concat, List.foldl_append, List.foldl_cons, List.foldl_nil, min_max_distrib_right,
      ← ih]
    rfl

theorem total_ofSpans (spans : List Span) :
    (ofSpans spans).total = min spans.sum Span.limit := by
  induction spans using List.reverseRecOn with
  | nil => rfl
  | append_singleton spans span ih =>
    rw [ofSpans_concat, List.sum_append, List.sum_singleton]
    simp only [observe, ih]
    exact Span.min_add_min spans.sum span

theorem count_ofSpans (spans : List Span) :
    (ofSpans spans).count = min spans.length 0xFFFF_FFFF := by
  induction spans using List.reverseRecOn with
  | nil => rfl
  | append_singleton spans span ih =>
    rw [ofSpans_concat, List.length_append, List.length_singleton]
    simp only [observe, ih]
    omega

theorem longest?_ofSpans (spans : List Span) :
    (ofSpans spans).longest? =
      if 0 < spans.length then some (Span.seconds (spans.foldl max 0)) else none := by
  rw [longest?, longest_ofSpans, Span.seconds_min_limit, count_ofSpans]
  refine if_congr ?_ rfl rfl
  omega

theorem mean?_ofSpans (spans : List Span) (sum : spans.sum ≤ Span.limit)
    (few : spans.length ≤ 0xFFFF_FFFF) :
    (ofSpans spans).mean? =
      if 0 < spans.length then some (Span.seconds (spans.sum / spans.length)) else none := by
  rw [mean?, total_ofSpans, count_ofSpans, Nat.min_eq_left sum, Nat.min_eq_left few]

/-- A sum at its end is no larger for that; only the number must be exact. -/
theorem total_le_count_mul_longest {spans : List Span} (few : spans.length ≤ 0xFFFF_FFFF) :
    (ofSpans spans).total ≤ (ofSpans spans).count * (ofSpans spans).longest := by
  have sum := Span.sum_le_length_mul_longest spans
  rw [total_ofSpans, count_ofSpans, longest_ofSpans, Nat.min_eq_left few]
  rcases Nat.le_total (spans.foldl max 0) Span.limit with short | long
  · rw [Nat.min_eq_left short]
    exact Nat.le_trans (Nat.min_le_left _ _) sum
  · rw [Nat.min_eq_right long]
    rcases Nat.eq_zero_or_pos spans.length with empty | nonempty
    · rw [empty, Nat.zero_mul] at sum ⊢
      exact Nat.le_trans (Nat.min_le_left _ _) sum
    · exact Nat.le_trans (Nat.min_le_right _ _) (Nat.le_mul_of_pos_left _ nonempty)

theorem exists_longest?_of_mean? (spans : List Span) :
    ∀ mean ∈ (ofSpans spans).mean?, ∃ longest ∈ (ofSpans spans).longest?,
      spans.length ≤ 0xFFFF_FFFF → mean ≤ longest := by
  intro mean reported
  rw [mean?] at reported
  by_cases nonempty : 0 < (ofSpans spans).count
  · rw [if_pos nonempty] at reported
    cases reported
    refine ⟨_, if_pos nonempty, fun few => Span.seconds_le_seconds ?_⟩
    exact Nat.div_le_of_le_mul (total_le_count_mul_longest few)
  · rw [if_neg nonempty] at reported
    cases reported

end SpanStats

end SyncAccounting
