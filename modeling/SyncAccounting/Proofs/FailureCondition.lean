import SyncAccounting.Attempt.Statistics
import SyncAccounting.Proofs.Attempt.Survival

/-!
When the accounting of a run fails, and how much memory it claims. The history alone decides both:
a run has failed where some input of it breaks the ledger, its claims are the costs of the windows
that wait, and the largest claim is that of the largest window closed.
-/

set_option autoImplicit false

namespace SyncAccounting.Attempt

variable {settings : Settings} {h : History}

private theorem budget?_run {l : Ledger} (ledger : (run settings h).attempt.ledger = some l) :
    (run settings h).attempt.pendingStateBytes = l.budget.used ∧
      (run settings h).attempt.maxSnapshotBytes = l.budget.peak := by
  have known : (run settings h).attempt.budget? = some l.budget := by
    rw [budget?, ledger]
    rfl
  rw [pendingStateBytes, maxSnapshotBytes, known]
  exact ⟨rfl, rfl⟩

theorem not_breaks_of_isHealthy (enabled : settings.commitTrackingEnabled = true)
    {before after : History} {i : Instant × Input} (countable : before.Countable)
    (healthy : (run settings (before ++ i :: after)).attempt.isHealthy = true) :
    ¬before.Breaks settings.maxPendingStateBytes i := by
  have longer : before ++ i :: after = before ++ [i] ++ after := by simp
  rw [longer] at healthy
  have next := isHealthy_of_append enabled healthy
  obtain ⟨l, ledger, takes⟩ :=
    takes_run enabled countable (isHealthy_of_append enabled next) i
  rw [isHealthy_of_ledger ledger] at next
  cases takes with
  | held holds reflects => exact holds
  | broke breaks used peak => cases next

/-- A run that has failed was healthy up to the input that broke it, and has kept since then the
peak that it had there. -/
theorem exists_breaks_of_failed (enabled : settings.commitTrackingEnabled = true)
    (countable : h.Countable) (failed : (run settings h).attempt.isHealthy = false) :
    ∃ (before : History) (i : Instant × Input) (after : History) (budget : Budget),
      h = before ++ i :: after ∧ (run settings before).attempt.isHealthy = true ∧
      before.Breaks settings.maxPendingStateBytes i ∧
      (run settings h).attempt.ledger = some (.failed budget) ∧ budget.used = 0 ∧
      budget.peak.toNat = History.largestCost (before ++ [i]) := by
  induction h using List.reverseRecOn with
  | nil =>
    rw [isHealthy_of_ledger (ledger_run_nil enabled)] at failed
    cases failed
  | append_singleton h i ih =>
    cases healthy : (run settings h).attempt.isHealthy with
    | false =>
      obtain ⟨before, j, after, budget, split, first, breaks, ledger, used, peak⟩ :=
        ih countable.of_concat healthy
      refine ⟨before, j, after ++ [i], budget, ?_, first, breaks,
        ledger_run_append used ledger [i], used, peak⟩
      rw [split, List.append_assoc, List.cons_append]
    | true =>
      obtain ⟨l, ledger, takes⟩ := takes_run enabled countable.of_concat healthy i
      rw [isHealthy_of_ledger ledger] at failed
      cases takes with
      | held holds reflects => cases failed
      | broke breaks used peak => exact ⟨h, i, [], _, rfl, healthy, breaks, ledger, used, peak⟩

/-- A run fails exactly where an input breaks its ledger. While it is healthy its claims are what
the windows that wait cost, within the limit, and its peak is the cost of the largest window closed.
Once it has failed there are no claims, and the peak is that of the windows closed until then. -/
theorem failure_and_memory_exact (settings : Settings)
    (enabled : settings.commitTrackingEnabled = true) (h : History) (countable : h.Countable) :
    ((run settings h).attempt.isHealthy = false ↔
        ∃ (before : History) (i : Instant × Input) (after : History),
          h = before ++ i :: after ∧ before.Breaks settings.maxPendingStateBytes i) ∧
      ((run settings h).attempt.isHealthy = true →
        (run settings h).attempt.pendingStateBytes.toNat = h.waitingCost ∧
          h.waitingCost ≤ settings.maxPendingStateBytes.toNat ∧
          (run settings h).attempt.maxSnapshotBytes.toNat = h.largestCost) ∧
      ((run settings h).attempt.isHealthy = false →
        (run settings h).attempt.pendingStateBytes = 0 ∧
          ∃ (before : History) (i : Instant × Input) (after : History),
            h = before ++ i :: after ∧ (run settings before).attempt.isHealthy = true ∧
            before.Breaks settings.maxPendingStateBytes i ∧
            (run settings h).attempt.maxSnapshotBytes.toNat =
              History.largestCost (before ++ [i])) := by
  refine ⟨⟨fun failed => ?_, ?_⟩, fun healthy => ?_, fun failed => ?_⟩
  · obtain ⟨before, i, after, -, split, -, breaks, -⟩ :=
      exists_breaks_of_failed enabled countable failed
    exact ⟨before, i, after, split, breaks⟩
  · rintro ⟨before, i, after, rfl, breaks⟩
    refine Bool.eq_false_iff.2 fun healthy => ?_
    exact not_breaks_of_isHealthy enabled countable.of_append healthy breaks
  · obtain ⟨b, ledger, balanced, limit⟩ := books_run enabled healthy
    have reflects := reflects_run enabled countable ledger
    obtain ⟨used, peak⟩ := budget?_run ledger
    have claimed := reflects.used_eq_waitingCost balanced
    have fits := Count.le_def.1 balanced.fits
    rw [limit, claimed] at fits
    rw [used, peak]
    exact ⟨claimed, fits, reflects.peak⟩
  · obtain ⟨before, i, after, budget, split, first, breaks, ledger, used, peak⟩ :=
      exists_breaks_of_failed enabled countable failed
    obtain ⟨claims, largest⟩ := budget?_run ledger
    rw [claims, largest]
    exact ⟨used, before, i, after, split, first, breaks, peak⟩

/-- Two windows that fit a limit of 104 bytes each, but not together. -/
theorem failure_and_memory_exact_of_second_window :
    let a : RecordMessage := .ofData ⟨"a", none⟩ .null
    let b : RecordMessage := .ofData ⟨"b", none⟩ .null
    let h : History := [(0, .message .source (.record a)), (1, .message .source (.record b)),
      (2, .message .source (.checkpoint (.global .null))), (3, .message .source (.record b)),
      (4, .message .source (.checkpoint (.global .null)))]
    (run ⟨104, true, false⟩ h).attempt.isHealthy = false ∧
      (run ⟨104, true, false⟩ h).attempt.pendingStateBytes = 0 := by
  intro a b h
  obtain ⟨condition, -, memory⟩ :=
    failure_and_memory_exact ⟨104, true, false⟩ rfl h ⟨by decide, by decide⟩
  have failed := condition.2 ⟨h.take 4, _, [], rfl, by decide⟩
  exact ⟨failed, (memory failed).1⟩

end SyncAccounting.Attempt
