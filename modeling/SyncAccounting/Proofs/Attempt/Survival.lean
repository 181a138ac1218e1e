import SyncAccounting.Proofs.Attempt.Reflection

/-!
Which inputs a healthy ledger survives. One more input leaves books that mirror the longer history,
unless it breaks the ledger; then no claims are left, and the peak stays at the largest window
closed so far. So a run is healthy exactly where no input of it broke the ledger.
-/

set_option autoImplicit false

namespace SyncAccounting

/-- A ledger that one more input leads to from healthy books. -/
inductive Ledger.Takes (limit : Count) (h : History) (i : Instant × Attempt.Input) : Ledger → Prop
  | held {b : Books} (holds : ¬h.Breaks limit i) (reflects : b.Reflects (h ++ [i])) :
      Takes limit h i (.healthy b)
  | broke {g : Budget} (breaks : h.Breaks limit i) (used : g.used = 0)
      (peak : g.peak.toNat = History.largestCost (h ++ [i])) : Takes limit h i (.failed g)

namespace Books.Reflects

variable {h : History} {b : Books}

private theorem takes_record (reflects : b.Reflects h) (limit : Count) (now : Instant)
    (r : RecordMessage) :
    Ledger.Takes limit h (now, .message .source (.record r))
      ((Ledger.healthy b).record (h.streams.idxOf r.stream) r.byteSize) := by
  refine .held id (reflects.concat rfl rfl ?_)
  rw [History.row_concat_of_record rfl, reflects.current, History.idxOf_streams_concat rfl]

private theorem takes_checkpoint (reflects : b.Reflects h) (balanced : b.Balanced)
    (countable : h.Countable) (now : Instant) (c : Checkpoint) :
    Ledger.Takes b.budget.limit h (now, .message .source (.checkpoint c))
      ((Ledger.healthy b).checkpoint (.ofNat h.checkpoints.length) (some c.fingerprint)).1 := by
  let i : Instant × Attempt.Input := (now, .message .source (.checkpoint c))
  let closed : Books := { b with current := [] }
  have order : closed.lastAdded.filter (Count.ofNat h.checkpoints.length ≤ ·) = none :=
    reflects.lastAdded_filter_eq_none countable
  have taken : (⟨b.current.nonzero, some c.fingerprint⟩ : Snapshot) =
      History.snapshot (h ++ [i]) h.checkpoints.length := reflects.closed_eq_snapshot rfl rfl
  have fits := reflects.cost_le_remaining_iff (i := i) balanced rfl rfl
  change Ledger.Takes _ _ _ (Ledger.insert closed _ ⟨b.current.nonzero, _⟩).1
  rw [taken]
  by_cases room : (History.snapshot (h ++ [i]) h.checkpoints.length).cost ≤ b.budget.remaining
  · rw [Ledger.insert_accepted ⟨order, room⟩]
    refine .held (Nat.not_lt.2 (fits.1 room)) ?_
    exact reflects.push balanced countable rfl rfl rfl rfl ⟨order, room⟩
  · rw [Ledger.insert_overBudget order room]
    refine .broke (Nat.lt_of_not_le fun under => room (fits.2 under)) rfl ?_
    rw [History.largestCost_concat_of_checkpoint rfl, ← reflects.peak, ← History.cost_snapshot]
    exact Count.toNat_max _ _

private theorem takes_acknowledgement (reflects : b.Reflects h) (countable : h.Countable)
    (limit : Count) (now : Instant) (c : Checkpoint) :
    Ledger.Takes limit h (now, .message .destination (.checkpoint c))
      ((Ledger.healthy b).commitUpTo (.ofNat h.acknowledgements.length)).1 := by
  let i : Instant × Attempt.Input := (now, .message .destination (.checkpoint c))
  have longer : (History.acknowledgements (h ++ [i])).length = h.acknowledgements.length + 1 :=
    History.length_acknowledgements_concat rfl
  have sent := reflects.isSome_find?_pending_iff countable
  by_cases pending : (b.pending.find? (.ofNat h.acknowledgements.length)).isSome
  · rw [Ledger.commitUpTo_pending pending]
    refine .held (fun breaks => ?_) (reflects.settle countable rfl rfl rfl (sent.1 pending))
    have overtaken : h.checkpoints.length < (History.acknowledgements (h ++ [i])).length := breaks
    have behind := sent.1 pending
    omega
  · rw [Ledger.commitUpTo_unknown pending (reflects.not_committedThrough countable)]
    refine .broke ?_ rfl ?_
    · change h.checkpoints.length < (History.acknowledgements (h ++ [i])).length
      have overtaken := mt sent.2 pending
      omega
    · rw [History.largestCost_concat_of_none rfl]
      exact reflects.peak

private theorem takes_idle (reflects : b.Reflects h) (limit : Count) {i : Instant × Attempt.Input}
    (holds : ¬h.Breaks limit i) (noRecord : i.2.record? = none)
    (noCheckpoint : i.2.checkpoint? = none)
    (noAcknowledgement : i.2.acknowledgement? = none) : Ledger.Takes limit h i (.healthy b) := by
  have current : b.current = History.row (h ++ [i]) h.checkpoints.length := by
    rw [History.row_concat_of_none noRecord, reflects.current]
  exact .held holds (reflects.concat noCheckpoint noAcknowledgement current)

private theorem takes_interruption (reflects : b.Reflects h) (limit : Count) (now : Instant) :
    Ledger.Takes limit h (now, .interruption) (Ledger.healthy b).fail := by
  refine .broke trivial rfl ?_
  rw [History.largestCost_concat_of_none rfl]
  exact reflects.peak

end Books.Reflects

namespace Attempt

variable {settings : Settings} {h : History}

private theorem takes_run_concat {b : Books}
    (ledger : (run settings h).attempt.ledger = some (.healthy b)) (reflects : b.Reflects h)
    (balanced : b.Balanced)
    (limit : b.budget.limit = settings.maxPendingStateBytes) (countable : h.Countable)
    (i : Instant × Input) :
    ∃ l, (run settings (h ++ [i])).attempt.ledger = some l ∧
      l.Takes settings.maxPendingStateBytes h i := by
  have healthy : (run settings h).attempt.isHealthy = true := isHealthy_of_ledger ledger
  have sources := sourceCheckpoints_run settings h
  have destinations := destinationCheckpoints_run settings h
  refine ⟨(Ledger.healthy b).performAll ((run settings h).attempt.call? i.2).toList, ?_, ?_⟩
  · rw [ledger_run_concat, ledger]
    rfl
  obtain ⟨now, input⟩ := i
  rcases input with ⟨side, m⟩ | _
  · cases side <;> cases m
    case source.record r =>
      rw [call?, positionOf_run]
      exact reflects.takes_record _ now r
    case source.checkpoint c =>
      rw [call?, sources, ← limit]
      exact reflects.takes_checkpoint balanced countable now c
    case destination.checkpoint c =>
      rw [call?, destinations]
      exact reflects.takes_acknowledgement countable _ now c
    all_goals exact reflects.takes_idle _ id rfl rfl rfl
  · rw [call?, if_pos healthy]
    exact reflects.takes_interruption _ now

theorem reflects_run (enabled : settings.commitTrackingEnabled = true) (countable : h.Countable)
    {b : Books} (ledger : (run settings h).attempt.ledger = some (.healthy b)) : b.Reflects h := by
  induction h using List.reverseRecOn generalizing b with
  | nil =>
    rw [ledger_run_nil enabled] at ledger
    cases ledger
    exact Books.reflects_ofLimit _
  | append_singleton h i ih =>
    have healthy : (run settings (h ++ [i])).attempt.isHealthy = true :=
      isHealthy_of_ledger ledger
    obtain ⟨a, before, balanced, limit⟩ := books_run enabled (isHealthy_of_append enabled healthy)
    have reflects := ih countable.of_concat before
    obtain ⟨l, after, takes⟩ :=
      takes_run_concat before reflects balanced limit countable.of_concat i
    rw [after] at ledger
    cases ledger
    cases takes with
    | held holds reflects => exact reflects

theorem length_acknowledgements_le (enabled : settings.commitTrackingEnabled = true)
    (countable : h.Countable) (healthy : (run settings h).attempt.isHealthy = true) :
    h.acknowledgements.length ≤ h.checkpoints.length := by
  obtain ⟨b, ledger, -⟩ := books_run enabled healthy
  exact (reflects_run enabled countable ledger).ordered

/-- One more input leaves a healthy run healthy, unless it breaks the ledger. -/
theorem takes_run (enabled : settings.commitTrackingEnabled = true) (countable : h.Countable)
    (healthy : (run settings h).attempt.isHealthy = true) (i : Instant × Input) :
    ∃ l, (run settings (h ++ [i])).attempt.ledger = some l ∧
      l.Takes settings.maxPendingStateBytes h i := by
  obtain ⟨b, ledger, balanced, limit⟩ := books_run enabled healthy
  exact takes_run_concat ledger (reflects_run enabled countable ledger) balanced limit countable i

end Attempt

end SyncAccounting
