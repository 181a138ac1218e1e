import SyncAccounting.Proofs.History
import SyncAccounting.Proofs.Ledger.Balance
import SyncAccounting.Proofs.Registry

/-!
What one input does to an attempt, said once for all of its parts, and what a run has counted. Each
part moves on by the input and by what the attempt knew before it; none of them looks at whether
the ledger is still healthy.
-/

set_option autoImplicit false

namespace SyncAccounting

namespace Attempt

/-- What an input asks of the ledger, if anything. -/
def call? (a : Attempt) : Input → Option Ledger.Call
  | .message .source (.record r) => some (.record (a.registry.positionOf r.stream) r.byteSize)
  | .message .source (.checkpoint c) => some (.checkpoint a.sourceCheckpoints (some c.fingerprint))
  | .message .destination (.checkpoint c) =>
    some (.acknowledge a.destinationCheckpoints c.fingerprint)
  | .interruption => if a.isHealthy then some .markFailed else none
  | _ => none

def latencyAfter (a : Attempt) (now : Instant) : Input → Latency
  | .message .source (.record _) => a.latency.record now
  | .message .source (.checkpoint _) => (a.latency.emitted a.sourceCheckpoints now).1
  | .message .destination (.checkpoint _) => a.latency.committed a.destinationCheckpoints now
  | _ => a.latency

private theorem trace_attempt (a : Attempt) (side : Side) (t : TraceMessage) :
    (a.trace side t).1 =
      { a with
        errors := (Input.message side (.trace t)).error?.elim a.errors fun e =>
          a.errors.report e.1 e.2 } := by
  cases reported : t.error? <;> simp only [trace, Input.error?, reported] <;> rfl

private theorem estimate_attempt (a : Attempt) (now : Instant) (e : EstimateMessage) :
    (a.source now (.estimate e)).attempt =
      { a with estimates := (a.estimates.apply e).toOption.getD a.estimates } := by
  cases applied : a.estimates.apply e <;> simp only [source, applied] <;> rfl

theorem step_attempt (a : Attempt) (now : Instant) (input : Input) :
    (a.step now input).attempt =
      { settings := a.settings
        registry := input.stream?.elim a.registry a.registry.observe
        emission := input.record?.elim a.emission fun r =>
          a.emission.record (a.registry.positionOf r.stream) r.byteSize
        estimates := input.estimate?.elim a.estimates fun e =>
          (a.estimates.apply e).toOption.getD a.estimates
        ledger := a.ledger.map fun l => l.performAll (a.call? input).toList
        latency := a.latencyAfter now input
        sourceState := input.checkpoint?.elim a.sourceState fun c =>
          some (.ingest a.sourceState c)
        committedState := input.acknowledgement?.elim a.committedState fun c =>
          some (.ingest a.committedState c)
        errors := input.error?.elim a.errors fun e => a.errors.report e.1 e.2
        sourceCheckpoints := input.checkpoint?.elim a.sourceCheckpoints fun _ =>
          a.sourceCheckpoints.succ
        destinationCheckpoints := input.acknowledgement?.elim a.destinationCheckpoints fun _ =>
          a.destinationCheckpoints.succ } := by
  obtain ⟨_, _, _, _, ledger, _, _, _, _, _, _⟩ := a
  cases input with
  | interruption => rcases ledger with _ | _ | _ <;> rfl
  | message side m =>
    cases side with
    | source =>
      cases m with
      | record r => cases ledger <;> rfl
      | checkpoint c => cases ledger <;> rfl
      | estimate e =>
        refine (estimate_attempt _ now e).trans ?_
        cases ledger <;> rfl
      | trace t =>
        refine (trace_attempt _ .source t).trans ?_
        cases ledger <;> rfl
    | destination =>
      cases m with
      | checkpoint c => cases ledger <;> rfl
      | trace t =>
        refine (trace_attempt _ .destination t).trans ?_
        cases ledger <;> rfl
      | record r => cases ledger <;> rfl
      | estimate e => cases ledger <;> rfl

theorem ledger_step (a : Attempt) (now : Instant) (input : Input) :
    (a.step now input).attempt.ledger =
      a.ledger.map fun l => l.performAll (a.call? input).toList := by
  rw [step_attempt]

theorem isHealthy_of_ledger {a : Attempt} {l : Ledger} (ledger : a.ledger = some l) :
    a.isHealthy = l.isHealthy := by
  rw [isHealthy, ledger]
  rfl

/-! ### Runs -/

variable (settings : Settings) (h : History)

theorem run_append (rest : History) :
    run settings (h ++ rest) = rest.foldl Run.step (run settings h) :=
  List.foldl_append

theorem run_concat (i : Instant × Input) :
    (run settings (h ++ [i])).attempt = ((run settings h).attempt.step i.1 i.2).attempt := by
  rw [run_append]
  rfl

theorem registry_run_eq_ofKeys :
    (run settings h).attempt.registry = .ofKeys (h.filterMap (·.2.stream?)) := by
  induction h using List.reverseRecOn with
  | nil => rfl
  | append_singleton h i ih =>
    rw [run_concat, step_attempt, List.filterMap_append, Registry.ofKeys_append, ih]
    cases named : i.2.stream? <;> simp [named]

private theorem paired_run : (run settings h).attempt.registry.Paired := by
  rw [registry_run_eq_ofKeys]
  exact Registry.paired_ofKeys _

theorem registry_run : (run settings h).attempt.registry.keys = h.streams := by
  induction h using List.reverseRecOn with
  | nil => rfl
  | append_singleton h i ih =>
    rw [run_concat, step_attempt, History.streams_concat]
    cases i.2.stream? with
    | none => exact ih
    | some key =>
      rw [← ih]
      exact (paired_run settings h).keys_observe key

/-- A stream is counted where it stands among all that were made known, a new one at the end. -/
theorem positionOf_run (key : StreamKey) :
    (run settings h).attempt.registry.positionOf key = h.streams.idxOf key := by
  rw [(paired_run settings h).positionOf_eq_idxOf, registry_run]

theorem sourceCheckpoints_run :
    (run settings h).attempt.sourceCheckpoints = .ofNat h.checkpoints.length := by
  induction h using List.reverseRecOn with
  | nil => rfl
  | append_singleton h i ih =>
    rw [run_concat, step_attempt, History.checkpoints_concat]
    cases i.2.checkpoint? with
    | none => simpa using ih
    | some c =>
      rw [Option.elim_some, ih, Count.succ_ofNat, List.length_append]
      rfl

theorem destinationCheckpoints_run :
    (run settings h).attempt.destinationCheckpoints = .ofNat h.acknowledgements.length := by
  induction h using List.reverseRecOn with
  | nil => rfl
  | append_singleton h i ih =>
    rw [run_concat, step_attempt, History.acknowledgements_concat]
    cases i.2.acknowledgement? with
    | none => simpa using ih
    | some c =>
      rw [Option.elim_some, ih, Count.succ_ofNat, List.length_append]
      rfl

theorem latency_run_concat (i : Instant × Input) :
    (run settings (h ++ [i])).attempt.latency =
      (run settings h).attempt.latencyAfter i.1 i.2 := by
  rw [run_concat, step_attempt]

/-! ### The ledger of a run -/

theorem ledger_run_concat (i : Instant × Input) :
    (run settings (h ++ [i])).attempt.ledger =
      (run settings h).attempt.ledger.map fun l =>
        l.performAll ((run settings h).attempt.call? i.2).toList := by
  rw [run_concat, ledger_step]

variable {settings}

theorem ledger_run_nil (enabled : settings.commitTrackingEnabled = true) :
    (run settings []).attempt.ledger = some (.ofLimit settings.maxPendingStateBytes) :=
  if_pos enabled

theorem ledger_run_untracked (disabled : settings.commitTrackingEnabled = false) :
    (run settings h).attempt.ledger = none := by
  induction h using List.reverseRecOn with
  | nil => exact if_neg (Bool.eq_false_iff.1 disabled)
  | append_singleton h i ih => rw [ledger_run_concat, ih, Option.map_none]

/-- Where commits are tracked, the ledger of a run is one that calls lead to. -/
theorem ledger_run (enabled : settings.commitTrackingEnabled = true) :
    ∃ calls, (run settings h).attempt.ledger =
      some ((Ledger.ofLimit settings.maxPendingStateBytes).performAll calls) := by
  induction h using List.reverseRecOn with
  | nil => exact ⟨[], ledger_run_nil enabled⟩
  | append_singleton h i ih =>
    obtain ⟨calls, ledger⟩ := ih
    refine ⟨calls ++ ((run settings h).attempt.call? i.2).toList, ?_⟩
    rw [ledger_run_concat, ledger, Option.map_some]
    exact congrArg some List.foldl_append.symm

variable {h}

theorem books_run (enabled : settings.commitTrackingEnabled = true)
    (healthy : (run settings h).attempt.isHealthy = true) :
    ∃ b, (run settings h).attempt.ledger = some (.healthy b) ∧ b.Balanced ∧
      b.budget.limit = settings.maxPendingStateBytes := by
  obtain ⟨calls, ledger⟩ := ledger_run h enabled
  cases ends : (Ledger.ofLimit settings.maxPendingStateBytes).performAll calls with
  | healthy b =>
    rw [ends] at ledger
    exact ⟨b, ledger, Ledger.balanced_performAll ends⟩
  | failed budget =>
    rw [isHealthy_of_ledger ledger, ends] at healthy
    cases healthy

theorem failed_run (enabled : settings.commitTrackingEnabled = true)
    (unhealthy : (run settings h).attempt.isHealthy = false) :
    ∃ budget, (run settings h).attempt.ledger = some (.failed budget) ∧ budget.used = 0 := by
  obtain ⟨calls, ledger⟩ := ledger_run h enabled
  have settled := Ledger.isSettled_performAll
    (Ledger.isSettled_ofLimit settings.maxPendingStateBytes) calls
  cases ends : (Ledger.ofLimit settings.maxPendingStateBytes).performAll calls with
  | healthy b =>
    rw [isHealthy_of_ledger ledger, ends] at unhealthy
    cases unhealthy
  | failed budget =>
    rw [ends] at ledger settled
    exact ⟨budget, ledger, settled⟩

theorem ledger_run_append {budget : Budget} (used : budget.used = 0)
    (ledger : (run settings h).attempt.ledger = some (.failed budget)) (rest : History) :
    (run settings (h ++ rest)).attempt.ledger = some (.failed budget) := by
  induction rest using List.reverseRecOn with
  | nil => rw [List.append_nil, ledger]
  | append_singleton rest i ih =>
    rw [← List.append_assoc, ledger_run_concat, ih, Option.map_some, Ledger.performAll_failed used]

theorem isHealthy_of_append (enabled : settings.commitTrackingEnabled = true) {rest : History}
    (healthy : (run settings (h ++ rest)).attempt.isHealthy = true) :
    (run settings h).attempt.isHealthy = true := by
  by_contra failed
  obtain ⟨budget, ledger, used⟩ := failed_run enabled (Bool.eq_false_iff.2 failed)
  rw [isHealthy_of_ledger (ledger_run_append used ledger rest)] at healthy
  cases healthy

end Attempt

end SyncAccounting
