import SyncAccounting.Attempt.Statistics
import SyncAccounting.Proofs.Attempt.Step

/-!
The reason of a failure is an error that was the first of its side, and the source comes before the
destination. Each side that reports errors is warned about once, with its first error.
-/

set_option autoImplicit false

namespace SyncAccounting

def Attempt.Input.errorOf? (side : Side) (input : Input) : Option CapturedError :=
  (input.error?.filter (·.1 = side)).map Prod.snd

namespace Attempt.Input

variable {input : Input} (side : Side)

private theorem errorOf?_of_none (silent : input.error? = none) : input.errorOf? side = none := by
  rw [errorOf?, silent]
  rfl

private theorem errorOf?_of_some {e : Side × CapturedError} (reported : input.error? = some e) :
    input.errorOf? side = if e.1 = side then some e.2 else none := by
  rw [errorOf?, reported, Option.filter_some]
  by_cases own : e.1 = side <;> simp [own]

end Attempt.Input

def History.errors (h : History) (side : Side) : List CapturedError :=
  h.filterMap (·.2.errorOf? side)

namespace History

variable (h : History) (side : Side)

private theorem errors_append (rest : History) :
    errors (h ++ rest) side = h.errors side ++ rest.errors side :=
  List.filterMap_append

private theorem errors_concat (i : Instant × Attempt.Input) :
    errors (h ++ [i]) side = h.errors side ++ (i.2.errorOf? side).toList := by
  rw [errors_append]
  cases reported : i.2.errorOf? side <;> simp [errors, reported]

end History

namespace FirstErrors

variable (errors : FirstErrors)

private theorem of_report (reporter side : Side) (e : CapturedError) :
    (errors.report reporter e).of side =
      if reporter = side then (errors.of side).or (some e) else errors.of side := by
  cases reporter <;> cases side <;> rfl

private theorem reason_eq (timestamp : Int64) (attempt : UInt32) :
    errors.reason timestamp attempt =
      ((errors.of .source).map fun e => .ofError .source e timestamp attempt).or
        ((errors.of .destination).map fun e => .ofError .destination e timestamp attempt) := by
  obtain ⟨source, destination⟩ := errors
  cases source <;> cases destination <;> rfl

end FirstErrors

/-! ### Warnings about a side -/

namespace Event

/-- A warning about a side. -/
def WarnsOf (side : Side) (e : Event) : Prop :=
  e.level = .warn ∧ ("side", side.text) ∈ e.details

instance (side : Side) : DecidablePred (WarnsOf side) :=
  fun e => inferInstanceAs (Decidable (e.level = .warn ∧ ("side", side.text) ∈ e.details))

private theorem warnsOf_iff (side : Side) (e : Event) :
    e.WarnsOf side ↔ ∃ message, e = .errorReported side message := by
  constructor
  · rintro ⟨warn, named⟩
    cases e with
    | errorReported reporter message =>
      have same : side = reporter := by
        cases side <;> cases reporter <;>
          first | rfl | exact absurd named (by simp [details, Side.text])
      exact ⟨message, by rw [same]⟩
    | estimateRejected fault | payloadMismatch checkpoint => simp [details] at named
    | destinationIgnored => simp [details] at named
    | delaysAbandoned checkpoint pending => simp [details] at named
    | streamObserved | countsUnreliable | accessInterrupted | checkpointSeen | errorIgnored =>
      cases warn
  · rintro ⟨message, rfl⟩
    exact ⟨rfl, List.mem_singleton.2 rfl⟩

end Event

namespace Attempt

variable (a : Attempt) (side : Side) (message : String)

private theorem not_mem_ledgerEvents (index : CheckpointIndex) (result : Except Fault Unit) :
    Event.errorReported side message ∉ ledgerEvents index result := by
  cases result <;> simp [ledgerEvents]

private theorem not_mem_checkpointEvents (reporter : Side) (index : CheckpointIndex)
    (c : Checkpoint) : Event.errorReported side message ∉ a.checkpointEvents reporter index c := by
  rw [checkpointEvents]
  split <;> simp

private theorem not_mem_emitted (l : Latency) (index : CheckpointIndex) (now : Instant) :
    Event.errorReported side message ∉ (l.emitted index now).2 := by
  unfold Latency.emitted
  dsimp only
  split
  · simp
  · split <;> simp

private theorem not_mem_mismatch (l : Ledger) (index : CheckpointIndex)
    (fingerprint : Fingerprint) :
    Event.errorReported side message ∉ l.mismatch index fingerprint := by
  rw [Ledger.mismatch]
  split <;> simp

private theorem not_mem_events {input : Input} (silent : ∀ reporter t,
      input ≠ .message reporter (.trace t)) (now : Instant) :
    Event.errorReported side message ∉ (a.step now input).events := by
  cases input with
  | interruption =>
    obtain ⟨_, _, _, _, ledger, _, _, _, _, _, _⟩ := a
    rcases ledger with _ | _ | _ <;> simp [step, interrupt]
  | message reporter m =>
    cases m with
    | trace t => exact absurd rfl (silent reporter t)
    | record r =>
      cases reporter with
      | source =>
        simp only [step, source, accepted, sourceRecord]
        split <;> simp
      | destination => simp [step, destination]
    | estimate e =>
      cases reporter with
      | source =>
        simp only [step, source]
        cases a.estimates.apply e <;> simp
      | destination => simp [step, destination]
    | checkpoint c =>
      cases reporter with
      | source =>
        simp only [step, source, accepted, sourceCheckpoint, List.mem_append, not_or]
        refine ⟨⟨?_, not_mem_emitted side message _ _ _⟩,
          not_mem_checkpointEvents a side message _ _ _⟩
        cases a.ledger with
        | none => simp
        | some l => exact not_mem_ledgerEvents side message _ _
      | destination =>
        simp only [step, destination, accepted, destinationCheckpoint, List.mem_append, not_or]
        refine ⟨?_, not_mem_checkpointEvents a side message _ _ _⟩
        cases a.ledger with
        | none => simp
        | some l =>
          exact List.not_mem_append (not_mem_mismatch side message l _ _)
            (not_mem_ledgerEvents side message _ _)

private theorem trace_events (reporter : Side) (t : TraceMessage) (now : Instant) :
    (a.step now (.message reporter (.trace t))).events = (a.trace reporter t).2 := by
  cases reporter <;> rfl

private theorem warnings_trace (reporter : Side) (t : TraceMessage) (now : Instant) :
    (a.step now (.message reporter (.trace t))).events.filter (Event.WarnsOf side) =
      if (a.errors.of side).isSome then []
      else (((Input.message reporter (.trace t)).errorOf? side).map fun e =>
        Event.errorReported side e.error.message).toList := by
  have told : (Input.message reporter (.trace t)).error? =
      t.error?.map fun e => (reporter, ⟨e, t.emittedAt⟩) := rfl
  rw [trace_events, trace]
  cases reported : t.error? with
  | none =>
    rw [reported, Option.map_none] at told
    simp [Input.errorOf?_of_none side told]
  | some e =>
    rw [reported, Option.map_some] at told
    rw [Input.errorOf?_of_some side told]
    have named (s : Side) : Event.WarnsOf side (.errorReported s e.message) ↔ s = side := by
      simp [Event.warnsOf_iff]
    have ignored (s : Side) : ¬Event.WarnsOf side (.errorIgnored s e.message) := by
      simp [Event.warnsOf_iff]
    by_cases own : reporter = side
    · subst own
      by_cases known : (a.errors.of reporter).isSome <;> simp [known, named, ignored]
    · by_cases known : (a.errors.of reporter).isSome <;> simp [known, named, ignored, own]

private theorem error?_of_silent {input : Input}
    (silent : ∀ reporter t, input ≠ .message reporter (.trace t)) : input.error? = none := by
  cases input with
  | interruption => rfl
  | message reporter m =>
    cases m with
    | trace t => exact absurd rfl (silent reporter t)
    | record | checkpoint | estimate => rfl

/-- An input is a warning about a side where it is the first error of this side. -/
theorem warnings_step (now : Instant) (input : Input) :
    (a.step now input).events.filter (Event.WarnsOf side) =
      if (a.errors.of side).isSome then []
      else ((input.errorOf? side).map fun e =>
        Event.errorReported side e.error.message).toList := by
  by_cases traced : ∃ reporter t, input = .message reporter (.trace t)
  · obtain ⟨reporter, t, rfl⟩ := traced
    exact warnings_trace a side reporter t now
  · have silent : ∀ reporter t, input ≠ .message reporter (.trace t) :=
      fun reporter t same => traced ⟨reporter, t, same⟩
    have quiet : (a.step now input).events.filter (Event.WarnsOf side) = [] := by
      refine List.filter_eq_nil_iff.2 fun e he => ?_
      rw [decide_eq_true_iff, Event.warnsOf_iff]
      rintro ⟨message, rfl⟩
      exact not_mem_events a side message silent now he
    rw [quiet, Input.errorOf?_of_none side (error?_of_silent silent)]
    exact (ite_self _).symm

/-! ### Runs -/

variable (settings : Settings) (h : History)

theorem errors_run : (run settings h).attempt.errors.of side = (h.errors side).head? := by
  induction h using List.reverseRecOn with
  | nil => cases side <;> rfl
  | append_singleton h i ih =>
    rw [run_concat, step_attempt, History.errors_concat, List.head?_append, ← ih]
    cases reported : i.2.error? with
    | none => simp [Input.errorOf?_of_none side reported]
    | some e =>
      rw [Option.elim_some, FirstErrors.of_report, Input.errorOf?_of_some side reported]
      by_cases own : e.1 = side <;> simp [own]

theorem warnings_run :
    (run settings h).events.filter (Event.WarnsOf side) =
      ((h.errors side).head?.map fun e => Event.errorReported side e.error.message).toList := by
  induction h using List.reverseRecOn with
  | nil => rfl
  | append_singleton h i ih =>
    have log : (run settings (h ++ [i])).events =
        (run settings h).events ++ ((run settings h).attempt.step i.1 i.2).events := by
      rw [run_append]
      rfl
    rw [log, List.filter_append, ih, warnings_step, errors_run, History.errors_concat,
      List.head?_append]
    cases (History.errors h side).head? with
    | none => cases i.2.errorOf? side <;> rfl
    | some e => simp

variable (timestamp : Int64) (number : UInt32)

private theorem failureReason_run :
    (run settings h).attempt.failureReason timestamp number =
      ((h.errors .source).head?.map (FailureReason.ofError .source · timestamp number)).or
        ((h.errors .destination).head?.map
          (FailureReason.ofError .destination · timestamp number)) := by
  rw [failureReason, FirstErrors.reason_eq, errors_run, errors_run]

/-- The reason of a failure is the first error of the source, or where it has none the first error
of the destination, and none where neither has one. Once there is a reason, what follows changes it
only where it is an error of the destination and the source has its first one after it; then it is
this one, for good. Each side that reports errors is warned about once, with its first error. -/
theorem first_errors_shape_reason :
    ((run settings h).attempt.failureReason timestamp number = none ↔
      ∀ side, h.errors side = []) ∧
    (∀ e ∈ (h.errors .source).head?, (run settings h).attempt.failureReason timestamp number =
      some ⟨.source, e.error.failureType, e.error.message, e.error.internalMessage,
        e.error.stackTrace, timestamp, e.emittedAt, number⟩) ∧
    (h.errors .source = [] → ∀ e ∈ (h.errors .destination).head?,
      (run settings h).attempt.failureReason timestamp number =
        some ⟨.destination, e.error.failureType, e.error.message, e.error.internalMessage,
          e.error.stackTrace, timestamp, e.emittedAt, number⟩) ∧
    (∀ r, (run settings h).attempt.failureReason timestamp number = some r → ∀ rest,
      (run settings (h ++ rest)).attempt.failureReason timestamp number =
        if r.origin = .destination then
          ((History.errors rest .source).head?.map
            (FailureReason.ofError .source · timestamp number)).or (some r)
        else some r) ∧
    ∀ side, (run settings h).events.filter (Event.WarnsOf side) =
      ((h.errors side).head?.map fun e => Event.errorReported side e.error.message).toList := by
  refine ⟨?_, ?_, ?_, ?_, fun side => warnings_run side settings h⟩
  · rw [failureReason_run, Option.or_eq_none_iff, Option.map_eq_none_iff, Option.map_eq_none_iff,
      List.head?_eq_none_iff, List.head?_eq_none_iff]
    constructor
    · rintro ⟨source, destination⟩ side
      cases side
      · exact source
      · exact destination
    · intro noError
      exact ⟨noError .source, noError .destination⟩
  · intro e first
    rw [failureReason_run, first]
    rfl
  · intro noReason e first
    rw [failureReason_run, noReason, first]
    rfl
  · intro r known rest
    rw [failureReason_run] at known ⊢
    rw [History.errors_append, History.errors_append, List.head?_append, List.head?_append]
    cases source : (h.errors .source).head? with
    | some e =>
      rw [source] at known
      cases known
      rfl
    | none =>
      rw [source] at known
      cases destination : (h.errors .destination).head? with
      | none =>
        rw [destination] at known
        cases known
      | some e =>
        rw [destination] at known
        cases known
        rfl

/-- An error of the destination, and then the status of a stream and two errors of the source. -/
theorem first_errors_shape_reason_of_late_source :
    let failed (message : String) : Message :=
      .trace ⟨.zero false, .error ⟨message, none, none, .systemError⟩⟩
    let early : History := [(0, .message .destination (.record ⟨⟨"a", none⟩, .null, 4⟩)),
      (1, .message .destination (failed "full"))]
    let rest : History :=
      [(2, .message .source (.trace ⟨.zero false, .streamStatus ⟨"a", none⟩ .incomplete⟩)),
        (3, .message .source (failed "gone")), (4, .message .source (failed "again"))]
    let r : FailureReason := ⟨.destination, .systemError, "full", none, none, 9, .zero false, 2⟩
    (run .default early).attempt.failureReason 9 2 = some r ∧
      (run .default (early ++ rest)).attempt.failureReason 9 2 =
        some ⟨.source, .systemError, "gone", none, none, 9, .zero false, 2⟩ ∧
      (run .default (early ++ rest)).events.filter (Event.WarnsOf .source) =
        [.errorReported .source "gone"] := by
  intro failed early rest r
  obtain ⟨-, -, late, kept, -⟩ := first_errors_shape_reason .default early 9 2
  have before : (run .default early).attempt.failureReason 9 2 = some r := late rfl _ rfl
  obtain ⟨-, -, -, -, warned⟩ := first_errors_shape_reason .default (early ++ rest) 9 2
  exact ⟨before, kept r before rest, warned .source⟩

end Attempt

end SyncAccounting
