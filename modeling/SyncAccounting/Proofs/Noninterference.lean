import SyncAccounting.Attempt.Statistics
import SyncAccounting.Proofs.Attempt.Step
import SyncAccounting.Proofs.Interleaving

/-!
Apart from what is committed, an attempt knows of each side what the messages of this side tell, and
nothing else: neither the settings, nor the clock, nor the other side, nor a ledger that fails have
a part in it. The times of checkpoints depend on the order of the two sides and on the clock as
well, but not on the ledger.
-/

set_option autoImplicit false

namespace SyncAccounting.Attempt

/-- What an attempt knows of the source. -/
structure SourceView where
  registry : Registry
  emission : Emission
  estimates : Estimates
  state : Option MergedCheckpoint
  checkpoints : Count
  error : Option CapturedError

structure DestinationView where
  state : Option MergedCheckpoint
  checkpoints : Count
  error : Option CapturedError

def sourceView (a : Attempt) : SourceView :=
  ⟨a.registry, a.emission, a.estimates, a.sourceState, a.sourceCheckpoints, a.errors.source⟩

def destinationView (a : Attempt) : DestinationView :=
  ⟨a.committedState, a.destinationCheckpoints, a.errors.destination⟩

def after (a : Attempt) (h : History) : Attempt :=
  h.foldl (fun a i => (a.step i.1 i.2).attempt) a

def answers (a : Attempt) : History → List (Except Fault Unit)
  | [] => []
  | (now, .message .source m) :: rest =>
    (a.source now m).answer :: answers (a.source now m).attempt rest
  | (now, input) :: rest => answers (a.step now input).attempt rest

theorem attempt_run (settings : Settings) (h : History) :
    (run settings h).attempt = (ofSettings settings).after h := by
  induction h using List.reverseRecOn with
  | nil => rfl
  | append_singleton h i ih =>
    rw [run_concat, ih, after, after, List.foldl_append]
    rfl

/-! ### One message -/

variable {a b : Attempt}

private theorem source_congr (same : a.sourceView = b.sourceView) (now later : Instant)
    (m : Message) :
    (a.source now m).answer = (b.source later m).answer ∧
      (a.source now m).attempt.sourceView = (b.source later m).attempt.sourceView := by
  obtain ⟨_, _, _, estimates, _, _, _, _, ⟨_, _⟩, _, _⟩ := a
  obtain ⟨_, _, _, _, _, _, _, _, ⟨_, _⟩, _, _⟩ := b
  cases same
  cases m with
  | record r => exact ⟨rfl, rfl⟩
  | checkpoint c => exact ⟨rfl, rfl⟩
  | estimate e =>
    simp only [source]
    cases estimates.apply e with
    | ok estimates => exact ⟨rfl, rfl⟩
    | error fault => exact ⟨rfl, rfl⟩
  | trace t =>
    simp only [source, trace]
    cases t.error? with
    | none => exact ⟨rfl, rfl⟩
    | some e => exact ⟨rfl, rfl⟩

private theorem sourceView_destination (a : Attempt) (now : Instant) (m : Message) :
    (a.destination now m).attempt.sourceView = a.sourceView := by
  cases m with
  | record r => rfl
  | checkpoint c => rfl
  | estimate e => rfl
  | trace t =>
    simp only [destination, trace]
    cases t.error? with
    | none => rfl
    | some e => rfl

private theorem destination_congr (same : a.destinationView = b.destinationView)
    (now later : Instant) (m : Message) :
    (a.destination now m).attempt.destinationView =
      (b.destination later m).attempt.destinationView := by
  obtain ⟨_, _, _, _, _, _, _, _, ⟨_, _⟩, _, _⟩ := a
  obtain ⟨_, _, _, _, _, _, _, _, ⟨_, _⟩, _, _⟩ := b
  cases same
  cases m with
  | record r => rfl
  | checkpoint c => rfl
  | estimate e => rfl
  | trace t =>
    simp only [destination, trace]
    cases t.error? with
    | none => rfl
    | some e => rfl

private theorem destinationView_source (a : Attempt) (now : Instant) (m : Message) :
    (a.source now m).attempt.destinationView = a.destinationView := by
  cases m with
  | record r => rfl
  | checkpoint c => rfl
  | estimate e =>
    simp only [source]
    cases a.estimates.apply e with
    | ok estimates => rfl
    | error fault => rfl
  | trace t =>
    simp only [source, trace]
    cases t.error? with
    | none => rfl
    | some e => rfl

/-! ### All messages -/

variable {S D : List Message} {h g : History}

private theorem source_after (interleaves : Interleaves S D h)
    (same : a.sourceView = b.sourceView) :
    a.answers h = b.answers (History.alone .source S) ∧
      (a.after h).sourceView = (b.after (History.alone .source S)).sourceView := by
  induction interleaves generalizing a b with
  | nil => exact ⟨rfl, same⟩
  | source now m rest ih =>
    obtain ⟨answer, view⟩ := source_congr same now 0 m
    obtain ⟨answers, views⟩ := ih view
    exact ⟨List.cons_eq_cons.2 ⟨answer, answers⟩, views⟩
  | destination now m rest ih =>
    have view := (a.sourceView_destination now m).trans same
    exact ih view

private theorem destination_after (interleaves : Interleaves S D h)
    (same : a.destinationView = b.destinationView) :
    (a.after h).destinationView =
      (b.after (History.alone .destination D)).destinationView := by
  induction interleaves generalizing a b with
  | nil => exact same
  | source now m rest ih =>
    have view := (a.destinationView_source now m).trans same
    exact ih view
  | destination now m rest ih =>
    have view := destination_congr same now 0 m
    exact ih view

/-- Two attempts of which everything that is reported is the same, apart from what is committed and
from memory and times. -/
structure ReportsAlike (a b : Attempt) : Prop where
  streams : a.registry.toList = b.registry.toList
  recordsEmitted : a.recordsEmitted = b.recordsEmitted
  bytesEmitted : a.bytesEmitted = b.bytesEmitted
  streamRecordsEmitted : a.streamRecordsEmitted = b.streamRecordsEmitted
  streamBytesEmitted : a.streamBytesEmitted = b.streamBytesEmitted
  recordsEstimated : a.recordsEstimated = b.recordsEstimated
  bytesEstimated : a.bytesEstimated = b.bytesEstimated
  streamRecordsEstimated : a.streamRecordsEstimated = b.streamRecordsEstimated
  streamBytesEstimated : a.streamBytesEstimated = b.streamBytesEstimated
  sourceCheckpoints : a.sourceCheckpoints = b.sourceCheckpoints
  destinationCheckpoints : a.destinationCheckpoints = b.destinationCheckpoints
  sourceState : a.sourceState = b.sourceState
  committedState : a.committedState = b.committedState
  sourceError : a.errors.source = b.errors.source
  destinationError : a.errors.destination = b.errors.destination
  failureReason : ∀ timestamp number,
    a.failureReason timestamp number = b.failureReason timestamp number

private theorem reportsAlike_of_views (source : a.sourceView = b.sourceView)
    (destination : a.destinationView = b.destinationView) : a.ReportsAlike b := by
  obtain ⟨_, _, _, _, _, _, _, _, ⟨_, _⟩, _, _⟩ := a
  obtain ⟨_, _, _, _, _, _, _, _, ⟨_, _⟩, _, _⟩ := b
  cases source
  cases destination
  constructor <;> intros <;> rfl

/-! ### Times -/

/-- The times of a run depend on the settings by the memory for them alone. -/
private theorem latency_run_eq {first second : Settings}
    (capacity : first.maxPendingStateBytes = second.maxPendingStateBytes) (h : History) :
    (run first h).attempt.latency = (run second h).attempt.latency := by
  induction h using List.reverseRecOn with
  | nil => exact congrArg Latency.ofCapacity capacity
  | append_singleton h i ih =>
    have sources : (run first h).attempt.sourceCheckpoints =
        (run second h).attempt.sourceCheckpoints := by
      rw [sourceCheckpoints_run, sourceCheckpoints_run]
    have destinations : (run first h).attempt.destinationCheckpoints =
        (run second h).attempt.destinationCheckpoints := by
      rw [destinationCheckpoints_run, destinationCheckpoints_run]
    rw [latency_run_concat, latency_run_concat]
    simp only [latencyAfter, ih, sources, destinations]

/-- However the messages of two sides interleave, and whatever the settings, the clocks and the
health of the ledgers are, two runs give the source the same answers and report the same, apart from
what is committed. With one order, one clock and one limit they report the same times. -/
theorem independent_of_commit_tracking (S D : List Message) (h g : History)
    (first second : Settings) (one : Interleaves S D h) (other : Interleaves S D g) :
    (ofSettings first).answers h = (ofSettings second).answers g ∧
      (run first h).attempt.ReportsAlike (run second g).attempt ∧
      (first.maxPendingStateBytes = second.maxPendingStateBytes →
        (run first h).attempt.latency.timing = (run second h).attempt.latency.timing) := by
  have source : (ofSettings first).sourceView = (ofSettings second).sourceView := rfl
  have destination : (ofSettings first).destinationView = (ofSettings second).destinationView := rfl
  obtain ⟨answers, views⟩ := source_after one source
  obtain ⟨others, also⟩ := source_after other (b := ofSettings second) rfl
  have backs := destination_after one destination
  have back := destination_after other (b := ofSettings second) rfl
  refine ⟨answers.trans others.symm, ?_, fun capacity => ?_⟩
  · rw [attempt_run, attempt_run]
    exact reportsAlike_of_views (views.trans also.symm) (backs.trans back.symm)
  · rw [latency_run_eq capacity]

/-- An acknowledgement that comes too early breaks the ledger of one run; the other one has none. -/
theorem independent_of_commit_tracking_of_early_acknowledgement :
    let e : Message := .estimate (.sync ⟨9, 1⟩)
    let f : Message := .estimate (.stream ⟨"a", none⟩ ⟨9, 1⟩)
    let r : Message := .record ⟨⟨"a", none⟩, .null, 5⟩
    let c : Message := .checkpoint (.global .null)
    let h : History := [(0, .message .destination c), (1, .message .source e),
      (2, .message .source f), (3, .message .source r), (4, .message .source c)]
    let g : History := [(7, .message .source e), (7, .message .source f),
      (7, .message .source r), (7, .message .source c), (7, .message .destination c)]
    (run ⟨64, true, false⟩ h).attempt.isHealthy = false ∧
      (ofSettings ⟨64, true, false⟩).answers h =
        [.ok (), .error (.streamAfterSync ⟨"a", none⟩), .ok (), .ok ()] ∧
      (ofSettings ⟨64, true, false⟩).answers h = (ofSettings ⟨64, false, true⟩).answers g ∧
      (run ⟨64, true, false⟩ h).attempt.ReportsAlike (run ⟨64, false, true⟩ g).attempt ∧
      (run ⟨64, true, false⟩ h).attempt.latency.timing =
        (run ⟨64, false, true⟩ h).attempt.latency.timing := by
  intro e f r c h g
  have one : Interleaves [e, f, r, c] [c] h :=
    .destination 0 c (.source 1 e (.source 2 f (.source 3 r (.source 4 c .nil))))
  have other : Interleaves [e, f, r, c] [c] g :=
    .source 7 e (.source 7 f (.source 7 r (.source 7 c (.destination 7 c .nil))))
  obtain ⟨answers, alike, timing⟩ :=
    independent_of_commit_tracking _ _ h g ⟨64, true, false⟩ ⟨64, false, true⟩ one other
  exact ⟨by decide, by decide, answers, alike, timing rfl⟩

end SyncAccounting.Attempt
