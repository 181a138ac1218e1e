import SyncAccounting.Proofs.Ledger.Resemblance
import SyncAccounting.Proofs.Noninterference

/-!
Payloads are opaque. An attempt hands the data of records and checkpoints on and holds fingerprints
of them, but what it counts, what it claims and whether it fails are a matter of streams, sizes and
order alone.
-/

set_option autoImplicit false

namespace SyncAccounting.Attempt

/-- Inputs that differ at most in what they carry: a record in its data, a checkpoint of the source
in its data, a trace in all that it says, and whatever the destination sends in all but its type. -/
inductive Input.Alike : Input → Input → Prop
  | record {r s : RecordMessage} (stream : r.stream = s.stream) (size : r.byteSize = s.byteSize) :
      Alike (.message .source (.record r)) (.message .source (.record s))
  | checkpoint {c d : Checkpoint} (kind : c.kind = d.kind) (stream : c.stream? = d.stream?) :
      Alike (.message .source (.checkpoint c)) (.message .source (.checkpoint d))
  | estimate (e : EstimateMessage) :
      Alike (.message .source (.estimate e)) (.message .source (.estimate e))
  | trace (side : Side) (t u : TraceMessage) :
      Alike (.message side (.trace t)) (.message side (.trace u))
  | acknowledgement (c d : Checkpoint) :
      Alike (.message .destination (.checkpoint c)) (.message .destination (.checkpoint d))
  | strayRecord (r s : RecordMessage) :
      Alike (.message .destination (.record r)) (.message .destination (.record s))
  | strayEstimate (e f : EstimateMessage) :
      Alike (.message .destination (.estimate e)) (.message .destination (.estimate f))
  | interruption : Alike .interruption .interruption

def Timed (i j : Instant × Input) : Prop := i.1 = j.1 ∧ i.2.Alike j.2

private theorem Input.Alike.refl (input : Input) : input.Alike input := by
  cases input with
  | interruption => exact .interruption
  | message side m =>
    cases m with
    | trace t => exact .trace side t t
    | record r =>
      cases side with
      | source => exact .record rfl rfl
      | destination => exact .strayRecord r r
    | checkpoint c =>
      cases side with
      | source => exact .checkpoint rfl rfl
      | destination => exact .acknowledgement c c
    | estimate e =>
      cases side with
      | source => exact .estimate e
      | destination => exact .strayEstimate e e

structure Alike (a b : Attempt) : Prop where
  registry : a.registry = b.registry
  emission : a.emission = b.emission
  estimates : a.estimates = b.estimates
  ledger : Option.Rel Ledger.Alike a.ledger b.ledger
  latency : a.latency = b.latency
  sourceCheckpoints : a.sourceCheckpoints = b.sourceCheckpoints
  destinationCheckpoints : a.destinationCheckpoints = b.destinationCheckpoints

variable {a b : Attempt}

private theorem reads_of_rel {x y : Option Ledger} (ledgers : Option.Rel Ledger.Alike x y) :
    x.all Ledger.isHealthy = y.all Ledger.isHealthy ∧
      x.bind Ledger.committed? = y.bind Ledger.committed? ∧
      x.map Ledger.budget = y.map Ledger.budget := by
  cases ledgers with
  | none => exact ⟨rfl, rfl, rfl⟩
  | some alike => exact ⟨alike.isHealthy_eq, alike.committed?_eq, congrArg some alike.budget_eq⟩

private theorem rel_performAll {x y : Option Ledger} (ledgers : Option.Rel Ledger.Alike x y)
    {calls others : List Ledger.Call} (same : List.Forall₂ Ledger.Call.Alike calls others) :
    Option.Rel Ledger.Alike (x.map fun l => l.performAll calls)
      (y.map fun l => l.performAll others) := by
  cases ledgers with
  | none => exact .none
  | some alike => exact .some (Ledger.alike_performAll alike same)

namespace Alike

private theorem isHealthy_eq (alike : a.Alike b) : a.isHealthy = b.isHealthy :=
  (reads_of_rel alike.ledger).1

private theorem summary_eq (alike : a.Alike b) : a.summary = b.summary := by
  obtain ⟨-, known, granted⟩ := reads_of_rel alike.ledger
  have committed : a.committed? = b.committed? := known
  have budget : a.budget? = b.budget? := granted
  simp only [summary, recordsEmitted, bytesEmitted, recordsEstimated, bytesEstimated,
    recordsCommitted, bytesCommitted, maxSnapshotBytes, pendingStateBytes, streamSummary,
    alike.registry, alike.emission, alike.estimates, alike.latency, alike.sourceCheckpoints,
    alike.destinationCheckpoints, committed, budget]

private theorem calls (alike : a.Alike b) {i j : Input} (inputs : i.Alike j) :
    List.Forall₂ Ledger.Call.Alike (a.call? i).toList (b.call? j).toList := by
  cases inputs with
  | record stream size =>
    simp only [call?, alike.registry, stream, size]
    exact .cons (.record _ _) .nil
  | checkpoint kind stream =>
    simp only [call?, alike.sourceCheckpoints]
    exact .cons (.checkpoint _ _ _) .nil
  | acknowledgement c d =>
    simp only [call?, alike.destinationCheckpoints]
    exact .cons (.acknowledge _ _ _) .nil
  | interruption =>
    simp only [call?, alike.isHealthy_eq]
    split
    · exact .cons .markFailed .nil
    · exact .nil
  | trace side t u => cases side <;> exact .nil
  | estimate e => exact .nil
  | strayRecord r s => exact .nil
  | strayEstimate e f => exact .nil

/-- One step keeps attempts alike. -/
private theorem step (alike : a.Alike b) (now : Instant) {i j : Input} (inputs : i.Alike j) :
    (a.step now i).attempt.Alike (b.step now j).attempt := by
  have ledger := rel_performAll alike.ledger (alike.calls inputs)
  rw [step_attempt, step_attempt]
  cases inputs with
  | record stream size =>
    refine ⟨?_, ?_, alike.estimates, ledger, ?_, alike.sourceCheckpoints,
      alike.destinationCheckpoints⟩
    · simp only [Input.stream?, Option.elim_some, alike.registry, stream]
    · simp only [Input.record?, Option.elim_some, alike.registry, alike.emission, stream, size]
    · simp only [latencyAfter, alike.latency]
  | @checkpoint c d kind stream =>
    refine ⟨?_, alike.emission, alike.estimates, ledger, ?_, ?_, alike.destinationCheckpoints⟩
    · simp only [Input.stream?, alike.registry, stream]
    · simp only [latencyAfter, alike.latency, alike.sourceCheckpoints]
    · simp only [Input.checkpoint?, Option.elim_some, alike.sourceCheckpoints]
  | acknowledgement c d =>
    refine ⟨alike.registry, alike.emission, alike.estimates, ledger, ?_, alike.sourceCheckpoints,
      ?_⟩
    · simp only [latencyAfter, alike.latency, alike.destinationCheckpoints]
    · simp only [Input.acknowledgement?, Option.elim_some, alike.destinationCheckpoints]
  | estimate e =>
    refine ⟨alike.registry, alike.emission, ?_, ledger, alike.latency, alike.sourceCheckpoints,
      alike.destinationCheckpoints⟩
    simp only [Input.estimate?, Option.elim_some, alike.estimates]
  | trace side t u =>
    cases side <;> exact ⟨alike.registry, alike.emission, alike.estimates, ledger, alike.latency,
      alike.sourceCheckpoints, alike.destinationCheckpoints⟩
  | strayRecord r s => exact ⟨alike.registry, alike.emission, alike.estimates, ledger,
      alike.latency, alike.sourceCheckpoints, alike.destinationCheckpoints⟩
  | strayEstimate e f => exact ⟨alike.registry, alike.emission, alike.estimates, ledger,
      alike.latency, alike.sourceCheckpoints, alike.destinationCheckpoints⟩
  | interruption => exact ⟨alike.registry, alike.emission, alike.estimates, ledger,
      alike.latency, alike.sourceCheckpoints, alike.destinationCheckpoints⟩

private theorem after (alike : a.Alike b) {h g : History} (inputs : List.Forall₂ Timed h g) :
    (a.after h).Alike (b.after g) := by
  induction inputs generalizing a b with
  | nil => exact alike
  | @cons i j h g first rest ih =>
    obtain ⟨now, i⟩ := i
    obtain ⟨later, j⟩ := j
    obtain ⟨rfl, same⟩ := first
    exact ih (alike.step now same)

end Alike

private theorem alike_ofSettings (settings : Settings) :
    (ofSettings settings).Alike (ofSettings settings) := by
  refine ⟨rfl, rfl, rfl, ?_, rfl, rfl, rfl⟩
  rw [ofSettings]
  cases settings.commitTrackingEnabled with
  | false => exact .none
  | true => exact .some (.healthy ⟨rfl, rfl, rfl, rfl, rfl, rfl⟩)

private theorem timed_refl (h : History) : List.Forall₂ Timed h h :=
  List.forall₂_same.2 fun i _ => ⟨rfl, .refl i.2⟩

/-- Two runs with the same settings and times, whose inputs differ at most in what they carry, read
the same health and report the same summary after every input. So an acknowledgement that carries
other data than its checkpoint commits what one with the same data does. -/
theorem summary_independent_of_payloads (settings : Settings) :
    (∀ h g : History, List.Forall₂ Timed h g → ∀ n : Nat,
      (run settings (h.take n)).attempt.isHealthy = (run settings (g.take n)).attempt.isHealthy ∧
        (run settings (h.take n)).attempt.summary = (run settings (g.take n)).attempt.summary) ∧
      ∀ (before rest : History) (now : Instant) (c d : Checkpoint),
        (run settings
            (before ++ (now, .message .destination (.checkpoint c)) :: rest)).attempt.summary =
          (run settings
            (before ++ (now, .message .destination (.checkpoint d)) :: rest)).attempt.summary := by
  have alike {h g : History} (inputs : List.Forall₂ Timed h g) :
      (run settings h).attempt.Alike (run settings g).attempt := by
    rw [attempt_run, attempt_run]
    exact (alike_ofSettings settings).after inputs
  refine ⟨fun h g inputs n => ?_, fun before rest now c d => ?_⟩
  · have prefixes := alike (List.forall₂_take n inputs)
    exact ⟨prefixes.isHealthy_eq, prefixes.summary_eq⟩
  · have inputs : List.Forall₂ Timed
        (before ++ (now, .message .destination (.checkpoint c)) :: rest)
        (before ++ (now, .message .destination (.checkpoint d)) :: rest) :=
      List.rel_append (timed_refl before) (.cons ⟨rfl, .acknowledgement c d⟩ (timed_refl rest))
    exact (alike inputs).summary_eq

/-- An acknowledgement of another kind than its checkpoint commits the five bytes before it. -/
theorem summary_independent_of_payloads_of_mismatch :
    let r : RecordMessage := ⟨⟨"a", none⟩, .null, 5⟩
    let h : History := [(0, .message .source (.record r)),
      (1, .message .source (.checkpoint (.global .null))),
      (2, .message .destination (.checkpoint (.global .null)))]
    let g : History := [(0, .message .source (.record { r with data := .string "b" })),
      (1, .message .source (.checkpoint (.global (.bool true)))),
      (2, .message .destination (.checkpoint (.stream ⟨"b", none⟩ .null)))]
    List.Forall₂ Timed h g ∧
      (run .default h).attempt.summary.bytesCommitted = some 5 ∧
      (run .default g).attempt.summary.bytesCommitted = some 5 := by
  intro r h g
  have inputs : List.Forall₂ Timed h g :=
    .cons ⟨rfl, .record rfl rfl⟩ (.cons ⟨rfl, .checkpoint rfl rfl⟩
      (.cons ⟨rfl, .acknowledgement _ _⟩ .nil))
  have committed : (run .default h).attempt.summary.bytesCommitted = some 5 := by decide
  obtain ⟨-, same⟩ := (summary_independent_of_payloads .default).1 h g inputs 3
  exact ⟨inputs, committed, same ▸ committed⟩

end SyncAccounting.Attempt
