import SyncAccounting.Emission
import SyncAccounting.Estimates
import SyncAccounting.Failure
import SyncAccounting.Latency
import SyncAccounting.Ledger
import SyncAccounting.MergedCheckpoint
import SyncAccounting.Registry
import SyncAccounting.Settings
import SyncAccounting.Wire.Message

/-!
One attempt of a sync, as a state that every message of its two sides moves on. Acknowledgements
carry no number of their own: the n-th one stands for the n-th checkpoint of the source. A run is
the fold of its inputs.
-/

set_option autoImplicit false

namespace SyncAccounting

structure Attempt where
  settings : Settings
  registry : Registry
  emission : Emission
  estimates : Estimates
  /-- None where commits are not tracked. -/
  ledger : Option Ledger
  latency : Latency
  sourceState : Option MergedCheckpoint
  committedState : Option MergedCheckpoint
  errors : FirstErrors
  /-- The number of checkpoints of the source, which is the index of the next one. -/
  sourceCheckpoints : Count
  /-- The number of acknowledgements, which is the index that the next one stands for. -/
  destinationCheckpoints : Count

def Checkpoint.fingerprintText (c : Checkpoint) : String := codec.text c

def Checkpoint.fingerprint (c : Checkpoint) : Fingerprint := .ofText c.fingerprintText

namespace Attempt

def ofSettings (settings : Settings) : Attempt where
  settings := settings
  registry := .empty
  emission := .empty
  estimates := .unset
  ledger :=
    if settings.commitTrackingEnabled then some (.ofLimit settings.maxPendingStateBytes) else none
  latency := .ofCapacity settings.maxPendingStateBytes
  sourceState := none
  committedState := none
  errors := .empty
  sourceCheckpoints := 0
  destinationCheckpoints := 0

/-- Commits that are not tracked have not failed. -/
def isHealthy (a : Attempt) : Bool := a.ledger.all Ledger.isHealthy

def ledgerEvents (index : CheckpointIndex) : Except Fault Unit → List Event
  | .ok () => []
  | .error fault => [.countsUnreliable index fault]

def checkpointEvents (a : Attempt) (side : Side) (index : CheckpointIndex) (c : Checkpoint) :
    List Event :=
  if a.settings.logCheckpoints then [.checkpointSeen side index c.kind] else []

def sourceRecord (a : Attempt) (now : Instant) (r : RecordMessage) : Attempt × List Event :=
  let position := a.registry.positionOf r.stream
  ({ a with
      registry := a.registry.observe r.stream
      emission := a.emission.record position r.byteSize
      ledger := a.ledger.map fun l => l.record position r.byteSize
      latency := a.latency.record now },
    if a.registry.isKnown r.stream then [] else [.streamObserved r.stream position])

def sourceCheckpoint (a : Attempt) (now : Instant) (c : Checkpoint) : Attempt × List Event :=
  let index := a.sourceCheckpoints
  let closed := a.ledger.map fun l => l.checkpoint index (some c.fingerprint)
  let (latency, latencyEvents) := a.latency.emitted index now
  ({ a with
      registry := c.stream?.elim a.registry a.registry.observe
      ledger := closed.map Prod.fst
      latency := latency
      sourceState := some (.ingest a.sourceState c)
      sourceCheckpoints := index.succ },
    closed.elim [] (fun o => ledgerEvents index o.2) ++ latencyEvents ++
      a.checkpointEvents .source index c)

def destinationCheckpoint (a : Attempt) (now : Instant) (c : Checkpoint) : Attempt × List Event :=
  let index := a.destinationCheckpoints
  let folded := a.ledger.map fun l => l.acknowledge index c.fingerprint
  ({ a with
      ledger := folded.map fun o => o.1.1
      latency := a.latency.committed index now
      committedState := some (.ingest a.committedState c)
      destinationCheckpoints := index.succ },
    folded.elim [] (fun o => o.2 ++ ledgerEvents index o.1.2) ++
      a.checkpointEvents .destination index c)

/-- A trace of either side; only the first error of a side counts. -/
def trace (a : Attempt) (side : Side) (t : TraceMessage) : Attempt × List Event :=
  match t.error? with
  | none => (a, [])
  | some e =>
    ({ a with errors := a.errors.report side ⟨e, t.emittedAt⟩ },
      if (a.errors.of side).isSome then [.errorIgnored side e.message]
      else [.errorReported side e.message])

/-- What an input leads to: the state after it, the answer to the sender, and what is logged. -/
structure Outcome where
  attempt : Attempt
  answer : Except Fault Unit
  events : List Event

def accepted (r : Attempt × List Event) : Outcome := ⟨r.1, .ok (), r.2⟩

def source (a : Attempt) (now : Instant) : Message → Outcome
  | .record r => accepted (a.sourceRecord now r)
  | .checkpoint c => accepted (a.sourceCheckpoint now c)
  | .estimate e =>
    match a.estimates.apply e with
    | .ok estimates => ⟨{ a with estimates := estimates }, .ok (), []⟩
    | .error fault => ⟨a, .error fault, [.estimateRejected fault]⟩
  | .trace t => accepted (a.trace .source t)

def destination (a : Attempt) (now : Instant) : Message → Outcome
  | .checkpoint c => accepted (a.destinationCheckpoint now c)
  | .trace t => accepted (a.trace .destination t)
  | .record _ | .estimate _ => ⟨a, .ok (), [.destinationIgnored]⟩

/-- An access that was cut short may have left a fold half done, so the ledger fails. -/
def interrupt (a : Attempt) : Outcome :=
  match a.ledger with
  | some (.healthy books) =>
    ⟨{ a with ledger := some (Ledger.fail (.healthy books)) }, .ok (), [.accessInterrupted]⟩
  | _ => ⟨a, .ok (), []⟩

/-- What can happen to an attempt. -/
inductive Input where
  | message (side : Side) (m : Message)
  | interruption

def step (a : Attempt) (now : Instant) : Input → Outcome
  | .message .source m => a.source now m
  | .message .destination m => a.destination now m
  | .interruption => a.interrupt

structure Run where
  attempt : Attempt
  events : List Event

def Run.step (r : Run) (input : Instant × Input) : Run :=
  let outcome := r.attempt.step input.1 input.2
  ⟨outcome.attempt, r.events ++ outcome.events⟩

def run (settings : Settings) (inputs : List (Instant × Input)) : Run :=
  inputs.foldl Run.step ⟨.ofSettings settings, []⟩

end Attempt

end SyncAccounting
