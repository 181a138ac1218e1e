import SyncAccounting.Proofs.Attempt.Step

/-!
The statements of an access to an attempt, in their order, and where a panic may end them. A message
is taken in by moving one part of the attempt after another. In between the clock is read and the
log is written, which is code that the attempt does not know. What the statements do and log, all
together, is a step of the attempt.
-/

set_option autoImplicit false

namespace SyncAccounting.Attempt

def health? (a : Attempt) : Option Bool := a.ledger.map Ledger.isHealthy

inductive Statement where
  /-- Code that is not the attempt's own and touches nothing of it, such as its clock. -/
  | call
  /-- Parts of the attempt are moved on, and its health is not among them. -/
  | work (f : Attempt → Attempt)
  /-- Fields are assigned and what they held is dropped. -/
  | assign (f : Attempt → Attempt)
  | log (e : Event)

namespace Statement

def effect : Statement → Attempt → Attempt
  | call, a | log _, a => a
  | work f, a | assign f, a => f a

def entries : Statement → List Event
  | log e => [e]
  | call | work _ | assign _ => []

end Statement

def execute (a : Attempt) (statements : List Statement) : Attempt :=
  statements.foldl (fun a s => s.effect a) a

def logged (statements : List Statement) : List Event := statements.flatMap Statement.entries

/-- What a panic may leave of an attempt, and what is logged by then. A part that is being moved on
may be left in any state, and an entry may have been written or not. An assignment has no code in it
that could panic. Of the code that writes the log, `faulty` says for which entries it may. -/
inductive Torn (faulty : Event → Prop) : Attempt → List Statement → Attempt → List Event → Prop
  | call (a : Attempt) (rest : List Statement) : Torn faulty a (.call :: rest) a []
  | work {a b : Attempt} (f : Attempt → Attempt) (rest : List Statement)
      (health : b.health? = a.health?) : Torn faulty a (.work f :: rest) b []
  | unwritten (a : Attempt) {e : Event} (rest : List Statement) (fails : faulty e) :
      Torn faulty a (.log e :: rest) a []
  | written (a : Attempt) {e : Event} (rest : List Statement) (fails : faulty e) :
      Torn faulty a (.log e :: rest) a [e]
  | later {a b : Attempt} {entries : List Event} (s : Statement) {rest : List Statement}
      (torn : Torn faulty (s.effect a) rest b entries) :
      Torn faulty a (s :: rest) b (s.entries ++ entries)

/-! ### The statements of each access -/

/-- A call to the ledger that ends in an error has given the books up, with all it wrote there. The
error is what is logged next. -/
def ledgerStatements (index : CheckpointIndex) (o : Ledger.Outcome) : List Statement :=
  match o.2 with
  | .ok () => [.work fun a => { a with ledger := some o.1 }]
  | .error fault =>
    [.work id, .assign fun a => { a with ledger := some o.1 }, .log (.countsUnreliable index fault)]

def latencyStatements (l : Latency) (index : CheckpointIndex) (now : Instant) : List Statement :=
  [.call, .work fun a => { a with latency := l.closeGap now }] ++
    (l.emitted index now).2.map .log ++
    [.work fun a => { a with latency := (l.emitted index now).1 }]

def recordStatements (a : Attempt) (now : Instant) (r : RecordMessage) : List Statement :=
  let position := a.registry.positionOf r.stream
  [.work fun a => { a with registry := a.registry.observe r.stream }] ++
    (if a.registry.isKnown r.stream then [] else [.log (.streamObserved r.stream position)]) ++
    [.work fun a => { a with emission := a.emission.record position r.byteSize },
      .work fun a => { a with ledger := a.ledger.map fun l => l.record position r.byteSize },
      .call, .work fun a => { a with latency := a.latency.record now }]

def checkpointStatements (a : Attempt) (now : Instant) (c : Checkpoint) : List Statement :=
  let index := a.sourceCheckpoints
  [.work fun a => { a with registry := c.stream?.elim a.registry a.registry.observe },
      .work fun a => { a with sourceCheckpoints := index.succ }] ++
    a.ledger.elim [] (fun l =>
      .call :: ledgerStatements index (l.checkpoint index (some c.fingerprint))) ++
    latencyStatements a.latency index now ++
    [.work fun a => { a with sourceState := some (.ingest a.sourceState c) }] ++
    (a.checkpointEvents .source index c).map .log

def acknowledgementStatements (a : Attempt) (now : Instant) (c : Checkpoint) : List Statement :=
  let index := a.destinationCheckpoints
  [.work fun a => { a with destinationCheckpoints := index.succ }] ++
    a.ledger.elim [] (fun l =>
      .call :: (l.mismatch index c.fingerprint).map .log ++
        ledgerStatements index (l.commitUpTo index)) ++
    [.call, .work fun a => { a with latency := a.latency.committed index now },
      .work fun a => { a with committedState := some (.ingest a.committedState c) }] ++
    (a.checkpointEvents .destination index c).map .log

def estimateStatements (a : Attempt) (e : EstimateMessage) : List Statement :=
  .work (fun a => { a with estimates := (a.estimates.apply e).toOption.getD a.estimates }) ::
    match a.estimates.apply e with
    | .ok _ => []
    | .error fault => [.log (.estimateRejected fault)]

def traceStatements (a : Attempt) (side : Side) (t : TraceMessage) : List Statement :=
  match t.error? with
  | none => []
  | some e =>
    [.work fun a => { a with errors := a.errors.report side ⟨e, t.emittedAt⟩ },
      .log (if (a.errors.of side).isSome then .errorIgnored side e.message
        else .errorReported side e.message)]

def messageStatements (a : Attempt) (now : Instant) : Side → Message → List Statement
  | .source, .record r => a.recordStatements now r
  | .source, .checkpoint c => a.checkpointStatements now c
  | .source, .estimate e => a.estimateStatements e
  | .source, .trace t => a.traceStatements .source t
  | .destination, .checkpoint c => a.acknowledgementStatements now c
  | .destination, .trace t => a.traceStatements .destination t
  | .destination, .record _ | .destination, .estimate _ => [.log .destinationIgnored]

def recoveryStatements (a : Attempt) : List Statement :=
  if a.health? = some true then
    [.log .accessInterrupted, .assign fun a => { a with ledger := a.ledger.map Ledger.fail }]
  else []

/-! ### All statements together -/

@[simp]
theorem execute_cons (a : Attempt) (s : Statement) (rest : List Statement) :
    a.execute (s :: rest) = (s.effect a).execute rest := rfl

@[simp]
theorem execute_append (a : Attempt) (first rest : List Statement) :
    a.execute (first ++ rest) = (a.execute first).execute rest := List.foldl_append

@[simp]
theorem execute_log (a : Attempt) (events : List Event) : a.execute (events.map .log) = a := by
  induction events with
  | nil => rfl
  | cons e events ih => exact ih

@[simp]
theorem execute_ledgerStatements (a : Attempt) (index : CheckpointIndex) (o : Ledger.Outcome) :
    a.execute (ledgerStatements index o) = { a with ledger := some o.1 } := by
  obtain ⟨l, result⟩ := o
  cases result <;> rfl

@[simp]
theorem execute_latencyStatements (a : Attempt) (l : Latency) (index : CheckpointIndex)
    (now : Instant) :
    a.execute (latencyStatements l index now) = { a with latency := (l.emitted index now).1 } := by
  rw [latencyStatements, execute_append, execute_append, execute_log]
  rfl

@[simp]
theorem logged_cons (s : Statement) (rest : List Statement) :
    logged (s :: rest) = s.entries ++ logged rest := rfl

@[simp]
theorem logged_append (first rest : List Statement) :
    logged (first ++ rest) = logged first ++ logged rest := List.flatMap_append

@[simp]
theorem logged_log (events : List Event) : logged (events.map .log) = events := by
  induction events with
  | nil => rfl
  | cons e events ih => exact congrArg (e :: ·) ih

@[simp]
theorem logged_ledgerStatements (index : CheckpointIndex) (o : Ledger.Outcome) :
    logged (ledgerStatements index o) = ledgerEvents index o.2 := by
  obtain ⟨l, result⟩ := o
  cases result <;> rfl

@[simp]
theorem logged_latencyStatements (l : Latency) (index : CheckpointIndex) (now : Instant) :
    logged (latencyStatements l index now) = (l.emitted index now).2 := by
  rw [latencyStatements, logged_append, logged_append, logged_log]
  exact List.append_nil _

variable (a : Attempt) (now : Instant)

private theorem recordStatements_done (r : RecordMessage) :
    a.execute (a.recordStatements now r) = (a.sourceRecord now r).1 ∧
      logged (a.recordStatements now r) = (a.sourceRecord now r).2 := by
  rw [recordStatements, sourceRecord]
  cases a.registry.isKnown r.stream <;> exact ⟨rfl, rfl⟩

private theorem checkpointStatements_done (c : Checkpoint) :
    a.execute (a.checkpointStatements now c) = (a.sourceCheckpoint now c).1 ∧
      logged (a.checkpointStatements now c) = (a.sourceCheckpoint now c).2 := by
  obtain ⟨_, _, _, _, ledger, _, _, _, _, _, _⟩ := a
  cases ledger <;>
    simp [checkpointStatements, sourceCheckpoint, Statement.effect, Statement.entries]

private theorem acknowledgementStatements_done (c : Checkpoint) :
    a.execute (a.acknowledgementStatements now c) = (a.destinationCheckpoint now c).1 ∧
      logged (a.acknowledgementStatements now c) = (a.destinationCheckpoint now c).2 := by
  obtain ⟨_, _, _, _, ledger, _, _, _, _, _, _⟩ := a
  cases ledger <;>
    simp [acknowledgementStatements, destinationCheckpoint, Ledger.acknowledge, Statement.effect,
      Statement.entries]

private theorem estimateStatements_done (e : EstimateMessage) :
    a.execute (a.estimateStatements e) = (a.source now (.estimate e)).attempt ∧
      logged (a.estimateStatements e) = (a.source now (.estimate e)).events := by
  cases applied : a.estimates.apply e <;> constructor <;>
    simp only [estimateStatements, source, applied, execute_cons, Statement.effect] <;> rfl

private theorem traceStatements_done (side : Side) (t : TraceMessage) :
    a.execute (a.traceStatements side t) = (a.trace side t).1 ∧
      logged (a.traceStatements side t) = (a.trace side t).2 := by
  rw [traceStatements, trace]
  cases t.error? with
  | none => exact ⟨rfl, rfl⟩
  | some e => cases (a.errors.of side).isSome <;> exact ⟨rfl, rfl⟩

/-- All statements that take a message in are a step. -/
theorem messageStatements_done (side : Side) (m : Message) :
    a.execute (a.messageStatements now side m) = (a.step now (.message side m)).attempt ∧
      logged (a.messageStatements now side m) = (a.step now (.message side m)).events := by
  cases side with
  | source =>
    cases m with
    | record r => exact a.recordStatements_done now r
    | checkpoint c => exact a.checkpointStatements_done now c
    | estimate e => exact a.estimateStatements_done now e
    | trace t => exact a.traceStatements_done .source t
  | destination =>
    cases m with
    | checkpoint c => exact a.acknowledgementStatements_done now c
    | trace t => exact a.traceStatements_done .destination t
    | record r => exact ⟨rfl, rfl⟩
    | estimate e => exact ⟨rfl, rfl⟩

theorem recoveryStatements_done :
    a.execute a.recoveryStatements = a.interrupt.attempt ∧
      logged a.recoveryStatements = a.interrupt.events := by
  obtain ⟨_, _, _, _, ledger, _, _, _, _, _, _⟩ := a
  rcases ledger with _ | _ | _ <;> exact ⟨rfl, rfl⟩

end SyncAccounting.Attempt
