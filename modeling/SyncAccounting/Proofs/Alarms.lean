import Mathlib.Logic.Relation
import SyncAccounting.Proofs.Attempt.Access

/-!
An attempt that fails says so once. Both sides, and whoever asks, share an attempt behind a lock and
take turns. A panic may end an access between any two of its statements or within one, and the next
access recovers from that before it does anything else. Nothing but the log call of an error can
panic between the giving up of a ledger and the entry that says so. Where such a call returns, the
log has one entry at the level of an error if the ledger has failed, and none if it has not.
-/

set_option autoImplicit false

namespace SyncAccounting

def Event.alarms (log : List Event) : Nat := log.countP (·.level = .error)

private theorem Event.alarms_append (log more : List Event) :
    alarms (log ++ more) = alarms log + alarms more :=
  List.countP_append

namespace Attempt

/-- What takes the lock: a message that is taken in, or a read, which shows what is behind the lock
to code of the reader. -/
inductive Access where
  | message (now : Instant) (side : Side) (m : Message)
  | read

def accessStatements (a : Attempt) : Access → List Statement
  | .message now side m => a.messageStatements now side m
  | .read => [.call]

/-- An attempt behind its lock, and all that has been logged. -/
structure Shared where
  attempt : Attempt
  /-- Whether a panic has ended the last access. -/
  poisoned : Bool
  events : List Event

namespace Shared

def start (settings : Settings) : Shared := ⟨.ofSettings settings, false, []⟩

def recovery (s : Shared) : List Statement :=
  if s.poisoned then s.attempt.recoveryStatements else []

def statements (s : Shared) (access : Access) : List Statement :=
  s.recovery ++ (s.attempt.execute s.recovery).accessStatements access

def after (s : Shared) (access : Access) : Shared :=
  ⟨s.attempt.execute (s.statements access), false, s.events ++ logged (s.statements access)⟩

/-- What may come next. -/
inductive Next (faulty : Event → Prop) (s : Shared) : Shared → Prop
  | done (access : Access) : Next faulty s (s.after access)
  | cut (access : Access) {rest : Attempt} {entries : List Event}
      (torn : Torn faulty s.attempt (s.statements access) rest entries) :
      Next faulty s ⟨rest, true, s.events ++ entries⟩

end Shared

/-! ### What the entries of a log say -/

def alarmsDue : Option Bool → Nat
  | some false => 1
  | some true | none => 0

private theorem alarmsDue_health (a : Attempt) :
    alarmsDue a.health? = if a.isHealthy then 0 else 1 := by
  obtain ⟨_, _, _, _, ledger, _, _, _, _, _, _⟩ := a
  rcases ledger with _ | _ | _ <;> rfl

/-- The entries that were logged between two states say whether the ledger failed in between, and
there is a ledger in both or in none. -/
structure Announced (a b : Attempt) (entries : List Event) : Prop where
  alarms : alarmsDue a.health? + Event.alarms entries = alarmsDue b.health?
  tracked : b.health?.isSome = a.health?.isSome

namespace Announced

variable {a b c : Attempt} {entries more : List Event}

private theorem of_quiet (health : b.health? = a.health?) (quiet : Event.alarms entries = 0) :
    Announced a b entries := by
  constructor <;> simp only [health, quiet, Nat.add_zero]

private theorem trans (first : Announced a b entries) (rest : Announced b c more) :
    Announced a c (entries ++ more) := by
  refine ⟨?_, rest.tracked.trans first.tracked⟩
  rw [Event.alarms_append, ← Nat.add_assoc, first.alarms, rest.alarms]

private theorem of_failed {e : Event} (healthy : a.health? = some true)
    (failed : b.health? = some false) (loud : e.level = .error) : Announced a b [e] := by
  constructor <;> simp [healthy, failed, alarmsDue, Event.alarms, loud]

end Announced

/-! ### Candid statements -/

/-- Statements that log an error next to giving the ledger up, and change its health nowhere else.
-/
inductive Candid : Attempt → List Statement → Prop
  | nil (a : Attempt) : Candid a []
  | call {a : Attempt} {rest : List Statement} (candid : Candid a rest) :
      Candid a (.call :: rest)
  | work {a : Attempt} {f : Attempt → Attempt} {rest : List Statement}
      (health : (f a).health? = a.health?) (candid : Candid (f a) rest) :
      Candid a (.work f :: rest)
  | log {a : Attempt} {e : Event} {rest : List Statement} (quiet : e.level ≠ .error)
      (candid : Candid a rest) : Candid a (.log e :: rest)
  | fail {a : Attempt} {f : Attempt → Attempt} {e : Event} {rest : List Statement}
      (healthy : a.health? = some true) (failed : (f a).health? = some false)
      (loud : e.level = .error) (candid : Candid (f a) rest) :
      Candid a (.assign f :: .log e :: rest)
  | recover {a : Attempt} {f : Attempt → Attempt} {e : Event} {rest : List Statement}
      (healthy : a.health? = some true) (failed : (f a).health? = some false)
      (loud : e.level = .error) (candid : Candid (f a) rest) :
      Candid a (.log e :: .assign f :: rest)

namespace Candid

variable {a b : Attempt} {statements rest : List Statement} {entries : List Event}

private theorem append (first : Candid a statements) (later : Candid (a.execute statements) rest) :
    Candid a (statements ++ rest) := by
  induction first with
  | nil a => exact later
  | call _ ih => exact .call (ih later)
  | work health _ ih => exact .work health (ih later)
  | log quiet _ ih => exact .log quiet (ih later)
  | fail healthy failed loud _ ih => exact .fail healthy failed loud (ih later)
  | recover healthy failed loud _ ih => exact .recover healthy failed loud (ih later)

private theorem of_quiet {events : List Event} (quiet : ∀ e ∈ events, e.level ≠ .error) :
    Candid a (events.map .log) := by
  induction events with
  | nil => exact .nil a
  | cons e events ih =>
    obtain ⟨first, later⟩ := List.forall_mem_cons.1 quiet
    exact .log first (ih later)

private theorem alarms_singleton {e : Event} (quiet : e.level ≠ .error) :
    Event.alarms [e] = 0 := by
  simp [Event.alarms, quiet]

private theorem announced (candid : Candid a statements) :
    Announced a (a.execute statements) (logged statements) := by
  induction candid with
  | nil a => exact .of_quiet rfl rfl
  | call _ ih => exact ih
  | @work a f _ health _ ih =>
    have moved : Announced a (f a) [] := .of_quiet health rfl
    exact moved.trans ih
  | log quiet _ ih => exact (Announced.of_quiet rfl (alarms_singleton quiet)).trans ih
  | fail healthy failed loud _ ih => exact (Announced.of_failed healthy failed loud).trans ih
  | recover healthy failed loud _ ih => exact (Announced.of_failed healthy failed loud).trans ih

/-- The statements up to a panic. The two that fail a ledger are either both ahead of it or both
behind it, for the assignment cannot panic and the log call returns. -/
private theorem announced_of_torn {faulty : Event → Prop}
    (returns : ∀ e, e.level = .error → ¬faulty e) (candid : Candid a statements)
    (torn : Torn faulty a statements b entries) :
    Announced a b entries := by
  induction candid generalizing b entries with
  | nil a => cases torn
  | call _ ih =>
    cases torn with
    | call => exact .of_quiet rfl rfl
    | later _ torn => exact ih torn
  | @work a f _ health _ ih =>
    cases torn with
    | work _ _ half => exact .of_quiet half rfl
    | later _ torn =>
      have moved : Announced a (f a) [] := .of_quiet health rfl
      exact moved.trans (ih torn)
  | log quiet _ ih =>
    cases torn with
    | unwritten => exact .of_quiet rfl rfl
    | written => exact .of_quiet rfl (alarms_singleton quiet)
    | later _ torn => exact (Announced.of_quiet rfl (alarms_singleton quiet)).trans (ih torn)
  | fail healthy failed loud _ ih =>
    cases torn with
    | later _ torn =>
      cases torn with
      | unwritten _ _ fails => exact (returns _ loud fails).elim
      | written _ _ fails => exact (returns _ loud fails).elim
      | later _ torn => exact (Announced.of_failed healthy failed loud).trans (ih torn)
  | recover healthy failed loud _ ih =>
    cases torn with
    | unwritten _ _ fails => exact (returns _ loud fails).elim
    | written _ _ fails => exact (returns _ loud fails).elim
    | later _ torn =>
      cases torn with
      | later _ torn => exact (Announced.of_failed healthy failed loud).trans (ih torn)

end Candid
end Attempt

/-! ### Every access is candid -/

namespace Ledger

inductive Ends (l : Ledger) : Outcome → Prop
  | kept {m : Ledger} (health : m.isHealthy = l.isHealthy) : Ends l (m, .ok ())
  | failed {m : Ledger} (fault : Fault) (healthy : l.isHealthy = true)
      (failed : m.isHealthy = false) : Ends l (m, .error fault)

private theorem ends_insert {l : Ledger} (healthy : l.isHealthy = true) (b : Books)
    (index : CheckpointIndex) (s : Snapshot) : l.Ends (insert b index s) := by
  cases order : b.lastAdded.filter (index ≤ ·) with
  | some last =>
    rw [insert_outOfOrder s order]
    exact .failed _ healthy rfl
  | none =>
    by_cases room : s.cost ≤ b.budget.remaining
    · rw [insert_accepted ⟨order, room⟩]
      exact .kept healthy.symm
    · rw [insert_overBudget order room]
      exact .failed _ healthy rfl

private theorem ends_checkpoint (l : Ledger) (index : CheckpointIndex)
    (fingerprint : Option Fingerprint) :
    l.Ends (l.checkpoint index fingerprint) := by
  cases l with
  | failed budget => exact .kept rfl
  | healthy b => exact ends_insert rfl _ index _

private theorem ends_commitUpTo (l : Ledger) (index : CheckpointIndex) :
    l.Ends (l.commitUpTo index) := by
  cases l with
  | failed budget => exact .kept rfl
  | healthy b =>
    by_cases pending : (b.pending.find? index).isSome
    · rw [commitUpTo_pending pending]
      exact .kept rfl
    by_cases folded : b.committedThrough.any (index ≤ ·)
    · rw [commitUpTo_folded pending folded]
      exact .kept rfl
    · rw [commitUpTo_unknown pending folded]
      exact .failed _ rfl rfl

end Ledger

namespace Attempt

variable (a : Attempt) (now : Instant)

private theorem quiet_checkpointEvents (side : Side) (index : CheckpointIndex) (c : Checkpoint) :
    ∀ e ∈ a.checkpointEvents side index c, e.level ≠ .error := by
  rw [checkpointEvents]
  split <;> simp [Event.level]

private theorem quiet_mismatch (l : Ledger) (index : CheckpointIndex) (fingerprint : Fingerprint) :
    ∀ e ∈ l.mismatch index fingerprint, e.level ≠ .error := by
  rw [Ledger.mismatch]
  split <;> simp [Event.level]

private theorem quiet_emitted (l : Latency) (index : CheckpointIndex) (now : Instant) :
    ∀ e ∈ (l.emitted index now).2, e.level ≠ .error := by
  unfold Latency.emitted
  dsimp only
  split
  · simp
  · split <;> simp [Event.level]

variable {a}

private theorem candid_ledgerStatements {l : Ledger} (ledger : a.ledger = some l)
    (index : CheckpointIndex) {o : Ledger.Outcome} (ends : l.Ends o) :
    Candid a (ledgerStatements index o) := by
  have before : a.health? = some l.isHealthy := by rw [health?, ledger, Option.map_some]
  cases ends with
  | kept health => exact .work (before ▸ congrArg some health) (.nil _)
  | failed fault healthy failed =>
    exact .work rfl (.fail (before ▸ congrArg some healthy) (congrArg some failed) rfl (.nil _))

private theorem candid_latencyStatements (l : Latency) (index : CheckpointIndex) :
    Candid a (latencyStatements l index now) :=
  .append (.append (.call (.work rfl (.nil _))) (.of_quiet (quiet_emitted l index now)))
    (.work rfl (.nil _))

variable (a)

private theorem candid_recordStatements (r : RecordMessage) :
    Candid a (a.recordStatements now r) := by
  have ledger (a : Attempt) (position : Nat) : Candid a
      [.work fun a => { a with emission := a.emission.record position r.byteSize },
        .work fun a => { a with ledger := a.ledger.map fun l => l.record position r.byteSize },
        .call, .work fun a => { a with latency := a.latency.record now }] := by
    refine .work rfl (.work ?_ (.call (.work rfl (.nil _))))
    obtain ⟨_, _, _, _, ledger, _, _, _, _, _, _⟩ := a
    rcases ledger with _ | _ | _ <;> rfl
  refine .append (.append (.work rfl (.nil _)) ?_) (ledger _ _)
  cases a.registry.isKnown r.stream with
  | true => exact .nil _
  | false => exact .log (by simp [Event.level]) (.nil _)

private theorem candid_checkpointStatements (c : Checkpoint) :
    Candid a (a.checkpointStatements now c) := by
  refine .append (.append (.append (.append (.work rfl (.work rfl (.nil _))) ?_)
    (candid_latencyStatements now _ _)) (.work rfl (.nil _)))
    (.of_quiet (quiet_checkpointEvents _ _ _ _))
  cases ledger : a.ledger with
  | none => exact .nil _
  | some l => exact .call (candid_ledgerStatements (by exact ledger) _ (l.ends_checkpoint _ _))

private theorem candid_acknowledgementStatements (c : Checkpoint) :
    Candid a (a.acknowledgementStatements now c) := by
  refine .append (.append (.append (.work rfl (.nil _)) ?_)
    (.call (.work rfl (.work rfl (.nil _))))) (.of_quiet (quiet_checkpointEvents _ _ _ _))
  cases ledger : a.ledger with
  | none => exact .nil _
  | some l =>
    refine .call (.append (.of_quiet (quiet_mismatch _ _ _)) ?_)
    rw [execute_log]
    exact candid_ledgerStatements (by exact ledger) _ (l.ends_commitUpTo _)

private theorem candid_estimateStatements (e : EstimateMessage) :
    Candid a (a.estimateStatements e) := by
  refine .work rfl ?_
  cases a.estimates.apply e with
  | ok estimates => exact .nil _
  | error fault => exact .log (by simp [Event.level]) (.nil _)

private theorem candid_traceStatements (side : Side) (t : TraceMessage) :
    Candid a (a.traceStatements side t) := by
  rw [traceStatements]
  cases t.error? with
  | none => exact .nil _
  | some e =>
    refine .work rfl (.log ?_ (.nil _))
    split <;> simp [Event.level]

private theorem candid_accessStatements (access : Access) :
    Candid a (a.accessStatements access) := by
  cases access with
  | read => exact .call (.nil _)
  | message now side m =>
    cases side with
    | source =>
      cases m with
      | record r => exact a.candid_recordStatements now r
      | checkpoint c => exact a.candid_checkpointStatements now c
      | estimate e => exact a.candid_estimateStatements e
      | trace t => exact a.candid_traceStatements .source t
    | destination =>
      cases m with
      | checkpoint c => exact a.candid_acknowledgementStatements now c
      | trace t => exact a.candid_traceStatements .destination t
      | record r => exact .log (by simp [Event.level]) (.nil _)
      | estimate e => exact .log (by simp [Event.level]) (.nil _)

private theorem candid_recoveryStatements : Candid a a.recoveryStatements := by
  rw [recoveryStatements]
  split
  · next healthy =>
    refine .recover healthy ?_ rfl (.nil _)
    obtain ⟨_, _, _, _, ledger, _, _, _, _, _, _⟩ := a
    cases ledger with
    | none => cases healthy
    | some l => rfl
  · exact .nil _

/-! ### All accesses -/

namespace Shared

variable {settings : Settings} {faulty : Event → Prop} {s t : Shared}

private theorem candid_statements (s : Shared) (access : Access) :
    Candid s.attempt (s.statements access) := by
  refine .append ?_ (candid_accessStatements _ access)
  rw [recovery]
  split
  · exact s.attempt.candid_recoveryStatements
  · exact .nil _

private theorem Next.announced (returns : ∀ e, e.level = .error → ¬faulty e)
    (next : Next faulty s t) :
    ∃ entries, t.events = s.events ++ entries ∧ Announced s.attempt t.attempt entries := by
  cases next with
  | done access => exact ⟨_, rfl, (s.candid_statements access).announced⟩
  | cut access torn =>
    exact ⟨_, rfl, (s.candid_statements access).announced_of_torn returns torn⟩

private theorem announced_of_reached (returns : ∀ e, e.level = .error → ¬faulty e)
    (reached : Relation.ReflTransGen (Next faulty) (start settings) s) :
    Announced (ofSettings settings) s.attempt s.events := by
  induction reached with
  | refl => exact .of_quiet rfl rfl
  | tail _ next ih =>
    obtain ⟨entries, longer, announced⟩ := next.announced returns
    rw [longer]
    exact ih.trans announced

private theorem alarms_of_announced {a : Attempt} {events : List Event}
    (announced : Announced (ofSettings settings) a events) :
    Event.alarms events = if a.isHealthy then 0 else 1 := by
  have fresh : alarmsDue (ofSettings settings).health? = 0 := by
    rw [health?, ofSettings]
    cases settings.commitTrackingEnabled <;> rfl
  rw [← alarmsDue_health, ← announced.alarms, fresh, Nat.zero_add]

private theorem isHealthy_of_announced (disabled : settings.commitTrackingEnabled = false)
    {a : Attempt} {events : List Event} (announced : Announced (ofSettings settings) a events) :
    a.isHealthy = true := by
  have untracked : (ofSettings settings).health? = none := by
    rw [health?, ofSettings, disabled]
    rfl
  have still : a.health?.isSome = false := by rw [announced.tracked, untracked, Option.isSome_none]
  obtain ⟨_, _, _, _, ledger, _, _, _, _, _, _⟩ := a
  cases ledger with
  | none => rfl
  | some l => cases still

private theorem after_message (clean : s.poisoned = false) (now : Instant) (side : Side)
    (m : Message) :
    s.after (.message now side m) =
      ⟨(s.attempt.step now (.message side m)).attempt, false,
        s.events ++ (s.attempt.step now (.message side m)).events⟩ := by
  obtain ⟨attempt, events⟩ := s.attempt.messageStatements_done now side m
  have nothing : s.recovery = [] := if_neg (Bool.eq_false_iff.1 clean)
  rw [after, statements, nothing, List.nil_append, ← attempt, ← events]
  rfl

private theorem after_read (poisoned : s.poisoned = true) :
    s.after .read =
      ⟨s.attempt.interrupt.attempt, false, s.events ++ s.attempt.interrupt.events⟩ := by
  obtain ⟨attempt, events⟩ := s.attempt.recoveryStatements_done
  have recovers : s.recovery = s.attempt.recoveryStatements := if_pos poisoned
  rw [after, statements, recovers, execute_append, logged_append, attempt, events]
  exact congrArg _ (congrArg _ (List.append_nil _))

private theorem next_of_torn_read (s : Shared) (clean : s.poisoned = false) :
    Next faulty s { s with poisoned := true } := by
  have nothing : s.recovery = [] := if_neg (Bool.eq_false_iff.1 clean)
  have torn : Torn faulty s.attempt (s.statements .read) s.attempt [] := by
    rw [statements, nothing]
    exact .call s.attempt []
  have next := Next.cut .read torn
  rwa [List.append_nil] at next

/-- A run is a sequence of accesses: an interruption is a read that is cut short, and one that is
not. -/
theorem reached_run (settings : Settings) (faulty : Event → Prop) (h : History) :
    Relation.ReflTransGen (Next faulty) (start settings)
      ⟨(run settings h).attempt, false, (run settings h).events⟩ := by
  induction h using List.reverseRecOn with
  | nil => exact .refl
  | append_singleton h i ih =>
    rw [run_append]
    obtain ⟨now, input⟩ := i
    let s : Shared := ⟨(run settings h).attempt, false, (run settings h).events⟩
    cases input with
    | message side m =>
      have next : Next faulty s (s.after (.message now side m)) := .done _
      rw [after_message rfl] at next
      exact ih.tail next
    | interruption =>
      let t : Shared := { s with poisoned := true }
      have next : Next faulty t (t.after .read) := .done _
      rw [after_read rfl] at next
      exact (ih.tail (s.next_of_torn_read rfl)).tail next

/-- That the log calls of errors return is needed: where the one of the recovery writes its entry
and panics, the ledger is not given up, and the next access says the same again. -/
theorem exists_reached_of_faulty (enabled : settings.commitTrackingEnabled = true)
    (fails : faulty .accessInterrupted) (n : Nat) :
    ∃ s, Relation.ReflTransGen (Next faulty) (start settings) s ∧
      (s.after .read).attempt.isHealthy = false ∧ Event.alarms (s.after .read).events = n + 1 := by
  have ledger : (ofSettings settings).ledger = some (.ofLimit settings.maxPendingStateBytes) :=
    if_pos enabled
  have healthy : (ofSettings settings).health? = some true := congrArg _ ledger
  have reached : ∃ events, Relation.ReflTransGen (Next faulty) (start settings)
      ⟨ofSettings settings, true, events⟩ ∧ Event.alarms events = n := by
    induction n with
    | zero => exact ⟨[], .single ((start settings).next_of_torn_read rfl), rfl⟩
    | succ n ih =>
      obtain ⟨events, reached, alarms⟩ := ih
      let s : Shared := ⟨ofSettings settings, true, events⟩
      have torn : Torn faulty s.attempt (s.statements .read) s.attempt [.accessInterrupted] := by
        rw [statements, recovery, if_pos rfl, recoveryStatements, if_pos healthy]
        exact .written _ _ fails
      refine ⟨events ++ [.accessInterrupted], reached.tail (.cut .read torn), ?_⟩
      rw [Event.alarms_append, alarms]
      rfl
  obtain ⟨events, reached, alarms⟩ := reached
  refine ⟨_, reached, ?_, ?_⟩
  · rw [after_read rfl]
    simp only [interrupt, ledger]
    rfl
  · rw [after_read rfl]
    simp only [interrupt, ledger]
    rw [Event.alarms_append, alarms]
    rfl

end Shared

/-- However messages and reads follow one another and wherever a panic ends some of them, the read
of health that comes last finds one entry at the level of an error in the log where the ledger has
failed, and none where it has not, as it never has where commits are not tracked. The code that
writes the log is not the attempt's own: it may panic as well, but not over an error. -/
theorem one_alarm_iff_failed (settings : Settings) (faulty : Event → Prop)
    (returns : ∀ e : Event, e.level = .error → ¬faulty e) :
    (∀ s : Shared, Relation.ReflTransGen (Shared.Next faulty) (.start settings) s →
      Event.alarms (s.after .read).events = (if (s.after .read).attempt.isHealthy then 0 else 1) ∧
        (settings.commitTrackingEnabled = false → (s.after .read).attempt.isHealthy = true)) ∧
      ∀ h : History, Event.alarms (run settings h).events =
        if (run settings h).attempt.isHealthy then 0 else 1 := by
  refine ⟨fun s reached => ?_, fun h => ?_⟩
  · have announced := Shared.announced_of_reached returns (reached.tail (.done .read))
    exact ⟨Shared.alarms_of_announced announced,
      fun disabled => Shared.isHealthy_of_announced disabled announced⟩
  · exact Shared.alarms_of_announced
      (Shared.announced_of_reached returns (Shared.reached_run settings faulty h))

/-- An acknowledgement that comes too early, where the clock panics once the ledger has failed; a
reader that panics, and then a record that is cut short when it stands in one store of the registry;
and a reader that panics where there is no ledger. -/
theorem one_alarm_iff_failed_of_poisons :
    let early : Attempt :=
      { ofSettings .default with
        ledger := some (.failed (.ofLimit Budget.defaultLimit))
        destinationCheckpoints := 1 }
    let half : Attempt :=
      { (ofSettings .default).interrupt.attempt with registry := ⟨[⟨"a", none⟩], []⟩ }
    let s : Shared := ⟨early, true, [.countsUnreliable 0 (.unknownCheckpoint 0)]⟩
    let t : Shared := ⟨half, true, [.accessInterrupted]⟩
    let u : Shared := ⟨ofSettings ⟨64, false, false⟩, true, []⟩
    (s.after .read).attempt.isHealthy = false ∧ Event.alarms (s.after .read).events = 1 ∧
      (t.after .read).attempt.isHealthy = false ∧ Event.alarms (t.after .read).events = 1 ∧
      (u.after .read).attempt.isHealthy = true ∧ Event.alarms (u.after .read).events = 0 := by
  intro early half s t u
  let returning : Event → Prop := fun _ => False
  have returns (e : Event) (_ : e.level = .error) : ¬returning e := id
  have reachedS : Relation.ReflTransGen (Shared.Next returning) (.start .default) s := by
    refine .single (.cut (.message 0 .destination (.checkpoint (.global .null))) ?_)
    exact .later _ (.later _ (.later _ (.later _ (.later _ (.call early _)))))
  have reachedT : Relation.ReflTransGen (Shared.Next returning) (.start .default) t := by
    refine (Relation.ReflTransGen.single (Shared.next_of_torn_read _ rfl)).tail
      (.cut (.message 0 .source (.record ⟨⟨"a", none⟩, .null, 5⟩)) ?_)
    exact .later _ (.later _ (.work _ _ rfl))
  have reachedU : Relation.ReflTransGen (Shared.Next returning) (.start ⟨64, false, false⟩) u :=
    .single (Shared.next_of_torn_read _ rfl)
  obtain ⟨one, -⟩ := (one_alarm_iff_failed .default returning returns).1 s reachedS
  obtain ⟨single, -⟩ := (one_alarm_iff_failed .default returning returns).1 t reachedT
  obtain ⟨zero, healthy⟩ := (one_alarm_iff_failed ⟨64, false, false⟩ returning returns).1 u reachedU
  have failedS : (s.after .read).attempt.isHealthy = false := rfl
  have failedT : (t.after .read).attempt.isHealthy = false := rfl
  rw [failedS] at one
  rw [failedT] at single
  rw [healthy rfl] at zero
  exact ⟨failedS, one, failedT, single, healthy rfl, zero⟩

end Attempt

end SyncAccounting
