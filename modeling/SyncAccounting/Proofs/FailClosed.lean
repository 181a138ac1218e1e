import Mathlib.Logic.Relation
import SyncAccounting.Attempt.Statistics
import SyncAccounting.Proofs.Attempt.Step

/-!
Failing is for good. A ledger that has failed takes every call and stays as it is, and an attempt
whose ledger has failed reports nothing of what is committed, whatever messages come and wherever an
access is cut short.
-/

set_option autoImplicit false

namespace SyncAccounting.Attempt

/-- What may become of an attempt: an input is taken in, or an access is cut short and leaves any
state at all behind, which the next access then recovers. The ledger is never gone, and it fails in
one go. -/
inductive Follows (a : Attempt) : Attempt → Prop
  | step (now : Instant) (input : Input) : Follows a (a.step now input).attempt
  | torn {l : Ledger} (rest : Attempt) (ledger : rest.ledger = some l) (settled : l.IsSettled) :
      Follows a rest.interrupt.attempt

/-- Nothing is reported as committed, neither in all nor of a stream, and nothing waits. -/
structure Withholds (a : Attempt) : Prop where
  records : a.recordsCommitted = none
  bytes : a.bytesCommitted = none
  streamRecords : a.streamRecordsCommitted = none
  streamBytes : a.streamBytesCommitted = none
  summaryRecords : a.summary.recordsCommitted = none
  summaryBytes : a.summary.bytesCommitted = none
  summaryStreams : ∀ s ∈ a.summary.streams, s.recordsCommitted = none ∧ s.bytesCommitted = none
  pending : a.pendingStateBytes = 0
  summaryPending : a.summary.pendingStateBytes = 0

variable {a b : Attempt}

private theorem withholds_of_unknown (committed : a.committed? = none)
    (claims : a.pendingStateBytes = 0) : a.Withholds := by
  have records : a.recordsCommitted = none := by rw [recordsCommitted, committed, Option.map_none]
  have bytes : a.bytesCommitted = none := by rw [bytesCommitted, committed, Option.map_none]
  refine ⟨records, bytes, ?_, ?_, records, bytes, ?_, claims, claims⟩
  · rw [streamRecordsCommitted, committed, Option.map_none]
  · rw [streamBytesCommitted, committed, Option.map_none]
  · intro s hs
    obtain ⟨p, -, rfl⟩ := List.mem_map.1 hs
    simp only [streamSummary, committed, Option.map_none, and_self]

theorem withholds_of_failed {budget : Budget} (ledger : a.ledger = some (.failed budget))
    (used : budget.used = 0) : a.Withholds := by
  have committed : a.committed? = none := by
    rw [committed?, ledger]
    rfl
  have claims : a.pendingStateBytes = 0 := by
    rw [pendingStateBytes, budget?, ledger]
    exact used
  exact withholds_of_unknown committed claims

theorem withholds_of_untracked (ledger : a.ledger = none) : a.Withholds := by
  have committed : a.committed? = none := by
    rw [committed?, ledger]
    rfl
  have claims : a.pendingStateBytes = 0 := by
    rw [pendingStateBytes, budget?, ledger]
    rfl
  exact withholds_of_unknown committed claims

private theorem ledger_interrupt {l : Ledger} (ledger : a.ledger = some l) (settled : l.IsSettled) :
    ∃ budget, a.interrupt.attempt.ledger = some (.failed budget) ∧ budget.used = 0 := by
  cases l with
  | healthy books => exact ⟨books.budget.clear, by rw [interrupt, ledger]; rfl, rfl⟩
  | failed budget => exact ⟨budget, by rw [interrupt, ledger]; exact ledger, settled⟩

private theorem Follows.isSettled (follows : a.Follows b) {l : Ledger} (ledger : a.ledger = some l)
    (settled : l.IsSettled) : ∃ m, b.ledger = some m ∧ m.IsSettled := by
  cases follows with
  | step now input =>
    refine ⟨l.performAll (a.call? input).toList, ?_, Ledger.isSettled_performAll settled _⟩
    rw [ledger_step, ledger, Option.map_some]
  | torn rest left held =>
    obtain ⟨budget, failed, used⟩ := ledger_interrupt left held
    exact ⟨_, failed, used⟩

private theorem Follows.failed (follows : a.Follows b) {budget : Budget}
    (ledger : a.ledger = some (.failed budget)) (used : budget.used = 0) :
    ∃ budget, b.ledger = some (.failed budget) ∧ budget.used = 0 := by
  cases follows with
  | step now input =>
    refine ⟨budget, ?_, used⟩
    rw [ledger_step, ledger, Option.map_some, Ledger.performAll_failed used]
  | torn rest left held => exact ledger_interrupt left held

variable {settings : Settings}

private theorem isSettled_of_follows (enabled : settings.commitTrackingEnabled = true)
    (reached : Relation.ReflTransGen Follows (ofSettings settings) a) :
    ∃ l, a.ledger = some l ∧ l.IsSettled := by
  induction reached with
  | refl => exact ⟨_, if_pos enabled, Ledger.isSettled_ofLimit _⟩
  | tail _ follows ih =>
    obtain ⟨l, ledger, settled⟩ := ih
    exact follows.isSettled ledger settled

private theorem failed_of_follows {budget : Budget} (ledger : a.ledger = some (.failed budget))
    (used : budget.used = 0) (later : Relation.ReflTransGen Follows a b) :
    ∃ budget, b.ledger = some (.failed budget) ∧ budget.used = 0 := by
  induction later with
  | refl => exact ⟨budget, ledger, used⟩
  | tail _ follows ih =>
    obtain ⟨budget, ledger, used⟩ := ih
    exact follows.failed ledger used

private theorem follows_run_append (settings : Settings) (h rest : History) :
    Relation.ReflTransGen Follows (run settings h).attempt
      (run settings (h ++ rest)).attempt := by
  induction rest using List.reverseRecOn with
  | nil => rw [List.append_nil]
  | append_singleton rest i ih =>
    rw [← List.append_assoc, run_concat]
    exact ih.tail (.step i.1 i.2)

/-- A call that ends in an error leaves nothing of a ledger but the limit and the peak of its
budget. A ledger that has failed holds nothing, takes every further call without an error and stays
as it is. An attempt that tracks commits and has failed reports nothing as committed ever after. -/
theorem fail_closed :
    (∀ (limit : Count) (calls : List Ledger.Call) (c : Ledger.Call) (fault : Fault),
      (((Ledger.ofLimit limit).performAll calls).perform c).2 = .error fault →
        (((Ledger.ofLimit limit).performAll calls).perform c).1.IsClosed) ∧
      (∀ (limit : Count) (calls : List Ledger.Call),
        ((Ledger.ofLimit limit).performAll calls).isHealthy = false →
          ((Ledger.ofLimit limit).performAll calls).IsClosed ∧
            ∀ (more : List Ledger.Call) (c : Ledger.Call),
              (((Ledger.ofLimit limit).performAll calls).performAll more).perform c =
                ((Ledger.ofLimit limit).performAll calls, .ok ())) ∧
      ∀ (settings : Settings) (a b : Attempt), settings.commitTrackingEnabled = true →
        Relation.ReflTransGen Follows (ofSettings settings) a → a.isHealthy = false →
          Relation.ReflTransGen Follows a b → b.isHealthy = false ∧ b.Withholds := by
  refine ⟨fun limit calls c fault ends => ?_, fun limit calls unhealthy => ?_,
    fun settings a b enabled reached unhealthy later => ?_⟩
  · have settled := Ledger.isSettled_performAll (Ledger.isSettled_ofLimit limit) calls
    exact Ledger.isClosed_of_error settled ends
  · have settled := Ledger.isSettled_performAll (Ledger.isSettled_ofLimit limit) calls
    refine ⟨Ledger.isClosed_of_unhealthy settled unhealthy, fun more c => ?_⟩
    cases ends : (Ledger.ofLimit limit).performAll calls with
    | healthy books =>
      rw [ends] at unhealthy
      cases unhealthy
    | failed budget =>
      rw [ends] at settled
      rw [Ledger.performAll_failed settled, Ledger.perform_failed settled]
  · obtain ⟨l, ledger, settled⟩ := isSettled_of_follows enabled reached
    cases l with
    | healthy books =>
      rw [isHealthy_of_ledger ledger] at unhealthy
      cases unhealthy
    | failed budget =>
      obtain ⟨budget, after, used⟩ := failed_of_follows ledger settled later
      exact ⟨isHealthy_of_ledger after, withholds_of_failed after used⟩

/-- An acknowledgement that comes before any checkpoint is the end of committed counts. -/
theorem fail_closed_of_early_acknowledgement :
    let l : Ledger := (Ledger.ofLimit 100).performAll [.record 0 7, .commitUpTo 0]
    let h : History := [(0, .message .destination (.checkpoint (.global .null)))]
    (((Ledger.ofLimit 100).performAll [.record 0 7]).perform (.commitUpTo 0)).1.IsClosed ∧
      (∀ c : Ledger.Call, l.perform c = (l, .ok ())) ∧
      (run .default h).attempt.isHealthy = false ∧
      ∀ rest : History, (run .default (h ++ rest)).attempt.isHealthy = false ∧
        (run .default (h ++ rest)).attempt.Withholds := by
  intro l h
  obtain ⟨refused, failed, withheld⟩ := fail_closed
  have unhealthy : (run .default h).attempt.isHealthy = false := by decide
  refine ⟨?_, fun c => ?_, unhealthy, fun rest => ?_⟩
  · exact refused 100 [.record 0 7] (.commitUpTo 0) (.unknownCheckpoint 0) (by decide)
  · exact (failed 100 [.record 0 7, .commitUpTo 0] (by decide)).2 [] c
  · exact withheld .default _ _ rfl (follows_run_append .default [] h) unhealthy
      (follows_run_append .default h rest)

end SyncAccounting.Attempt
