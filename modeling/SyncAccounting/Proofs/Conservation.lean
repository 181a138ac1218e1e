import SyncAccounting.Attempt.Statistics
import SyncAccounting.Proofs.Attempt.Step
import SyncAccounting.Proofs.Ledger.Holdings

/-!
The emission and the ledger of an attempt count apart, and at different places a count may be at its
limit first. Still, as long as the ledger is healthy, what it holds of a stream in all its places is
what was emitted of it.
-/

set_option autoImplicit false

namespace SyncAccounting.Attempt

/-- What an input brings to the ledger is what it adds to the emission. -/
private theorem emission_step (a : Attempt) (now : Instant) (input : Input) (stream : Nat) :
    (a.step now input).attempt.emission.stream stream =
      a.emission.stream stream +
        (a.call? input).elim .zero fun c => TallyRow.deltaAt c.brings stream := by
  have nothing : a.emission.stream stream = a.emission.stream stream + .zero :=
    (Tally.add_zero _).symm
  rw [step_attempt]
  rcases input with ⟨side, m⟩ | _
  · cases side <;> cases m
    case source.record r =>
      have brought : TallyRow.deltaAt
          (Ledger.Call.record (a.registry.positionOf r.stream) r.byteSize).brings stream =
            if stream = a.registry.positionOf r.stream then .single r.byteSize else .zero :=
        TallyRow.deltaAt_cons _ _ _ _
      rw [call?, Option.elim_some, brought]
      refine (TallyRow.tally_addAt _ _ _ _).trans ?_
      by_cases same : stream = a.registry.positionOf r.stream
      · rw [if_pos same, if_pos same]
        rfl
      · rw [if_neg same, if_neg same]
        exact nothing
    all_goals exact nothing
  · cases healthy : a.isHealthy <;> rw [call?, healthy] <;> exact nothing

private theorem nodup_brings_of_call? {a : Attempt} {input : Input} {c : Ledger.Call}
    (asked : a.call? input = some c) : (c.brings.map Prod.fst).Nodup := by
  unfold call? at asked
  split at asked
  case h_4 =>
    cases healthy : a.isHealthy <;> rw [healthy] at asked <;> cases asked
    exact List.nodup_nil
  all_goals cases asked
  · exact List.nodup_singleton _
  · exact List.nodup_nil
  · exact List.nodup_nil

variable {settings : Settings} {h : History}

/-- Healthy books hold of each stream what was emitted of it. -/
theorem holding_run (enabled : settings.commitTrackingEnabled = true) {b : Books}
    (ledger : (run settings h).attempt.ledger = some (.healthy b)) :
    b.Distinct ∧ ∀ stream, (run settings h).attempt.emission.stream stream = b.holding stream := by
  induction h using List.reverseRecOn generalizing b with
  | nil =>
    rw [ledger_run_nil enabled] at ledger
    cases ledger
    exact ⟨fun e he => absurd he List.not_mem_nil, fun stream => rfl⟩
  | append_singleton h i ih =>
    have healthy : (run settings (h ++ [i])).attempt.isHealthy = true :=
      isHealthy_of_ledger ledger
    obtain ⟨a, before, balanced, -⟩ := books_run enabled (isHealthy_of_append enabled healthy)
    obtain ⟨distinct, held⟩ := ih before
    rw [ledger_run_concat, before] at ledger
    have emitted (stream : Nat) :=
      emission_step (run settings h).attempt i.1 i.2 stream
    rw [run_concat]
    cases asked : (run settings h).attempt.call? i.2 with
    | none =>
      rw [asked] at ledger
      cases ledger
      refine ⟨distinct, fun stream => ?_⟩
      rw [emitted, asked, Option.elim_none, Tally.add_zero, held]
    | some c =>
      rw [asked] at ledger
      have moves : a.Moves c b := Ledger.moves_of_healthy (Option.some.inj ledger)
      obtain ⟨apart, adds⟩ :=
        Books.holding_moves balanced distinct (nodup_brings_of_call? asked) moves
      refine ⟨apart, fun stream => ?_⟩
      rw [emitted, asked, Option.elim_some, adds, held]

theorem emission_total (settings : Settings) (h : History) :
    (run settings h).attempt.emission.total.records =
        Count.sum ((run settings h).attempt.emission.perStream.map (·.records)) ∧
      (run settings h).attempt.emission.total.bytes =
        Count.sum ((run settings h).attempt.emission.perStream.map (·.bytes)) := by
  induction h using List.reverseRecOn with
  | nil => exact ⟨rfl, rfl⟩
  | append_singleton h i ih =>
    obtain ⟨records, bytes⟩ := ih
    rw [run_concat, step_attempt]
    cases sent : i.2.record? with
    | none => exact ⟨records, bytes⟩
    | some r =>
      constructor
      · refine Eq.trans ?_ (TallyRow.sum_map_addAt rfl Tally.records_add _ _ _).symm
        rw [← records]
        rfl
      · refine Eq.trans ?_ (TallyRow.sum_map_addAt rfl Tally.bytes_add _ _ _).symm
        rw [← bytes]
        rfl

/-- Of each stream of a healthy run, what is committed, what waits and what is in the open row add
up to what was emitted, also where counts are at their limit. So no more is committed than was
emitted, of any stream and in all. -/
theorem emitted_eq_committed_add_pending_add_current (settings : Settings)
    (enabled : settings.commitTrackingEnabled = true) (h : History)
    (healthy : (run settings h).attempt.isHealthy = true) :
    ∃ b, (run settings h).attempt.ledger = some (.healthy b) ∧
      (∀ stream, (run settings h).attempt.emission.stream stream =
        b.committed.tally stream + Books.tallyOf b.pending.toList stream +
          b.current.tally stream) ∧
      (∀ stream,
        (b.committed.tally stream).records ≤
            ((run settings h).attempt.emission.stream stream).records ∧
          (b.committed.tally stream).bytes ≤
            ((run settings h).attempt.emission.stream stream).bytes) ∧
      (∃ n ∈ (run settings h).attempt.recordsCommitted,
        n ≤ (run settings h).attempt.recordsEmitted) ∧
      ∃ n ∈ (run settings h).attempt.bytesCommitted, n ≤ (run settings h).attempt.bytesEmitted := by
  obtain ⟨b, ledger, -⟩ := books_run enabled healthy
  obtain ⟨-, held⟩ := holding_run enabled ledger
  obtain ⟨records, bytes⟩ := emission_total settings h
  have committed : (run settings h).attempt.committed? = some b.committed := by
    rw [committed?, ledger]
    rfl
  have below (stream : Nat) :
      (b.committed.tally stream).records ≤
          ((run settings h).attempt.emission.stream stream).records ∧
        (b.committed.tally stream).bytes ≤
          ((run settings h).attempt.emission.stream stream).bytes := by
    rw [held, Books.holding, Tally.add_assoc, Tally.records_add, Tally.bytes_add]
    exact ⟨Count.le_add_right _ _, Count.le_add_right _ _⟩
  refine ⟨b, ledger, held, below, ⟨Count.sum (b.committed.map (·.records)), ?_, ?_⟩,
    ⟨Count.sum (b.committed.map (·.bytes)), ?_, ?_⟩⟩
  · rw [recordsCommitted, committed]
    rfl
  · rw [recordsEmitted, records]
    exact TallyRow.sum_map_le rfl fun stream => (below stream).1
  · rw [bytesCommitted, committed]
    rfl
  · rw [bytesEmitted, bytes]
    exact TallyRow.sum_map_le rfl fun stream => (below stream).2

/-- The committed bytes of a stream are at the limit of counts, and more of it waits. -/
theorem emitted_eq_committed_add_pending_add_current_at_limit :
    let a : StreamKey := ⟨"a", none⟩
    let h : History := [(0, .message .source (.record ⟨a, .null, 18446744073709551615⟩)),
      (1, .message .source (.checkpoint (.global .null))),
      (2, .message .destination (.checkpoint (.global .null))),
      (3, .message .source (.record ⟨a, .null, 7⟩)),
      (4, .message .source (.checkpoint (.global .null)))]
    (run .default h).attempt.isHealthy = true ∧
      (run .default h).attempt.bytesCommitted = some 18446744073709551615 ∧
      ∃ n ∈ (run .default h).attempt.bytesCommitted, n ≤ (run .default h).attempt.bytesEmitted := by
  intro a h
  have healthy : (run .default h).attempt.isHealthy = true := by decide
  obtain ⟨b, -, -, -, -, bytes⟩ :=
    emitted_eq_committed_add_pending_add_current .default rfl h healthy
  exact ⟨healthy, by decide, bytes⟩

end SyncAccounting.Attempt
