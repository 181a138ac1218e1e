import SyncAccounting.Proofs.Attempt.Step
import SyncAccounting.Proofs.Json.Compact

/-!
Acknowledgements are checked against the checkpoints they stand for. What is compared are
fingerprints, and the text that a fingerprint is taken of says all about a checkpoint.
-/

set_option autoImplicit false

namespace SyncAccounting

/-! ### Positions -/

namespace History

/-- The number of the checkpoint that the next acknowledgement stands for, which is that of the
acknowledgements so far as long as counts go. -/
def due (h : History) : Nat := min h.acknowledgements.length Count.limit

/-- The checkpoints that wait for an acknowledgement, by their indices and fingerprints. -/
def awaited (h : History) : List (CheckpointIndex × Option Fingerprint) :=
  (List.range' h.due (h.checkpoints.length - h.due)).map fun k =>
    (.ofNat k, h.checkpoints[k]?.map Checkpoint.fingerprint)

variable {h : History} {i : Instant × Attempt.Input}

private theorem ofNat_due (h : History) : Count.ofNat h.due = .ofNat h.acknowledgements.length := by
  apply Count.ext
  simp only [due, Count.toNat_ofNat]
  omega

private theorem due_concat_of_none (noAcknowledgement : i.2.acknowledgement? = none) :
    due (h ++ [i]) = h.due := by
  rw [due, due, acknowledgements_concat_of_none noAcknowledgement]

private theorem due_concat {c : Checkpoint} (sent : i.2.acknowledgement? = some c) :
    due (h ++ [i]) = min (h.due + 1) Count.limit := by
  rw [due, due, length_acknowledgements_concat sent]
  omega

private theorem awaited_concat_of_none (noCheckpoint : i.2.checkpoint? = none)
    (noAcknowledgement : i.2.acknowledgement? = none) : awaited (h ++ [i]) = h.awaited := by
  rw [awaited, awaited, checkpoints_concat_of_none noCheckpoint,
    due_concat_of_none noAcknowledgement]

private theorem awaited_concat_of_checkpoint {c : Checkpoint} (sent : i.2.checkpoint? = some c)
    (noAcknowledgement : i.2.acknowledgement? = none) (ordered : h.due ≤ h.checkpoints.length) :
    awaited (h ++ [i]) = h.awaited ++ [(.ofNat h.checkpoints.length, some c.fingerprint)] := by
  have size : h.checkpoints.length + 1 - h.due = h.checkpoints.length - h.due + 1 := by omega
  have last : h.due + (h.checkpoints.length - h.due) = h.checkpoints.length := by omega
  rw [awaited, length_checkpoints_concat sent, due_concat_of_none noAcknowledgement, size,
    List.range'_1_concat, last, List.map_append, awaited, checkpoints_concat, sent]
  congr 1
  · refine List.map_congr_left fun k hk => ?_
    have before : k < h.checkpoints.length := by
      have := (List.mem_range'_1.1 hk).2
      omega
    rw [List.getElem?_append_left before]
  · simp

private theorem awaited_concat_of_acknowledgement {c : Checkpoint}
    (noCheckpoint : i.2.checkpoint? = none) (sent : i.2.acknowledgement? = some c)
    (behind : h.due < h.checkpoints.length) :
    awaited (h ++ [i]) =
      h.awaited.filter fun e => ¬e.1 < (Count.ofNat h.acknowledgements.length).succ := by
  have bound : h.due ≤ Count.limit := Nat.min_le_right _ _
  have next : ((Count.ofNat h.acknowledgements.length).succ).toNat = due (h ++ [i]) := by
    rw [← ofNat_due, Count.succ_ofNat, Count.toNat_ofNat, due_concat sent]
  have kept : ∀ k, due (h ++ [i]) ≤ k →
      ¬Count.ofNat k < (Count.ofNat h.acknowledgements.length).succ := by
    intro k hk
    rw [Count.lt_def, next, Count.toNat_ofNat]
    rw [due_concat sent] at hk ⊢
    omega
  have size : h.checkpoints.length - h.due = h.checkpoints.length - (h.due + 1) + 1 := by omega
  rw [awaited, checkpoints_concat_of_none noCheckpoint, awaited, List.filter_map]
  rcases Nat.lt_or_ge h.due Count.limit with counted | stays
  · have later : due (h ++ [i]) = h.due + 1 := by
      rw [due_concat sent]
      omega
    have left : Count.ofNat h.due < (Count.ofNat h.acknowledgements.length).succ := by
      rw [Count.lt_def, next, later, Count.toNat_ofNat]
      omega
    rw [size, List.range'_succ, List.filter_cons_of_neg (by simpa using left), ← later,
      List.filter_eq_self.2 fun k hk => by simpa using kept k (List.mem_range'_1.1 hk).1]
  · have same : due (h ++ [i]) = h.due := by
      rw [due_concat sent]
      omega
    rw [List.filter_eq_self.2 fun k hk => by
      simpa using kept k (same ▸ (List.mem_range'_1.1 hk).1), same]

private theorem find?_awaited (h : History) :
    (h.awaited.find? (·.1 = .ofNat h.acknowledgements.length)).bind Prod.snd =
      h.checkpoints[h.due]?.map Checkpoint.fingerprint := by
  rcases Nat.lt_or_ge h.due h.checkpoints.length with waits | overtaken
  · have size : h.checkpoints.length - h.due = h.checkpoints.length - (h.due + 1) + 1 := by omega
    rw [awaited, size, List.range'_succ, List.map_cons, List.find?_cons_of_pos]
    · rfl
    · simpa using ofNat_due h
  · rw [awaited, Nat.sub_eq_zero_of_le overtaken, List.getElem?_eq_none overtaken]
    rfl

end History

namespace Books

structure Awaits (b : Books) (h : History) : Prop where
  few : h.checkpoints.length ≤ Count.limit + 1
  ordered : h.due ≤ h.checkpoints.length
  lastAdded : 0 < h.checkpoints.length →
    b.lastAdded = some (.ofNat (h.checkpoints.length - 1))
  committedThrough : ∀ index ∈ b.committedThrough, index.toNat < h.checkpoints.length
  pending : b.pending.toList.map (fun e => (e.1, e.2.fingerprint)) = h.awaited

namespace Awaits

variable {h : History} {i : Instant × Attempt.Input} {b d : Books}

private theorem expectedFingerprint? (awaits : b.Awaits h) :
    (Ledger.healthy b).expectedFingerprint? (.ofNat h.acknowledgements.length) =
      h.checkpoints[h.due]?.map Checkpoint.fingerprint := by
  have view := Backlog.find?_eq b.pending (.ofNat h.acknowledgements.length)
  rw [← History.find?_awaited, ← awaits.pending, List.find?_map, Ledger.expectedFingerprint?,
    Ledger.pending, view, Option.bind_map, Option.bind_map]
  rfl

private theorem isSome_find?_iff (awaits : b.Awaits h) :
    (b.pending.find? (.ofNat h.acknowledgements.length)).isSome ↔
      h.due < h.checkpoints.length := by
  have indices : b.pending.toList.map Prod.fst = h.awaited.map Prod.fst := by
    rw [← awaits.pending, List.map_map]
    rfl
  have few := awaits.few
  rw [Backlog.isSome_find?_iff, indices, ← History.ofNat_due, History.awaited, List.map_map,
    List.mem_map]
  constructor
  · rintro ⟨k, hk, -⟩
    have := List.mem_range'_1.1 hk
    omega
  · intro waits
    exact ⟨h.due, List.mem_range'_1.2 ⟨Nat.le_refl _, by omega⟩, rfl⟩

private theorem setCurrent (awaits : b.Awaits h) (row : TallyRow) :
    Awaits { b with current := row } h :=
  ⟨awaits.few, awaits.ordered, awaits.lastAdded, awaits.committedThrough, awaits.pending⟩

private theorem concat (awaits : b.Awaits h) (noCheckpoint : i.2.checkpoint? = none)
    (noAcknowledgement : i.2.acknowledgement? = none) (lastAdded : d.lastAdded = b.lastAdded)
    (committedThrough : d.committedThrough = b.committedThrough)
    (pending : d.pending = b.pending) : d.Awaits (h ++ [i]) := by
  have same := History.checkpoints_concat_of_none noCheckpoint (h := h)
  refine ⟨?_, ?_, ?_, ?_, ?_⟩
  · rw [same]
    exact awaits.few
  · rw [same, History.due_concat_of_none noAcknowledgement]
    exact awaits.ordered
  · rw [same, lastAdded]
    exact awaits.lastAdded
  · rw [same, committedThrough]
    exact awaits.committedThrough
  · rw [pending, History.awaited_concat_of_none noCheckpoint noAcknowledgement]
    exact awaits.pending

/-- An index that is accepted is that of one more checkpoint, and not the largest count again. -/
private theorem length_le (awaits : b.Awaits h) {s : Snapshot}
    (accepts : b.Accepts (.ofNat h.checkpoints.length) s) :
    h.checkpoints.length ≤ Count.limit := by
  have few := awaits.few
  rcases Nat.eq_zero_or_pos h.checkpoints.length with noCheckpoints | nonempty
  · omega
  · have order := accepts.order
    rw [awaits.lastAdded nonempty, Option.filter_some, ite_eq_right_iff] at order
    by_contra large
    refine absurd (order ?_) (Option.some_ne_none _)
    simp only [decide_eq_true_eq, Count.le_def, Count.toNat_ofNat]
    omega

private theorem push (awaits : b.Awaits h) {c : Checkpoint} (sent : i.2.checkpoint? = some c)
    (noAcknowledgement : i.2.acknowledgement? = none) {deltas : List (Nat × Tally)}
    (accepts : b.Accepts (.ofNat h.checkpoints.length) ⟨deltas, some c.fingerprint⟩) :
    (b.push (.ofNat h.checkpoints.length) ⟨deltas, some c.fingerprint⟩).Awaits (h ++ [i]) := by
  have length := History.length_checkpoints_concat sent (h := h)
  have fits := awaits.length_le accepts
  have ordered := awaits.ordered
  have below : ∀ e ∈ b.pending.toList, e.1 < Count.ofNat h.checkpoints.length := by
    intro e he
    have listed : (e.1, e.2.fingerprint) ∈ h.awaited :=
      awaits.pending ▸ List.mem_map_of_mem he
    obtain ⟨k, hk, same⟩ := List.mem_map.1 listed
    have before := (List.mem_range'_1.1 hk).2
    rw [← congrArg Prod.fst same, Count.ofNat_lt_ofNat_iff]
    omega
  refine ⟨by omega, ?_, fun _ => ?_, ?_, ?_⟩
  · rw [length, History.due_concat_of_none noAcknowledgement]
    omega
  · rw [length]
    rfl
  · intro index folded
    have := awaits.committedThrough index folded
    omega
  · change (b.pending.insert _ _).toList.map _ = _
    rw [Backlog.toList_insert, Backlog.place_of_lt below, List.map_append, awaits.pending,
      History.awaited_concat_of_checkpoint sent noAcknowledgement ordered]
    rfl

private theorem fold (awaits : b.Awaits h) {c : Checkpoint} (noCheckpoint : i.2.checkpoint? = none)
    (sent : i.2.acknowledgement? = some c)
    (folds : b.Folds (.ofNat h.acknowledgements.length) d) : d.Awaits (h ++ [i]) := by
  have same := History.checkpoints_concat_of_none noCheckpoint (h := h)
  have bound : h.due ≤ Count.limit := Nat.min_le_right _ _
  cases folds with
  | settle pending =>
    have waits := awaits.isSome_find?_iff.1 pending
    refine ⟨?_, ?_, ?_, ?_, ?_⟩
    · rw [same]
      exact awaits.few
    · rw [same, History.due_concat sent]
      omega
    · rw [same, lastAdded_settle]
      exact awaits.lastAdded
    · rintro index ⟨⟩
      rw [same, ← History.ofNat_due, Count.toNat_ofNat]
      omega
    · change (b.pending.dropBelow _).toList.map _ = _
      rw [Backlog.toList_dropBelow,
        History.awaited_concat_of_acknowledgement noCheckpoint sent waits,
        ← awaits.pending, List.filter_map]
      rfl
  | again pending folded =>
    obtain ⟨index, through, covered⟩ := (Option.any_eq_true _ _).1 folded
    have before := awaits.committedThrough index through
    have after := mt awaits.isSome_find?_iff.2 pending
    simp only [decide_eq_true_eq, ← History.ofNat_due, Count.le_def, Count.toNat_ofNat] at covered
    omega

end Awaits

end Books

/-! ### Texts -/

private theorem Sha256.digest_of_block {message : List UInt8}
    (size : (words (message ++ padding message.length)).length = 16) :
    digest message =
      let v := compress initial (words (message ++ padding message.length))
      ⟨[v.a, v.b, v.c, v.d, v.e, v.f, v.g, v.h].flatMap bytesOf⟩ := by
  have last : blocks ((words (message ++ padding message.length)).drop 16) = [] := by
    rw [blocks, if_pos (by rw [List.length_drop]; omega)]
  rw [digest, blocks, if_neg (by omega), last, List.take_of_length_le (Nat.le_of_eq size)]
  rfl

namespace StreamKey

private theorem write_of_none (name : String) :
    codec.write ⟨name, none⟩ = .object [("name", .string name)] := rfl

private theorem write_of_some (name space : String) :
    codec.write ⟨name, some space⟩ =
      .object [("name", .string name), ("namespace", .string space)] := rfl

private theorem write_injective {k l : StreamKey} (same : codec.write k = codec.write l) :
    k = l := by
  rcases k with ⟨name, _ | space⟩ <;> rcases l with ⟨other, _ | within⟩ <;>
    simp [write_of_none, write_of_some] at same
  · rw [same]
  · rw [same.1, same.2]

end StreamKey

namespace Checkpoint

/-- The bytes that the fingerprint of a checkpoint is the digest of. -/
def hashed (c : Checkpoint) : List UInt8 := c.fingerprintText.toUTF8.data.toList

private theorem fingerprint_eq_digest (c : Checkpoint) :
    c.fingerprint = Sha256.digest c.hashed := rfl

/-- Checkpoints whose bytes differ and whose digests do not. -/
def Collides (s c : Checkpoint) : Prop := s.hashed ≠ c.hashed ∧ s.fingerprint = c.fingerprint

def value (c : Checkpoint) : Json.Value := codec.write c

private theorem hashed_inj (c d : Checkpoint) :
    c.hashed = d.hashed ↔ c.value.compact = d.value.compact := by
  rw [hashed, hashed, Array.toList_inj, ← ByteArray.ext_iff]
  exact String.toByteArray_inj

private theorem numbers_value (c : Checkpoint) : c.value.numbers = c.data.numbers := by
  rcases c with d | ⟨⟨name, _ | space⟩, d⟩ | d <;> exact List.append_nil _

private theorem value_global (d : Json.Value) :
    (global d).value = .object [("kind", .string "global"), ("data", d)] := rfl

private theorem value_legacy (d : Json.Value) :
    (legacy d).value = .object [("kind", .string "legacy"), ("data", d)] := rfl

private theorem value_stream (key : StreamKey) (d : Json.Value) :
    (stream key d).value = .object
      [("kind", .string "stream"), ("stream", StreamKey.codec.write key), ("data", d)] := rfl

private theorem value_injective {c d : Checkpoint} (same : c.value = d.value) : c = d := by
  cases c <;> cases d <;>
    simp [value_global, value_legacy, value_stream] at same
  case global.global => rw [same]
  case stream.stream => rw [StreamKey.write_injective same.1, same.2]
  case legacy.legacy => rw [same]

private theorem hashed_eq_iff {c d : Checkpoint} (hc : c.data.IsWhole) (hd : d.data.IsWhole) :
    c.hashed = d.hashed ↔ c = d := by
  have legible : ∀ {e : Checkpoint}, e.data.IsWhole → e.value.IsLegible := fun {e} he =>
    Json.Value.IsWhole.isLegible fun n hn => he n (e.numbers_value ▸ hn)
  rw [hashed_inj, Json.Value.compact_inj (legible hc) (legible hd)]
  exact ⟨value_injective, fun same => by rw [same]⟩

end Checkpoint

/-! ### Runs -/

namespace Attempt

variable {a : Attempt} {settings : Settings} {h : History}

private theorem awaits_run (enabled : settings.commitTrackingEnabled = true) {b : Books}
    (ledger : (run settings h).attempt.ledger = some (.healthy b)) : b.Awaits h := by
  induction h using List.reverseRecOn generalizing b with
  | nil =>
    rw [ledger_run_nil enabled] at ledger
    cases ledger
    exact ⟨Nat.zero_le _, Nat.zero_le _, nofun, nofun, rfl⟩
  | append_singleton h i ih =>
    have healthy : (run settings (h ++ [i])).attempt.isHealthy = true :=
      isHealthy_of_ledger ledger
    have holds := isHealthy_of_append enabled healthy
    obtain ⟨a, before, -⟩ := books_run enabled holds
    have awaits := ih before
    rw [ledger_run_concat, before, Option.map_some, Option.some.injEq] at ledger
    obtain ⟨now, input⟩ := i
    rcases input with ⟨side, m⟩ | _
    · cases side <;> cases m
      case source.checkpoint c =>
        rw [call?, sourceCheckpoints_run] at ledger
        cases Ledger.moves_of_healthy ledger with
        | checkpoint accepts =>
          exact (awaits.setCurrent []).push rfl rfl ⟨accepts.order, accepts.room⟩
      case destination.checkpoint c =>
        rw [call?, destinationCheckpoints_run] at ledger
        cases Ledger.moves_of_healthy ledger with
        | acknowledge folds => exact awaits.fold rfl rfl folds
      all_goals
        cases ledger
        exact awaits.concat rfl rfl rfl rfl rfl
    · rw [call?, if_pos holds] at ledger
      cases ledger

private theorem payloadMismatch_mem_mismatch (l : Ledger) (due index : CheckpointIndex)
    (f : Fingerprint) :
    .payloadMismatch index ∈ l.mismatch due f ↔
      index = due ∧ ∃ expected ∈ l.expectedFingerprint? due, expected ≠ f := by
  have differs : (l.expectedFingerprint? due).any (· ≠ f) = true ↔
      ∃ expected ∈ l.expectedFingerprint? due, expected ≠ f := by
    simp [Option.any_eq_true]
  rw [Ledger.mismatch, ← differs]
  split
  · next holds => rw [List.mem_singleton, Event.payloadMismatch.injEq, and_iff_left holds]
  · next fails => exact iff_of_false List.not_mem_nil fun both => fails both.2

private theorem payloadMismatch_mem_acknowledgement {l : Ledger} (ledger : a.ledger = some l)
    (now : Instant) (c : Checkpoint) (index : CheckpointIndex) :
    .payloadMismatch index ∈ (a.step now (.message .destination (.checkpoint c))).events ↔
      .payloadMismatch index ∈ l.mismatch a.destinationCheckpoints c.fingerprint := by
  have quiet : ∀ result, Event.payloadMismatch index ∉ ledgerEvents a.destinationCheckpoints result
    | .ok () => List.not_mem_nil
    | .error fault => by simp [ledgerEvents]
  have unseen : Event.payloadMismatch index ∉
      a.checkpointEvents .destination a.destinationCheckpoints c := by
    unfold checkpointEvents
    split <;> simp
  change _ ∈ (a.ledger.map _).elim [] _ ++ a.checkpointEvents _ _ c ↔ _
  rw [ledger, Option.map_some, Option.elim_some, List.mem_append, List.mem_append,
    or_iff_left unseen, or_iff_left (quiet _)]
  rfl

private theorem payloadMismatch_mem_run (enabled : settings.commitTrackingEnabled = true)
    (now : Instant) (c : Checkpoint) (index : CheckpointIndex) :
    .payloadMismatch index ∈
        ((run settings h).attempt.step now (.message .destination (.checkpoint c))).events ↔
      index = .ofNat h.acknowledgements.length ∧ (run settings h).attempt.isHealthy = true ∧
        ∃ s, h.checkpoints[h.due]? = some s ∧ s.fingerprint ≠ c.fingerprint := by
  cases healthy : (run settings h).attempt.isHealthy with
  | true =>
    obtain ⟨b, ledger, -⟩ := books_run enabled healthy
    rw [payloadMismatch_mem_acknowledgement ledger, payloadMismatch_mem_mismatch,
      destinationCheckpoints_run, (awaits_run enabled ledger).expectedFingerprint?]
    simp
  | false =>
    obtain ⟨budget, ledger, -⟩ := failed_run enabled healthy
    have nothing : (Ledger.failed budget).mismatch (.ofNat h.acknowledgements.length)
        c.fingerprint = [] := rfl
    rw [payloadMismatch_mem_acknowledgement ledger, destinationCheckpoints_run, nothing]
    simp

/-- That a payload differs is logged of an acknowledgement exactly where the run is healthy, the
checkpoint at the same position has been sent, and the fingerprints differ. Fingerprints are digests
of texts, and these are the same only for checkpoints that are the same, so a warning means that the
checkpoints differ, and that they differ is missed only where digests collide. -/
theorem payloadMismatch_iff_differs (settings : Settings)
    (enabled : settings.commitTrackingEnabled = true) (h : History) (now : Instant)
    (c : Checkpoint) :
    let logged := ((run settings h).attempt.step now (.message .destination (.checkpoint c))).events
    (∀ index, .payloadMismatch index ∈ logged ↔
      index = .ofNat h.acknowledgements.length ∧ (run settings h).attempt.isHealthy = true ∧
        ∃ s, h.checkpoints[h.due]? = some s ∧ s.fingerprint ≠ c.fingerprint) ∧
    (∀ d : Checkpoint, d.fingerprint = Sha256.digest d.hashed ∧
      (c.data.IsWhole → d.data.IsWhole → (c.hashed = d.hashed ↔ c = d))) ∧
    (c.data.IsWhole → (∀ s ∈ h.checkpoints, s.data.IsWhole ∧ ¬s.Collides c) →
      ∀ index, .payloadMismatch index ∈ logged ↔
        index = .ofNat h.acknowledgements.length ∧ (run settings h).attempt.isHealthy = true ∧
          ∃ s, h.checkpoints[h.due]? = some s ∧ s ≠ c) := by
  have check := payloadMismatch_mem_run (h := h) enabled now c
  refine ⟨check, fun d => ⟨rfl, Checkpoint.hashed_eq_iff⟩, fun whole sent index => ?_⟩
  rw [check]
  refine and_congr_right fun _ => and_congr_right fun _ => exists_congr fun s => ?_
  refine and_congr_right fun position => not_congr ?_
  obtain ⟨plain, single⟩ := sent s (List.mem_of_getElem? position)
  rw [← Checkpoint.hashed_eq_iff plain whole]
  exact ⟨fun same => by_contra fun differ => single ⟨differ, same⟩, fun same => by
    rw [Checkpoint.fingerprint_eq_digest, same, Checkpoint.fingerprint_eq_digest]⟩

/-- A checkpoint of another kind with the same data. -/
theorem payloadMismatch_iff_differs_of_other_kind :
    let h : History := [(0, .message .source (.checkpoint (.global .null)))]
    .payloadMismatch 0 ∈ ((run ⟨80, true, false⟩ h).attempt.step 1
      (.message .destination (.checkpoint (.legacy .null)))).events := by
  intro h
  have differs : (Checkpoint.global .null).fingerprint ≠ (Checkpoint.legacy .null).fingerprint := by
    rw [Checkpoint.fingerprint_eq_digest, Checkpoint.fingerprint_eq_digest,
      Sha256.digest_of_block (by decide +kernel), Sha256.digest_of_block (by decide +kernel)]
    decide +kernel
  exact ((payloadMismatch_iff_differs ⟨80, true, false⟩ rfl h 1 (.legacy .null)).1 0).2
    ⟨rfl, by decide, .global .null, rfl, differs⟩

end Attempt

end SyncAccounting
