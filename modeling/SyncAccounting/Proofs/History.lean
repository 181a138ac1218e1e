import SyncAccounting.Attempt
import SyncAccounting.Proofs.Rows

/-!
What a history of inputs says by itself, without any state: its checkpoints and acknowledgements,
the streams it names, and the records of each window. Window `i` holds the records that come after
`i` checkpoints of the source, so it is closed by the checkpoint with index `i`.
-/

set_option autoImplicit false

namespace SyncAccounting

namespace Attempt.Input

def record? : Input → Option RecordMessage
  | .message .source (.record r) => some r
  | _ => none

def checkpoint? : Input → Option Checkpoint
  | .message .source (.checkpoint c) => some c
  | _ => none

/-- A checkpoint that the destination sends back. -/
def acknowledgement? : Input → Option Checkpoint
  | .message .destination (.checkpoint c) => some c
  | _ => none

def estimate? : Input → Option EstimateMessage
  | .message .source (.estimate e) => some e
  | _ => none

def error? : Input → Option (Side × CapturedError)
  | .message side (.trace t) => t.error?.map fun e => (side, ⟨e, t.emittedAt⟩)
  | _ => none

def stream? : Input → Option StreamKey
  | .message .source (.record r) => some r.stream
  | .message .source (.checkpoint c) => c.stream?
  | _ => none

end Attempt.Input

/-- What happened to an attempt, the earliest input first, each with its time. -/
abbrev History := List (Instant × Attempt.Input)

namespace History

def checkpoints (h : History) : List Checkpoint := h.filterMap (·.2.checkpoint?)

def acknowledgements (h : History) : List Checkpoint := h.filterMap (·.2.acknowledgement?)

def streams (h : History) : List StreamKey := (h.filterMap (·.2.stream?)).eraseDups

def numbered (n : Nat) : History → List (Nat × RecordMessage)
  | [] => []
  | (_, .message .source (.record r)) :: rest => (n, r) :: numbered n rest
  | (_, .message .source (.checkpoint _)) :: rest => numbered (n + 1) rest
  | _ :: rest => numbered n rest

/-- The records between checkpoint `i - 1` and checkpoint `i`, or since the last checkpoint. -/
def window (h : History) (i : Nat) : List RecordMessage :=
  ((h.numbered 0).filter (·.1 = i)).map Prod.snd

/-- The records before the `j`-th checkpoint, where the first one is number one. -/
def recordsBefore (h : History) (j : Nat) : List RecordMessage :=
  ((h.numbered 0).filter (·.1 < j)).map Prod.snd

def waiting (h : History) : List Nat :=
  List.range' h.acknowledgements.length (h.checkpoints.length - h.acknowledgements.length)

/-- What the snapshot of a window takes: it depends on how many streams have a record there. -/
def windowCost (h : History) (i : Nat) : Count :=
  snapshotCost ((h.window i).map (·.stream)).toFinset.card

def waitingCost (h : History) : Nat := (h.waiting.map fun i => (h.windowCost i).toNat).sum

def largestCost (h : History) : Nat :=
  ((List.range h.checkpoints.length).map fun i => (h.windowCost i).toNat).foldl max 0

/-- The inputs that no ledger survives: an acknowledgement with no checkpoint to stand for, a
checkpoint whose window no longer fits beside those that wait, and an access that was cut short. -/
def Breaks (limit : Count) (h : History) (i : Instant × Attempt.Input) : Prop :=
  match i.2 with
  | .message .source (.checkpoint _) => limit.toNat < waitingCost (h ++ [i])
  | .message .destination (.checkpoint _) =>
    h.checkpoints.length < (acknowledgements (h ++ [i])).length
  | .interruption => True
  | _ => False

instance (limit : Count) (h : History) (i : Instant × Attempt.Input) :
    Decidable (h.Breaks limit i) :=
  match i with
  | (_, .message .source (.checkpoint _)) => Nat.decLt _ _
  | (_, .message .destination (.checkpoint _)) => Nat.decLt _ _
  | (_, .interruption) => .isTrue trivial
  | (_, .message .source (.record _)) | (_, .message .source (.estimate _))
  | (_, .message .source (.trace _)) | (_, .message .destination (.record _))
  | (_, .message .destination (.estimate _)) | (_, .message .destination (.trace _)) => .isFalse id

/-- Neither side has sent more checkpoints than a count can tell apart. -/
structure Countable (h : History) : Prop where
  checkpoints : h.checkpoints.length < Count.limit
  acknowledgements : h.acknowledgements.length < Count.limit

def row (h : History) (i : Nat) : TallyRow := .ofRecords h.streams (h.window i)

def snapshot (h : History) (i : Nat) : Snapshot :=
  ⟨(h.row i).nonzero, h.checkpoints[i]?.map Checkpoint.fingerprint⟩

def folded (h : History) (j : Nat) : TallyRow :=
  (List.range j).foldl (fun row i => row.addAll (h.row i).nonzero) []

/-! ### One more input -/

variable (h : History) (i : Instant × Attempt.Input)

theorem checkpoints_concat :
    checkpoints (h ++ [i]) = h.checkpoints ++ i.2.checkpoint?.toList := by
  cases hc : i.2.checkpoint? <;> simp [checkpoints, hc]

theorem acknowledgements_concat :
    acknowledgements (h ++ [i]) = h.acknowledgements ++ i.2.acknowledgement?.toList := by
  cases ha : i.2.acknowledgement? <;> simp [acknowledgements, ha]

theorem streams_concat :
    streams (h ++ [i]) = i.2.stream?.elim h.streams fun key =>
      if key ∈ h.streams then h.streams else h.streams ++ [key] := by
  rw [streams, List.filterMap_append, List.eraseDups_append]
  cases hs : i.2.stream? with
  | none => simp [hs, streams]
  | some key =>
    by_cases mem : key ∈ h.streams
    · have known : key ∈ h.filterMap (·.2.stream?) := List.mem_eraseDups.1 mem
      simp [hs, known, streams, List.removeAll]
    · have fresh : key ∉ h.filterMap (·.2.stream?) := fun known => mem (List.mem_eraseDups.2 known)
      have single : [key].eraseDups = [key] := by rw [List.eraseDups_cons]; rfl
      simp [hs, fresh, streams, List.removeAll, single]

private theorem numbered_concat (n : Nat) :
    numbered n (h ++ [i]) =
      numbered n h ++ i.2.record?.toList.map fun r => (n + h.checkpoints.length, r) := by
  induction h generalizing n with
  | nil =>
    obtain ⟨now, input⟩ := i
    rcases input with ⟨side, m⟩ | _
    · cases side <;> cases m <;> rfl
    · rfl
  | cons j h ih =>
    obtain ⟨now, input⟩ := j
    rcases input with ⟨side, m⟩ | _
    · cases side <;> cases m
      case source.record r => exact congrArg _ (ih n)
      case source.checkpoint c =>
        refine (ih (n + 1)).trans ?_
        rw [Nat.add_assoc, Nat.add_comm 1]
        rfl
      all_goals exact ih n
    · exact ih n

private theorem window_concat (k : Nat) :
    window (h ++ [i]) k =
      h.window k ++ if k = h.checkpoints.length then i.2.record?.toList else [] := by
  rw [window, numbered_concat, List.filter_append, List.map_append, window]
  cases i.2.record? with
  | none => simp
  | some r =>
    by_cases same : k = h.checkpoints.length
    · simp [same]
    · simp [same, Ne.symm same]

theorem recordsBefore_concat (j : Nat) :
    recordsBefore (h ++ [i]) j =
      h.recordsBefore j ++ if h.checkpoints.length < j then i.2.record?.toList else [] := by
  rw [recordsBefore, numbered_concat, List.filter_append, List.map_append, recordsBefore]
  cases i.2.record? with
  | none => simp
  | some r => by_cases before : h.checkpoints.length < j <;> simp [before]

theorem streams_concat_eq_append : ∃ more, streams (h ++ [i]) = h.streams ++ more := by
  rw [streams_concat]
  cases i.2.stream? with
  | none => exact ⟨[], (List.append_nil _).symm⟩
  | some key =>
    by_cases mem : key ∈ h.streams
    · exact ⟨[], by simp [mem]⟩
    · exact ⟨[key], by simp [mem]⟩

variable {h i}

private theorem stream_mem_streams_concat {key : StreamKey} (known : i.2.stream? = some key) :
    key ∈ streams (h ++ [i]) := by
  rw [streams_concat, known]
  by_cases mem : key ∈ h.streams <;> simp [mem]

theorem checkpoints_concat_of_none (noCheckpoint : i.2.checkpoint? = none) :
    checkpoints (h ++ [i]) = h.checkpoints := by
  rw [checkpoints_concat, noCheckpoint, Option.toList_none, List.append_nil]

theorem length_checkpoints_concat {c : Checkpoint} (sent : i.2.checkpoint? = some c) :
    (checkpoints (h ++ [i])).length = h.checkpoints.length + 1 := by
  rw [checkpoints_concat, sent, Option.toList_some, List.length_append, List.length_singleton]

theorem acknowledgements_concat_of_none (noAcknowledgement : i.2.acknowledgement? = none) :
    acknowledgements (h ++ [i]) = h.acknowledgements := by
  rw [acknowledgements_concat, noAcknowledgement, Option.toList_none, List.append_nil]

theorem length_acknowledgements_concat {c : Checkpoint}
    (sent : i.2.acknowledgement? = some c) :
    (acknowledgements (h ++ [i])).length = h.acknowledgements.length + 1 := by
  rw [acknowledgements_concat, sent, Option.toList_some, List.length_append,
    List.length_singleton]

theorem idxOf_streams_concat {key : StreamKey} (known : i.2.stream? = some key) :
    (streams (h ++ [i])).idxOf key = h.streams.idxOf key := by
  rw [streams_concat, known, Option.elim_some]
  by_cases mem : key ∈ h.streams
  · rw [if_pos mem]
  · rw [if_neg mem, List.idxOf_append_of_notMem mem, List.idxOf_of_notMem mem]
    simp

theorem stream?_of_record? {input : Attempt.Input} {r : RecordMessage}
    (sent : input.record? = some r) : input.stream? = some r.stream := by
  unfold Attempt.Input.record? at sent
  split at sent
  · cases sent
    rfl
  · cases sent

theorem nodup_streams (h : History) : h.streams.Nodup := by
  induction h using List.reverseRecOn with
  | nil => exact List.nodup_nil
  | append_singleton h i ih =>
    rw [streams_concat]
    cases i.2.stream? with
    | none => exact ih
    | some key =>
      by_cases mem : key ∈ streams h
      · simpa [mem] using ih
      · have longer : (streams h ++ [key]).Nodup :=
          List.nodup_append.2 ⟨ih, List.nodup_singleton key, by
            rintro a ha b hb rfl
            exact mem (List.mem_singleton.1 hb ▸ ha)⟩
        simpa [mem] using longer

/-! ### Windows and the streams in them -/

private theorem numbered_bounds (h : History) :
    ∀ p ∈ h.numbered 0, p.1 ≤ h.checkpoints.length ∧ p.2.stream ∈ h.streams := by
  induction h using List.reverseRecOn with
  | nil => simp [numbered]
  | append_singleton h i ih =>
    intro p hp
    rw [numbered_concat] at hp
    rw [checkpoints_concat, List.length_append]
    rcases List.mem_append.1 hp with old | new
    · obtain ⟨bound, known⟩ := ih p old
      obtain ⟨more, longer⟩ := streams_concat_eq_append h i
      exact ⟨by omega, longer ▸ List.mem_append_left more known⟩
    · obtain ⟨r, sent, rfl⟩ := List.mem_map.1 new
      have known := stream?_of_record? (Option.mem_toList.1 sent)
      exact ⟨by simp, stream_mem_streams_concat known⟩

private theorem stream_mem_of_mem_window {k : Nat} {r : RecordMessage} (hr : r ∈ h.window k) :
    r.stream ∈ h.streams := by
  obtain ⟨p, hp, rfl⟩ := List.mem_map.1 hr
  exact (numbered_bounds h p (List.mem_filter.1 hp).1).2

theorem stream_mem_of_mem_recordsBefore {j : Nat} {r : RecordMessage}
    (hr : r ∈ h.recordsBefore j) : r.stream ∈ h.streams := by
  obtain ⟨p, hp, rfl⟩ := List.mem_map.1 hr
  exact (numbered_bounds h p (List.mem_filter.1 hp).1).2

private theorem window_of_lt {k : Nat} (hk : h.checkpoints.length < k) : h.window k = [] := by
  rw [window, List.map_eq_nil_iff, List.filter_eq_nil_iff]
  intro p hp
  have := (numbered_bounds h p hp).1
  simp only [decide_eq_true_eq]
  omega

private theorem recordsBefore_zero (h : History) : h.recordsBefore 0 = [] := by
  simp [recordsBefore]

private theorem recordsBefore_succ (h : History) (j : Nat) :
    h.recordsBefore (j + 1) = h.recordsBefore j ++ h.window j := by
  induction h using List.reverseRecOn with
  | nil => rfl
  | append_singleton h i ih =>
    rw [recordsBefore_concat, recordsBefore_concat, window_concat, ih]
    rcases Nat.lt_trichotomy (checkpoints h).length j with before | same | after
    · have nothing := window_of_lt before
      simp [before, Nat.lt_succ_of_lt before, Nat.ne_of_gt before, nothing]
    · simp [same]
    · simp [Nat.not_lt_of_gt after, Nat.ne_of_lt after, Nat.not_lt_of_ge after]

private theorem row_concat_of_window {k : Nat} (same : window (h ++ [i]) k = h.window k) :
    row (h ++ [i]) k = h.row k := by
  obtain ⟨more, longer⟩ := streams_concat_eq_append h i
  rw [row, same, longer]
  exact TallyRow.ofRecords_append_keys (fun r hr => stream_mem_of_mem_window hr) more

theorem row_concat_of_none (noRecord : i.2.record? = none) (k : Nat) :
    row (h ++ [i]) k = h.row k :=
  row_concat_of_window (by simp [window_concat, noRecord])

private theorem row_concat_of_lt {k : Nat} (hk : k < h.checkpoints.length) :
    row (h ++ [i]) k = h.row k :=
  row_concat_of_window (by simp [window_concat, Nat.ne_of_lt hk])

theorem row_concat_of_record {r : RecordMessage} (sent : i.2.record? = some r) :
    row (h ++ [i]) h.checkpoints.length =
      (h.row h.checkpoints.length).addAt ((streams (h ++ [i])).idxOf r.stream)
        (.single r.byteSize) := by
  obtain ⟨more, longer⟩ := streams_concat_eq_append h i
  rw [row, window_concat, if_pos rfl, sent, Option.toList_some,
    TallyRow.ofRecords_append_singleton, row, longer,
    TallyRow.ofRecords_append_keys (fun r hr => stream_mem_of_mem_window hr) more]

theorem row_of_lt {k : Nat} (hk : h.checkpoints.length < k) : h.row k = [] := by
  rw [row, window_of_lt hk]
  rfl

private theorem windowCost_eq (h : History) (k : Nat) :
    h.windowCost k = snapshotCost (h.row k).nonzero.length := by
  rw [windowCost, row,
    TallyRow.length_nonzero_ofRecords fun r hr => stream_mem_of_mem_window hr]

private theorem windowCost_concat_of_lt {k : Nat} (hk : k < h.checkpoints.length) :
    windowCost (h ++ [i]) k = h.windowCost k := by
  rw [windowCost_eq, windowCost_eq, row_concat_of_lt hk]

theorem cost_snapshot (h : History) (k : Nat) : (h.snapshot k).cost = h.windowCost k := by
  rw [windowCost_eq]
  rfl

theorem snapshot_concat_of_lt {k : Nat} (hk : k < h.checkpoints.length) :
    snapshot (h ++ [i]) k = h.snapshot k := by
  rw [snapshot, snapshot, row_concat_of_lt hk, checkpoints_concat, List.getElem?_append_left hk]

theorem snapshot_concat_of_checkpoint {c : Checkpoint} (sent : i.2.checkpoint? = some c)
    (noRecord : i.2.record? = none) :
    snapshot (h ++ [i]) h.checkpoints.length =
      ⟨(h.row h.checkpoints.length).nonzero, some c.fingerprint⟩ := by
  rw [snapshot, row_concat_of_none noRecord, checkpoints_concat, sent]
  simp

theorem folded_concat {j : Nat} (hj : j ≤ h.checkpoints.length) :
    folded (h ++ [i]) j = h.folded j := by
  refine List.foldl_ext _ _ _ fun row k hk => ?_
  rw [row_concat_of_lt (Nat.lt_of_lt_of_le (List.mem_range.1 hk) hj)]

theorem folded_succ (h : History) (j : Nat) :
    h.folded (j + 1) = (h.folded j).addAll (h.row j).nonzero := by
  rw [folded, List.range_succ, List.foldl_append]
  rfl

/-- Folding windows adds up, stream by stream, the records before the last of their checkpoints. -/
theorem tally_folded (h : History) (j stream : Nat) :
    (h.folded j).tally stream =
      .ofRecords ((h.recordsBefore j).filter fun r => h.streams.idxOf r.stream = stream) := by
  induction j with
  | zero =>
    rw [recordsBefore_zero]
    rfl
  | succ j ih =>
    rw [folded_succ, TallyRow.tally_addAll _ (TallyRow.nodup_nonzero _), TallyRow.deltaAt_nonzero,
      ih, row, TallyRow.tally_ofRecords, recordsBefore_succ, List.filter_append,
      Tally.ofRecords_append]

theorem length_folded_le (h : History) (j : Nat) : (h.folded j).length ≤ h.streams.length := by
  induction j with
  | zero => exact Nat.zero_le _
  | succ j ih =>
    rw [folded_succ]
    refine TallyRow.length_addAll_le ih fun d hd => ?_
    have known := TallyRow.length_ofRecords_le fun r (hr : r ∈ h.window j) =>
      stream_mem_of_mem_window hr
    exact Nat.lt_of_lt_of_le (TallyRow.lt_length_of_mem_nonzero hd) known

theorem largestCost_concat_of_none (noCheckpoint : i.2.checkpoint? = none) :
    largestCost (h ++ [i]) = h.largestCost := by
  rw [largestCost, largestCost, checkpoints_concat_of_none noCheckpoint]
  refine congrArg _ (List.map_congr_left fun k hk => ?_)
  rw [windowCost_concat_of_lt (List.mem_range.1 hk)]

theorem largestCost_concat_of_checkpoint {c : Checkpoint} (sent : i.2.checkpoint? = some c) :
    largestCost (h ++ [i]) =
      max h.largestCost (windowCost (h ++ [i]) h.checkpoints.length).toNat := by
  rw [largestCost, length_checkpoints_concat sent, List.range_succ, List.map_append,
    List.foldl_append]
  refine congrArg (max · _) (congrArg _ (List.map_congr_left fun k hk => ?_))
  rw [windowCost_concat_of_lt (List.mem_range.1 hk)]

theorem mem_waiting (h : History) (k : Nat) :
    k ∈ h.waiting ↔ h.acknowledgements.length ≤ k ∧ k < h.checkpoints.length := by
  rw [waiting, List.mem_range'_1]
  omega

theorem waiting_concat_of_none (noCheckpoint : i.2.checkpoint? = none)
    (noAcknowledgement : i.2.acknowledgement? = none) : waiting (h ++ [i]) = h.waiting := by
  rw [waiting, checkpoints_concat_of_none noCheckpoint,
    acknowledgements_concat_of_none noAcknowledgement, waiting]

theorem waiting_concat_of_checkpoint {c : Checkpoint} (sent : i.2.checkpoint? = some c)
    (noAcknowledgement : i.2.acknowledgement? = none)
    (ordered : h.acknowledgements.length ≤ h.checkpoints.length) :
    waiting (h ++ [i]) = h.waiting ++ [h.checkpoints.length] := by
  have size : h.checkpoints.length + 1 - h.acknowledgements.length =
      h.checkpoints.length - h.acknowledgements.length + 1 := by omega
  have last : h.acknowledgements.length + (h.checkpoints.length - h.acknowledgements.length) =
      h.checkpoints.length := by omega
  rw [waiting, length_checkpoints_concat sent, acknowledgements_concat_of_none noAcknowledgement,
    size, List.range'_1_concat, last, waiting]

theorem waiting_eq_cons_of_acknowledgement {c : Checkpoint} (sent : i.2.acknowledgement? = some c)
    (noCheckpoint : i.2.checkpoint? = none)
    (behind : h.acknowledgements.length < h.checkpoints.length) :
    h.waiting = h.acknowledgements.length :: waiting (h ++ [i]) := by
  have size : h.checkpoints.length - h.acknowledgements.length =
      h.checkpoints.length - (h.acknowledgements.length + 1) + 1 := by omega
  rw [waiting, size, List.range'_succ, waiting, checkpoints_concat_of_none noCheckpoint,
    length_acknowledgements_concat sent]

theorem waitingCost_concat_of_checkpoint {c : Checkpoint} (sent : i.2.checkpoint? = some c)
    (noAcknowledgement : i.2.acknowledgement? = none)
    (ordered : h.acknowledgements.length ≤ h.checkpoints.length) :
    waitingCost (h ++ [i]) =
      h.waitingCost + (windowCost (h ++ [i]) h.checkpoints.length).toNat := by
  rw [waitingCost, waiting_concat_of_checkpoint sent noAcknowledgement ordered, List.map_append,
    List.sum_append, List.map_singleton, List.sum_singleton, waitingCost]
  refine congrArg (· + _) (congrArg List.sum (List.map_congr_left fun k hk => ?_))
  rw [windowCost_concat_of_lt ((mem_waiting h k).1 hk).2]

theorem Countable.of_concat (countable : Countable (h ++ [i])) : h.Countable := by
  obtain ⟨checkpoints, acknowledgements⟩ := countable
  rw [checkpoints_concat, List.length_append] at checkpoints
  rw [acknowledgements_concat, List.length_append] at acknowledgements
  exact ⟨by omega, by omega⟩

theorem Countable.of_append {rest : History} (countable : Countable (h ++ rest)) :
    h.Countable := by
  induction rest using List.reverseRecOn with
  | nil => rwa [List.append_nil] at countable
  | append_singleton rest i ih =>
    rw [← List.append_assoc] at countable
    exact ih countable.of_concat

end History

end SyncAccounting
