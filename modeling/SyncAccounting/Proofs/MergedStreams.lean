import Mathlib.Data.List.DropRight
import SyncAccounting.Proofs.ResumePoint
import SyncAccounting.Proofs.Text.ByteOrder

/-!
What several checkpoints merge to. The last one of the whole sync cuts off all before it. Either it
comes last and is the result itself, or the result lists the streams that come after it, each with
the data of its last checkpoint.
-/

set_option autoImplicit false

namespace SyncAccounting.MergedCheckpoint

/-- The checkpoints after the last one of the whole sync, which are all of single streams. -/
def sinceWhole (checkpoints : List Checkpoint) : List Checkpoint :=
  checkpoints.rtakeWhile (·.stream?.isSome)

def lastData? (key : StreamKey) (checkpoints : List Checkpoint) : Option Json.Value :=
  (checkpoints.filter (·.stream? = some key)).getLast?.map Checkpoint.data

/-- A list of streams that says what some checkpoints leave of them. -/
structure Lists (streams : List (StreamKey × Json.Value)) (checkpoints : List Checkpoint) :
    Prop where
  ascending : (streams.map Prod.fst).Pairwise (· < ·)
  found : ∀ key, SortedList.find? key streams = lastData? key (sinceWhole checkpoints)

variable {checkpoints : List Checkpoint} {streams : List (StreamKey × Json.Value)}

private theorem sinceWhole_concat (c : Checkpoint) :
    sinceWhole (checkpoints ++ [c]) =
      if c.stream?.isSome then sinceWhole checkpoints ++ [c] else [] :=
  List.rtakeWhile_concat _ _ _

private theorem lastData?_concat (key other : StreamKey) (data : Json.Value)
    (checkpoints : List Checkpoint) :
    lastData? other (checkpoints ++ [.stream key data]) =
      if other = key then some data else lastData? other checkpoints := by
  rw [lastData?, List.filter_append]
  by_cases same : other = key
  · subst same
    have kept : [Checkpoint.stream other data].filter (·.stream? = some other) =
        [.stream other data] := List.filter_cons_of_pos (decide_eq_true rfl)
    rw [if_pos rfl, kept, List.getLast?_concat]
    rfl
  · have left : [Checkpoint.stream key data].filter (·.stream? = some other) = [] :=
      List.filter_cons_of_neg fun kept =>
        same (Option.some.inj (of_decide_eq_true kept)).symm
    rw [if_neg same, left, List.append_nil, lastData?]

private theorem Lists.insert (lists : Lists streams checkpoints) (key : StreamKey)
    (data : Json.Value) :
    Lists (SortedList.insert key data streams) (checkpoints ++ [.stream key data]) := by
  refine ⟨SortedList.ascending_insert key data lists.ascending, fun other => ?_⟩
  have longer : sinceWhole (checkpoints ++ [.stream key data]) =
      sinceWhole checkpoints ++ [.stream key data] := sinceWhole_concat _
  rw [SortedList.find?_insert, lists.found, longer, lastData?_concat]

private theorem lists_nil (noneSince : sinceWhole checkpoints = []) : Lists [] checkpoints := by
  refine ⟨.nil, fun key => ?_⟩
  rw [noneSince]
  rfl

/-- What is merged is told by the last checkpoint; its streams are listed where it is of one. -/
private theorem ofCheckpoints_cases (checkpoints : List Checkpoint) :
    match checkpoints.getLast? with
    | none => ofCheckpoints checkpoints = none
    | some (.global data) => ofCheckpoints checkpoints = some (.single .global data)
    | some (.legacy data) => ofCheckpoints checkpoints = some (.single .legacy data)
    | some (.stream _ _) => ∃ streams,
        ofCheckpoints checkpoints = some (.perStream streams) ∧ Lists streams checkpoints := by
  induction checkpoints using List.reverseRecOn with
  | nil => rfl
  | append_singleton earlier c ih =>
    rw [List.getLast?_concat, ofCheckpoints_concat]
    cases c with
    | global data => rfl
    | legacy data => rfl
    | stream key data =>
      -- A list goes on where the checkpoint before is of a stream too, and else starts anew.
      cases last : earlier.getLast? with
      | none =>
        rw [last] at ih
        rw [List.getLast?_eq_none_iff.1 last]
        exact ⟨_, rfl, (lists_nil rfl).insert key data⟩
      | some d =>
        obtain ⟨front, rfl⟩ := List.getLast?_eq_some_iff.1 last
        rw [last] at ih
        cases d with
        | stream other old =>
          obtain ⟨streams, known, lists⟩ := ih
          rw [known]
          exact ⟨_, rfl, lists.insert key data⟩
        | global old =>
          rw [show ofCheckpoints (front ++ [.global old]) = _ from ih]
          exact ⟨_, rfl, (lists_nil (sinceWhole_concat _)).insert key data⟩
        | legacy old =>
          rw [show ofCheckpoints (front ++ [.legacy old]) = _ from ih]
          exact ⟨_, rfl, (lists_nil (sinceWhole_concat _)).insert key data⟩

private theorem Lists.mem_iff (lists : Lists streams checkpoints) (key : StreamKey)
    (data : Json.Value) :
    (key, data) ∈ streams ↔ lastData? key (sinceWhole checkpoints) = some data := by
  have once := SortedList.nodup_of_ascending lists.ascending
  rw [← lists.found]
  refine ⟨fun listed => SortedList.find?_of_mem once listed, fun found => ?_⟩
  have known := (SortedList.isSome_find?_iff key streams).1 (Option.isSome_of_eq_some found)
  obtain ⟨e, he, rfl⟩ := List.mem_map.1 known
  rw [SortedList.find?_of_mem once he] at found
  cases found
  exact he

/-- Nothing is merged only where nothing came. A checkpoint of the whole sync that comes last is all
that is left. After it, or from the start, the streams are listed by the bytes of their names, and
a stream has a place in the list, with the data of its last checkpoint, exactly if it has one
there. -/
theorem merges_streams_since_last_whole (checkpoints : List Checkpoint) :
    (ofCheckpoints checkpoints = none ↔ checkpoints = []) ∧
      match checkpoints.getLast? with
      | none => ofCheckpoints checkpoints = none
      | some (.global data) => ofCheckpoints checkpoints = some (.single .global data)
      | some (.legacy data) => ofCheckpoints checkpoints = some (.single .legacy data)
      | some (.stream _ _) => ∃ streams,
          ofCheckpoints checkpoints = some (.perStream streams) ∧
            (streams.map Prod.fst).Pairwise StreamKey.BytesBefore ∧
            ∀ key data, (key, data) ∈ streams ↔
              lastData? key (sinceWhole checkpoints) = some data := by
  have merged := ofCheckpoints_cases checkpoints
  constructor
  · rcases List.eq_nil_or_concat' checkpoints with rfl | ⟨earlier, c, rfl⟩
    · exact iff_of_true rfl rfl
    · rw [ofCheckpoints_concat]
      simp
  · cases last : checkpoints.getLast? with
    | none =>
      rw [last] at merged
      exact merged
    | some c =>
      rw [last] at merged
      cases c with
      | global data => exact merged
      | legacy data => exact merged
      | stream key data =>
        obtain ⟨streams, known, lists⟩ := merged
        refine ⟨streams, known, lists.ascending.imp fun {a b} less => ?_, lists.mem_iff⟩
        exact (StreamKey.bytesBefore_iff a b).2 less

end SyncAccounting.MergedCheckpoint
