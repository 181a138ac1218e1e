import SyncAccounting.Attempt.Statistics
import SyncAccounting.Proofs.Attempt.Step

/-!
Which streams an attempt knows, and what it counted of each. A stream gets its position when it is
first observed and keeps it, so that rows which are indexed by positions never mix two streams up.
-/

set_option autoImplicit false

namespace SyncAccounting

namespace History

def records (h : History) : List RecordMessage := h.filterMap (·.2.record?)

variable {h : History} {i : Instant × Attempt.Input}

theorem records_concat (h : History) (i : Instant × Attempt.Input) :
    records (h ++ [i]) = h.records ++ i.2.record?.toList := by
  cases sent : i.2.record? <;> simp [records, sent]

theorem stream_mem_of_mem_records {r : RecordMessage} (hr : r ∈ h.records) :
    r.stream ∈ h.streams := by
  obtain ⟨i, hi, sent⟩ := List.mem_filterMap.1 hr
  exact List.mem_eraseDups.2 (List.mem_filterMap.2 ⟨i, hi, stream?_of_record? sent⟩)

private theorem streams_prefix_append (h rest : History) : h.streams <+: streams (h ++ rest) := by
  rw [streams, streams, List.filterMap_append, List.eraseDups_append]
  exact List.prefix_append _ _

def tallyOf (h : History) (key : StreamKey) : Tally :=
  .ofRecords (h.records.filter (·.stream = key))

end History

namespace Attempt

section

variable {a : Attempt}

theorem perStream_eq_map (distinct : a.registry.keys.Nodup) (count : Nat → Count) :
    a.perStream count =
      a.registry.keys.map fun key => (key, count (a.registry.keys.idxOf key)) := by
  rw [perStream, Registry.toList_eq_map distinct, List.map_map]
  rfl

theorem streams_summary_eq_map (distinct : a.registry.keys.Nodup) :
    a.summary.streams =
      a.registry.keys.map fun key => a.streamSummary (a.registry.keys.idxOf key) key := by
  change a.registry.toList.map _ = _
  rw [Registry.toList_eq_map distinct, List.map_map]
  rfl

end

variable (settings : Settings) (h : History)

theorem emission_run :
    (run settings h).attempt.emission.perStream = .ofRecords h.streams h.records := by
  induction h using List.reverseRecOn with
  | nil => rfl
  | append_singleton h i ih =>
    obtain ⟨more, longer⟩ := History.streams_concat_eq_append h i
    have older : TallyRow.ofRecords (History.streams (h ++ [i])) (History.records h) =
        TallyRow.ofRecords (History.streams h) (History.records h) := by
      rw [longer]
      exact TallyRow.ofRecords_append_keys (fun r hr => History.stream_mem_of_mem_records hr) more
    rw [run_concat, step_attempt, History.records_concat]
    cases sent : i.2.record? with
    | none =>
      rw [Option.toList_none, List.append_nil, older]
      exact ih
    | some r =>
      have position : (run settings h).attempt.registry.positionOf r.stream =
          (History.streams (h ++ [i])).idxOf r.stream := by
        rw [positionOf_run, History.idxOf_streams_concat (History.stream?_of_record? sent)]
      rw [Option.toList_some, TallyRow.ofRecords_append_singleton, older, ← ih, ← position]
      rfl

private theorem emission_stream_run (key : StreamKey) :
    (run settings h).attempt.emission.stream (h.streams.idxOf key) = h.tallyOf key := by
  rw [Emission.stream, emission_run, TallyRow.tally_ofRecords, History.tallyOf]
  refine congrArg Tally.ofRecords (List.filter_congr fun r hr => ?_)
  rw [decide_eq_decide]
  exact List.idxOf_inj (History.stream_mem_of_mem_records hr)

theorem perStream_emission_run (f : Tally → Count) :
    ((run settings h).attempt.perStream fun n => f ((run settings h).attempt.emission.stream n)) =
      h.streams.map fun key => (key, f (h.tallyOf key)) := by
  have keys := registry_run settings h
  rw [perStream_eq_map (keys ▸ h.nodup_streams), keys]
  simp only [emission_stream_run]

private theorem streams_summary_run :
    (run settings h).attempt.summary.streams = h.streams.map fun key =>
      (run settings h).attempt.streamSummary (h.streams.idxOf key) key := by
  have keys := registry_run settings h
  rw [streams_summary_eq_map (keys ▸ h.nodup_streams), keys]

private theorem map_stream_summary_run :
    (run settings h).attempt.summary.streams.map (·.stream) = h.streams := by
  rw [streams_summary_run, List.map_map]
  exact List.map_id _

/-- The streams of an attempt are those of the records and of the checkpoints of its source, each
once and in the order in which they first came, so a longer run appends to them. Of each stream,
what was emitted is the tally of the records with its key. In any registry, positions and streams
determine each other, the positions are those below its size, and no stream ever moves. -/
theorem streams_and_emission_exact :
    (run settings h).attempt.summary.streams.map (·.stream) =
        (h.filterMap (·.2.stream?)).eraseDups ∧
      ((run settings h).attempt.summary.streams.map (·.stream)).Nodup ∧
      (∀ rest : History, (run settings h).attempt.summary.streams.map (·.stream) <+:
        (run settings (h ++ rest)).attempt.summary.streams.map (·.stream)) ∧
      (∀ s ∈ (run settings h).attempt.summary.streams,
        (⟨s.recordsEmitted, s.bytesEmitted⟩ : Tally) =
          .ofRecords (h.records.filter (·.stream = s.stream))) ∧
      (run settings h).attempt.registry = .ofKeys (h.filterMap (·.2.stream?)) ∧
      ∀ keys : List StreamKey,
        (∀ key i, (Registry.ofKeys keys).position? key = some i ↔
          (Registry.ofKeys keys).key? i = some key) ∧
        (∀ i, ((Registry.ofKeys keys).key? i).isSome ↔ i < (Registry.ofKeys keys).size) ∧
        (∀ key, ((Registry.ofKeys keys).position? key).isSome ↔ key ∈ keys) ∧
        (∀ key, ((Registry.ofKeys keys).observe key).position? key =
          some ((Registry.ofKeys keys).positionOf key)) ∧
        ∀ more key i, (Registry.ofKeys keys).position? key = some i →
          (Registry.ofKeys (keys ++ more)).position? key = some i := by
  refine ⟨map_stream_summary_run settings h, ?_, fun rest => ?_, fun s hs => ?_,
    registry_run_eq_ofKeys settings h, fun keys => ?_⟩
  · rw [map_stream_summary_run]
    exact h.nodup_streams
  · rw [map_stream_summary_run, map_stream_summary_run]
    exact h.streams_prefix_append rest
  · rw [streams_summary_run] at hs
    obtain ⟨key, -, rfl⟩ := List.mem_map.1 hs
    exact emission_stream_run settings h key
  · have paired := Registry.paired_ofKeys keys
    refine ⟨paired, Registry.isSome_key?_iff _, fun key => ?_, paired.position?_observe,
      fun more key i found => ?_⟩
    · exact (paired.isKnown_iff key).trans (Registry.mem_keys_ofKeys keys key)
    · have here : (Registry.ofKeys keys).keys[i]? = some key := (paired key i).1 found
      obtain ⟨later, longer⟩ := Registry.prefix_ofKeys_append keys more
      rw [Registry.paired_ofKeys, Registry.key?, ← longer,
        List.getElem?_append_left (List.getElem?_eq_some_iff.1 here).1]
      exact here

/-- Two streams share a name, a third one is known from a checkpoint alone, and a record that the
destination sends makes no stream known. -/
theorem streams_and_emission_exact_of_shared_name :
    let a : StreamKey := ⟨"a", none⟩
    let b : StreamKey := ⟨"a", some "x"⟩
    let c : StreamKey := ⟨"c", none⟩
    let h : History := [(0, .message .source (.record ⟨a, .null, 5⟩)),
      (1, .message .source (.checkpoint (.stream c .null))),
      (2, .message .destination (.record ⟨⟨"z", none⟩, .null, 3⟩)),
      (3, .message .source (.record ⟨b, .null, 7⟩)),
      (4, .message .source (.record ⟨a, .null, 11⟩))]
    (run .default h).attempt.summary.streams.map (·.stream) = [a, c, b] ∧
      (∃ s ∈ (run .default h).attempt.summary.streams, s.stream = a ∧
        (⟨s.recordsEmitted, s.bytesEmitted⟩ : Tally) = ⟨2, 16⟩) ∧
      (Registry.ofKeys ([a, c] ++ [a, b])).position? c = some 1 := by
  intro a b c h
  obtain ⟨streams, -, -, emitted, -, registry⟩ := streams_and_emission_exact .default h
  have first : (run .default h).attempt.streamSummary 0 a ∈
      (run .default h).attempt.summary.streams := by
    rw [streams_summary_run]
    exact List.mem_map_of_mem (a := a) (by decide)
  refine ⟨streams.trans (by decide), ⟨_, first, rfl, (emitted _ first).trans ?_⟩, ?_⟩
  · decide
  · obtain ⟨-, -, -, -, stays⟩ := registry [a, c]
    exact stays [a, b] c 1 (by decide)

end Attempt

end SyncAccounting
