import SyncAccounting.Proofs.Json.Pretty
import SyncAccounting.Proofs.Json.Provenance
import SyncAccounting.Proofs.ResumePoint
import SyncAccounting.Proofs.Transcript.Replay
import SyncAccounting.Proofs.Wire.RoundTrip

/-!
The file with the state of a replay can always be read back. A checkpoint in a transcript lies
inside an entry and a message, and the file puts no more around it than these: so what the reader of
the transcript has let through is never too deep for the reader of the file.
-/

set_option autoImplicit false

namespace SyncAccounting

open Json

/-! ### What a transcript leaves room for -/

private theorem Json.Member.Reads.required {α : Type} {name : String} {c : Codec α} {levels : Nat}
    {a : α} (read : (Member.required name c).Reads levels a) : c.Reads levels a := by
  rcases read with read | absent | absent
  · exact read
  · cases absent
  · cases absent

private theorem dataRecord_reads {levels : Nat} {data : Value}
    (read : dataRecord.codec.Reads levels data) : data.IsNormal ∧ data.depth + 1 ≤ levels := by
  obtain ⟨n, ⟨part, _⟩, rfl, rfl, first, -⟩ := read.record
  obtain ⟨normal, depth⟩ := (Member.Reads.required first).free
  exact ⟨normal, Nat.succ_le_succ depth⟩

private theorem streamDataRecord_reads {levels : Nat} {p : StreamKey × Value}
    (read : streamDataRecord.codec.Reads levels p) : p.2.IsNormal ∧ p.2.depth + 1 ≤ levels := by
  obtain ⟨n, ⟨key, part, _⟩, rfl, rfl, -, second, -⟩ := read.record
  obtain ⟨normal, depth⟩ := (Member.Reads.required second).free
  exact ⟨normal, Nat.succ_le_succ depth⟩

private theorem Checkpoint.data_of_reads {levels : Nat} {c : Checkpoint}
    (read : codec.Reads levels c) :
    c.data.IsNormal ∧ c.data.depth + 1 ≤ levels := by
  obtain ⟨v, listed, read⟩ := read.among
  simp only [variants, List.mem_cons, List.not_mem_nil, or_false] at listed
  rcases listed with rfl | rfl | rfl
  · obtain ⟨data, body, rfl⟩ := read.of
    exact dataRecord_reads body
  · obtain ⟨p, body, rfl⟩ := read.of
    exact streamDataRecord_reads body
  · obtain ⟨data, body, rfl⟩ := read.of
    exact dataRecord_reads body

private theorem Message.checkpoint_of_reads {levels : Nat} {c : Checkpoint}
    (read : codec.Reads levels (.checkpoint c)) :
    c.data.IsNormal ∧ c.data.depth + 2 ≤ levels := by
  obtain ⟨n, rfl, v, listed, read⟩ := read.beside
  simp only [variants, List.mem_cons, List.not_mem_nil, or_false] at listed
  rcases listed with rfl | rfl | rfl | rfl
  · obtain ⟨r, -, other⟩ := read.of
    cases other
  · obtain ⟨d, read, same⟩ := read.of
    cases same
    obtain ⟨normal, depth⟩ := Checkpoint.data_of_reads read
    exact ⟨normal, Nat.succ_le_succ depth⟩
  · obtain ⟨e, -, other⟩ := read.of
    cases other
  · obtain ⟨t, -, other⟩ := read.of
    cases other

namespace Transcript

private theorem Entry.keeps {e : Entry} (message : Message.codec.Keeps e.message) : codec.Keeps e :=
  Record.keeps record (by decide) rfl ⟨e.origin.keeps, message, trivial⟩

def acknowledged (said : List (Option Entry)) : List Checkpoint :=
  said.reduceOption.filterMap Entry.acknowledgement?

private theorem acknowledgements_history (clock : Nat → Instant) (said : List (Option Entry)) :
    (history clock said).acknowledgements = acknowledged said := by
  have inputs := map_snd_historyFrom clock 1 said
  have told : (history clock said).acknowledgements =
      ((history clock said).map Prod.snd).filterMap Attempt.Input.acknowledgement? := by
    rw [List.filterMap_map]
    rfl
  rw [told, history, inputs, List.filterMap_map]
  rfl

private theorem Entry.data_of_ofText {text : String} {e : Entry} {c : Checkpoint}
    (read : Entry.codec.ofText text = .ok e) (sent : e.message = .checkpoint c) :
    c.data.IsNormal ∧ c.data.depth + 3 ≤ maxDepth := by
  obtain ⟨n, ⟨origin, message, _⟩, levels, rfl, -, second, -⟩ := (Codec.Reads.ofText read).record
  cases sent
  obtain ⟨normal, depth⟩ := Message.checkpoint_of_reads (Member.Reads.required second)
  exact ⟨normal, by omega⟩

private theorem data_of_mem_acknowledged {lines : List (List UInt8)} {said : List (Option Entry)}
    (tells : List.Forall₂ Says lines said) {c : Checkpoint} (hc : c ∈ acknowledged said) :
    c.data.IsNormal ∧ c.data.depth + 3 ≤ maxDepth := by
  induction tells with
  | nil => exact absurd hc List.not_mem_nil
  | @cons line first lines said told others ih =>
    rw [acknowledged, reduceOption_cons, List.filterMap_append, List.mem_append] at hc
    rcases hc with here | later
    · obtain ⟨e, mem, sent⟩ := List.mem_filterMap.1 here
      cases told with
      | blank utf8 blank => exact absurd mem List.not_mem_nil
      | entry utf8 solid read =>
        cases List.mem_singleton.1 mem
        exact Entry.data_of_ofText read (congrArg Entry.message (Entry.eq_of_acknowledgement? sent))
    · exact ih later

end Transcript

/-! ### What a merged checkpoint takes -/

namespace MergedCheckpoint

private theorem exists_of_mem_payloads {checkpoints : List Checkpoint} {merged : MergedCheckpoint}
    (known : ofCheckpoints checkpoints = some merged) {v : Value} (hv : v ∈ merged.payloads) :
    ∃ c ∈ checkpoints, c.data = v := by
  induction checkpoints using List.reverseRecOn generalizing merged with
  | nil => cases known
  | append_singleton checkpoints c ih =>
    rw [ofCheckpoints_concat, Option.some.injEq] at known
    subst known
    have last : c ∈ checkpoints ++ [c] := List.mem_append_right _ List.mem_cons_self
    cases c with
    | global data => exact ⟨_, last, (List.mem_singleton.1 hv).symm⟩
    | legacy data => exact ⟨_, last, (List.mem_singleton.1 hv).symm⟩
    | stream key data =>
      rcases before : ofCheckpoints checkpoints with _ | ⟨kind, old⟩ | streams <;>
        rw [before] at hv
      · exact ⟨_, last, (List.mem_singleton.1 hv).symm⟩
      · exact ⟨_, last, (List.mem_singleton.1 hv).symm⟩
      · obtain ⟨p, hp, rfl⟩ := List.mem_map.1 hv
        rcases SortedList.mem_of_mem_insert hp with rfl | old
        · exact ⟨_, last, rfl⟩
        · obtain ⟨d, hd, same⟩ := ih before (List.mem_map_of_mem old)
          exact ⟨d, List.mem_append_left _ hd, same⟩

/-- In either shape the file takes at most three levels around the data. -/
private theorem depth_write_le {levels : Nat} (positive : 1 ≤ levels) (merged : MergedCheckpoint)
    (within : ∀ v ∈ merged.payloads, v.depth ≤ levels) :
    (codec.write merged).depth ≤ levels + 3 := by
  cases merged with
  | single kind data =>
    have inside : data.depth ≤ levels := within data List.mem_cons_self
    have body : (singleRecord.codec.write (kind, data)).depth ≤ levels + 1 :=
      Record.depth_write_le singleRecord ⟨Nat.zero_le levels, inside, trivial⟩
    exact Tagged.depth_write_among_le rfl (body.trans (by omega))
  | perStream streams =>
    have each : ∀ p ∈ streams, (streamDataRecord.codec.write p).depth ≤ levels + 1 := fun p hp =>
      Record.depth_write_le streamDataRecord
        ⟨p.1.depth_write_le.trans positive, within p.2 (List.mem_map_of_mem hp), trivial⟩
    have body : (perStreamRecord.codec.write streams).depth ≤ levels + 3 :=
      Record.depth_write_le perStreamRecord ⟨Codec.depth_list_le each, trivial⟩
    exact Tagged.depth_write_among_le rfl body

/-- What is merged from the checkpoints of a transcript is read back from its lines. -/
private theorem ofText_pretty_ofCheckpoints {checkpoints : List Checkpoint}
    {merged : MergedCheckpoint} (known : ofCheckpoints checkpoints = some merged)
    (normal : ∀ c ∈ checkpoints, c.data.IsNormal ∧ c.data.depth + 3 ≤ maxDepth)
    (whole : ∀ c ∈ checkpoints, c.data.IsWhole) :
    codec.ofText (codec.write merged).pretty = .ok merged := by
  have keep : ∀ v ∈ merged.payloads, Codec.free.Keeps v := by
    intro v hv
    obtain ⟨c, hc, rfl⟩ := exists_of_mem_payloads known hv
    exact Codec.keeps_free (normal c hc).1 (whole c hc).isLegible
  -- A line puts three levels around the data and the file no more, so one limit serves for both.
  have within : ∀ v ∈ merged.payloads, v.depth ≤ maxDepth - 3 := by
    intro v hv
    obtain ⟨c, hc, rfl⟩ := exists_of_mem_payloads known hv
    exact Nat.le_sub_of_add_le (normal c hc).2
  exact (keeps keep).ofText_pretty (depth_write_le (by decide) merged within)

end MergedCheckpoint

/-! ### The file -/

namespace CommandLine

private theorem eq_of_prepare {w : World} {options : ReplayOptions} {job : Job}
    (ready : prepare w options = .ok job) :
    ∃ s content, w.resource options.transcript = .file content ∧
      job = ⟨options, .start (.ofSettings s), Transcript.lines content.data.toList⟩ := by
  obtain ⟨s, -, ready⟩ := exists_of_bind_eq_ok ready
  cases found : w.resource options.transcript with
  | missing =>
    rw [found] at ready
    cases ready
  | directory =>
    rw [found] at ready
    cases ready
  | file content =>
    rw [found] at ready
    exact ⟨s, content, rfl, (Except.ok.inj ready).symm⟩

private theorem written_of_replayed {w : World} {clock : Nat → Instant} {options : ReplayOptions}
    (replayed : (runReplay w clock options).error = none) {content : ByteArray}
    (resource : w.resource options.transcript = .file content)
    {said : List (Option Transcript.Entry)}
    (tells : List.Forall₂ Transcript.Says (Transcript.lines content.data.toList) said)
    {path : String} (asked : options.stateOut = some path) :
    (runReplay w clock options).written =
      (MergedCheckpoint.ofCheckpoints (Transcript.acknowledged said)).toList.map fun merged =>
        (path, (MergedCheckpoint.codec.write merged).pretty) := by
  rw [runReplay] at replayed ⊢
  cases ready : prepare w options with
  | error e =>
    rw [ready] at replayed
    cases replayed
  | ok job =>
    obtain ⟨s, found, same, rfl⟩ := eq_of_prepare ready
    cases resource.symm.trans same
    rw [ready] at replayed
    have state : ((Attempt.ofSettings s).after (Transcript.history clock said)).committedState =
        MergedCheckpoint.ofCheckpoints (Transcript.acknowledged said) := by
      rw [← Attempt.attempt_run, Attempt.committedState_run, Transcript.acknowledgements_history]
    simp only [Transcript.feedAll_start (.ofSettings s) tells clock, finish, asked, stateText,
      state] at replayed ⊢
    cases known : MergedCheckpoint.ofCheckpoints (Transcript.acknowledged said) with
    | none => rfl
    | some merged =>
      rw [known] at replayed
      by_cases allowed : w.canWrite path = true
      · simp only [Option.map_some, allowed, if_true]
        rfl
      · simp only [Option.map_some, allowed, if_false, Bool.false_eq_true] at replayed
        cases replayed

private theorem exists_tells_of_replayed {w : World} {clock : Nat → Instant}
    {options : ReplayOptions} (replayed : (runReplay w clock options).error = none) :
    ∃ content said, w.resource options.transcript = .file content ∧
      List.Forall₂ Transcript.Says (Transcript.lines content.data.toList) said := by
  rw [runReplay] at replayed
  cases ready : prepare w options with
  | error e =>
    rw [ready] at replayed
    cases replayed
  | ok job =>
    obtain ⟨s, content, found, rfl⟩ := eq_of_prepare ready
    rw [ready] at replayed
    rcases Transcript.tells_or_blames (Transcript.lines content.data.toList) with
      ⟨said, tells⟩ | ⟨front, bad, rest, said, fault, split, tells, blames⟩
    · exact ⟨content, said, found, tells⟩
    · have stops := Replay.feedAll_eq_of_blames (r := .start (.ofSettings s)) clock rfl tells
        (by rw [Replay.start, Nat.zero_add]; exact blames) rest
      rw [← split] at stops
      simp only [stops, finish] at replayed
      cases replayed

/-- Whatever the settings, and whether or not the ledger has failed: where a state is asked for and
a transcript is replayed without an error, the file that is written is read as what the checkpoints
of the destination amount to, in their order, if none of them holds a floating-point number; and no
file is written where the destination has sent none. -/
theorem state_file_read_back (w : World) (clock : Nat → Instant) (options : ReplayOptions)
    (path : String) (asked : options.stateOut = some path)
    (replayed : (runReplay w clock options).error = none) :
    (∃ content said, w.resource options.transcript = .file content ∧
      List.Forall₂ Transcript.Says (Transcript.lines content.data.toList) said) ∧
    ∀ content said, w.resource options.transcript = .file content →
      List.Forall₂ Transcript.Says (Transcript.lines content.data.toList) said →
      (Transcript.acknowledged said = [] → (runReplay w clock options).written = []) ∧
      (Transcript.acknowledged said ≠ [] →
        (∀ c ∈ Transcript.acknowledged said, c.data.IsWhole) →
        ∃ text merged, (runReplay w clock options).written = [(path, text)] ∧
          MergedCheckpoint.ofCheckpoints (Transcript.acknowledged said) = some merged ∧
          MergedCheckpoint.codec.ofText text = .ok merged) := by
  refine ⟨exists_tells_of_replayed replayed, fun content said resource tells => ?_⟩
  have written := written_of_replayed replayed resource tells asked
  refine ⟨fun unsent => ?_, fun sent whole => ?_⟩
  · rw [written, unsent]
    rfl
  · obtain ⟨merged, known⟩ : ∃ merged,
        MergedCheckpoint.ofCheckpoints (Transcript.acknowledged said) = some merged := by
      rcases List.eq_nil_or_concat' (Transcript.acknowledged said) with unsent | ⟨front, c, split⟩
      · exact absurd unsent sent
      · exact ⟨_, split ▸ MergedCheckpoint.ofCheckpoints_concat front c⟩
    have read := MergedCheckpoint.ofText_pretty_ofCheckpoints known
      (fun c hc => Transcript.data_of_mem_acknowledged tells hc) whole
    refine ⟨_, merged, ?_, known, read⟩
    rw [written, known]
    rfl

/-- The destination sends a checkpoint back that the source has not sent, and the ledger fails. -/
theorem state_file_read_back_of_failed :
    let line := "\x7b\"origin\":\"destination\",\"message\":\x7b\"type\":\"checkpoint\"," ++
      "\"body\":\x7b\"kind\":\"global\",\"data\":[[],7]\x7d\x7d\x7d"
    let content : ByteArray := ⟨(Transcript.bytes line).toArray⟩
    let w : World := ⟨[], fun _ => .file content, fun _ => true, 0⟩
    let outcome := runReplay w (fun _ => 0) ⟨"a", none, 1, some "b"⟩
    let data : Value := .array [.array [], .number (.natural 7)]
    ((Replay.start (.ofSettings .default)).feedAll (fun _ => 0)
      (Transcript.lines content.data.toList)).attempt.isHealthy = false ∧
    ∃ text, outcome.written = [("b", text)] ∧
      MergedCheckpoint.codec.ofText text = .ok (.single .global data) := by
  intro line content w outcome data
  have plain : data.IsNormal ∧ data.IsWhole := by
    refine ⟨by simp [data, Value.IsNormal, Value.AllNormal], fun n hn => ?_⟩
    cases List.mem_singleton.1 hn
    trivial
  have keeps : Message.codec.Keeps (.checkpoint (.global data)) := by
    refine Message.keeps ?_ ?_
    · rintro v ⟨⟩
      exact Codec.keeps_free plain.1 plain.2.isLegible
    · rintro x ⟨⟩
  have entry : Transcript.Entry.codec.ofText line =
      .ok ⟨.destination, .checkpoint (.global data)⟩ := by
    have written :
        Transcript.Entry.codec.text ⟨.destination, .checkpoint (.global data)⟩ = line := by
      decide +kernel
    rw [← written]
    exact (Transcript.Entry.keeps keeps).ofText_text (by decide +kernel)
  have told : Transcript.Says (Transcript.bytes line)
      (some ⟨.destination, .checkpoint (.global data)⟩) :=
    .entry ((Transcript.fromUTF8?_eq_some_iff (Transcript.bytes line) line).2 rfl) (by decide) entry
  have single : Transcript.lines content.data.toList = [Transcript.bytes line] := by
    decide +kernel
  have tells : List.Forall₂ Transcript.Says (Transcript.lines content.data.toList)
      [some ⟨.destination, .checkpoint (.global data)⟩] := by
    rw [single]
    exact .cons told .nil
  have replayed : outcome.error = none := by decide +kernel
  obtain ⟨-, states⟩ :=
    state_file_read_back w (fun _ => 0) ⟨"a", none, 1, some "b"⟩ "b" rfl replayed
  obtain ⟨-, state⟩ := states content _ rfl tells
  obtain ⟨text, merged, written, known, read⟩ := state (List.cons_ne_nil _ _) (by
    intro c hc
    cases List.mem_singleton.1 hc
    exact plain.2)
  cases known
  exact ⟨by decide +kernel, text, written, read⟩

end CommandLine

end SyncAccounting
