import SyncAccounting.CommandLine
import SyncAccounting.Proofs.Noninterference
import SyncAccounting.Proofs.Transcript.Lines

/-!
A replay is the run of the entries of its lines, in their order. It stops at the first line that
cannot be replayed, with the number of this line, and a command that is stopped prints and writes
nothing.
-/

set_option autoImplicit false

namespace SyncAccounting

namespace Attempt

/-- How many messages of the source are refused. -/
def refusals (a : Attempt) (h : History) : Nat := (a.answers h).countP fun answer => !answer.isOk

private theorem answer_destination (a : Attempt) (now : Instant) (m : Message) :
    (a.destination now m).answer = .ok () := by
  cases m <;> rfl

private theorem refusals_cons (a : Attempt) (now : Instant) (side : Side) (m : Message)
    (h : History) :
    a.refusals ((now, .message side m) :: h) =
      (if (a.step now (.message side m)).answer.isOk then 0 else 1) +
        (a.step now (.message side m)).attempt.refusals h := by
  cases side with
  | source =>
    have first : a.answers ((now, .message .source m) :: h) =
        (a.source now m).answer :: (a.source now m).attempt.answers h := rfl
    rw [refusals, first, List.countP_cons, Nat.add_comm, step]
    cases (a.source now m).answer.isOk <;> rfl
  | destination =>
    rw [step, answer_destination]
    exact (Nat.zero_add _).symm

end Attempt

namespace Transcript

/-- What a transcript tells, from the line with a number on: its entries, at the times at which
their lines are read. -/
def historyFrom (clock : Nat → Instant) : Nat → List (Option Entry) → History
  | _, [] => []
  | number, none :: rest => historyFrom clock (number + 1) rest
  | number, some e :: rest =>
    (clock number, .message e.origin e.message) :: historyFrom clock (number + 1) rest

def history (clock : Nat → Instant) (said : List (Option Entry)) : History :=
  historyFrom clock 1 said

def Entry.acknowledgement? (e : Entry) : Option Checkpoint :=
  (Attempt.Input.message e.origin e.message).acknowledgement?

theorem Entry.eq_of_acknowledgement? {e : Entry} {c : Checkpoint}
    (sent : e.acknowledgement? = some c) : e = ⟨.destination, .checkpoint c⟩ := by
  obtain ⟨origin, message⟩ := e
  cases origin <;> cases message <;> cases sent
  rfl

end Transcript

namespace Replay

open Transcript

variable (clock : Nat → Instant)

private theorem feedAll_of_fault {r : Replay} (stopped : r.fault.isSome = true)
    (lines : List (List UInt8)) : r.feedAll clock lines = r := by
  induction lines with
  | nil => rfl
  | cons line lines ih =>
    have same : r.feed (clock (r.lines + 1)) line = r := if_pos stopped
    rw [feedAll, List.foldl_cons, same]
    exact ih

private theorem feedAll_append (r : Replay) (front rest : List (List UInt8)) :
    r.feedAll clock (front ++ rest) = (r.feedAll clock front).feedAll clock rest :=
  List.foldl_append

private theorem rejected_apply (r : Replay) (now : Instant) (e : Entry) :
    (r.apply now e).rejected = r.rejected +
      .ofNat (if (r.attempt.step now (.message e.origin e.message)).answer.isOk then 0 else 1) := by
  rw [apply]
  cases (r.attempt.step now (.message e.origin e.message)).answer with
  | ok done => exact (Count.add_zero _).symm
  | error fault => rfl

variable {r : Replay} (going : r.fault = none)

include going

private theorem feed_blank (now : Instant) {line : List UInt8} (told : Says line none) :
    r.feed now line = { r with lines := r.lines + 1 } := by
  have read := (entry?_eq_ok_iff (r.lines + 1) line none).2 told
  rw [feed, if_neg (by rw [going]; nofun), read]

private theorem feed_entry (now : Instant) {line : List UInt8} {e : Entry}
    (told : Says line (some e)) :
    r.feed now line = { r.apply now e with lines := r.lines + 1 } := by
  have read := (entry?_eq_ok_iff (r.lines + 1) line (some e)).2 told
  rw [feed, if_neg (by rw [going]; nofun), read]

private theorem feed_fault (now : Instant) {line : List UInt8} {fault : Transcript.Fault}
    (blames : Blames (r.lines + 1) line fault) :
    r.feed now line = { r with fault := some fault } := by
  have read := (entry?_eq_error_iff (r.lines + 1) line fault).2 blames
  rw [feed, if_neg (by rw [going]; nofun), read]

/-- A replay of lines that can all be replayed is the run of their entries. -/
private theorem feedAll_eq {ls : List (List UInt8)} {said : List (Option Entry)}
    (tells : List.Forall₂ Says ls said) :
    r.feedAll clock ls =
      ⟨r.attempt.after (historyFrom clock (r.lines + 1) said), r.lines + ls.length,
        r.rejected + .ofNat (r.attempt.refusals (historyFrom clock (r.lines + 1) said)), none⟩ := by
  induction tells generalizing r with
  | nil =>
    rw [← going]
    exact congrArg (Replay.mk r.attempt r.lines · r.fault) (Count.add_zero r.rejected).symm
  | @cons line said ls told first others ih =>
    have lengths : r.lines + 1 + ls.length = r.lines + (ls.length + 1) := by omega
    rw [feedAll, List.foldl_cons]
    cases said with
    | none =>
      rw [feed_blank going _ first]
      have after := ih (r := { r with lines := r.lines + 1 }) going
      refine after.trans ?_
      simp only [List.length_cons, lengths, historyFrom]
    | some e =>
      rw [feed_entry going _ first]
      have after := ih (r := { r.apply (clock (r.lines + 1)) e with lines := r.lines + 1 }) going
      refine after.trans ?_
      simp only [List.length_cons, lengths, historyFrom, rejected_apply, Attempt.refusals_cons,
        Count.ofNat_add, Count.add_assoc]
      rfl

theorem feedAll_eq_of_blames {front : List (List UInt8)} {bad : List UInt8}
    {said : List (Option Entry)} (tells : List.Forall₂ Says front said) {fault : Transcript.Fault}
    (blames : Blames (r.lines + front.length + 1) bad fault) (rest : List (List UInt8)) :
    r.feedAll clock (front ++ bad :: rest) =
      ⟨r.attempt.after (historyFrom clock (r.lines + 1) said), r.lines + front.length,
        r.rejected + .ofNat (r.attempt.refusals (historyFrom clock (r.lines + 1) said)),
        some fault⟩ := by
  have before := feedAll_eq clock going tells
  rw [feedAll_append, before, feedAll, List.foldl_cons, feed_fault rfl _ blames]
  exact feedAll_of_fault clock rfl rest

end Replay

namespace Transcript

theorem map_snd_historyFrom (clock : Nat → Instant) (n : Nat) (said : List (Option Entry)) :
    (historyFrom clock n said).map Prod.snd =
      said.reduceOption.map fun e => .message e.origin e.message := by
  induction said generalizing n with
  | nil => rfl
  | cons first said ih =>
    cases first with
    | none => exact ih (n + 1)
    | some e => exact congrArg _ (ih (n + 1))

private theorem history_eq {clock other : Nat → Instant} {said told : List (Option Entry)}
    (entries : told.reduceOption = said.reduceOption)
    (times : (history other told).map Prod.fst = (history clock said).map Prod.fst) :
    history other told = history clock said := by
  have inputs : (history other told).map Prod.snd = (history clock said).map Prod.snd := by
    rw [history, history, map_snd_historyFrom, map_snd_historyFrom, entries]
  rw [List.zip_of_prod times inputs]
  exact (List.zip_of_prod rfl rfl).symm

private theorem exists_blames (number : Nat) {line : List UInt8}
    (silent : ∀ said, ¬Says line said) :
    ∃ fault, Blames number line fault := by
  cases told : entry? number line with
  | ok said => exact absurd ((entry?_eq_ok_iff number line said).1 told) (silent said)
  | error fault => exact ⟨fault, (entry?_eq_error_iff number line fault).1 told⟩

private theorem Blames.message {number : Nat} {line : List UInt8} {fault : Transcript.Fault}
    (blames : Blames number line fault) :
    fault.message = "Failed to read transcript line " ++ number.repr ∨
      fault.message = "Invalid transcript line " ++ number.repr := by
  cases blames with
  | unreadable => exact .inl rfl
  | invalid => exact .inr rfl

/-- All lines can be replayed, or there is a first one that cannot. -/
theorem tells_or_blames (ls : List (List UInt8)) :
    (∃ said, List.Forall₂ Says ls said) ∨
      ∃ front bad rest said fault, ls = front ++ bad :: rest ∧ List.Forall₂ Says front said ∧
        Blames (front.length + 1) bad fault := by
  induction ls using List.reverseRecOn with
  | nil => exact .inl ⟨[], .nil⟩
  | append_singleton ls line ih =>
    rcases ih with ⟨said, tells⟩ | ⟨front, bad, rest, said, fault, same, tells, blames⟩
    · by_cases sound : ∃ last, Says line last
      · obtain ⟨last, told⟩ := sound
        exact .inl ⟨said ++ [last], List.rel_append tells (.cons told .nil)⟩
      · obtain ⟨fault, blames⟩ := exists_blames (ls.length + 1) (not_exists.1 sound)
        exact .inr ⟨ls, line, [], said, fault, rfl, tells, blames⟩
    · refine .inr ⟨front, bad, rest ++ [line], said, fault, ?_, tells, blames⟩
      rw [same, List.append_assoc, List.cons_append]

end Transcript

namespace CommandLine

private theorem runReplay_eq_failure (w : World) (clock : Nat → Instant) (options : ReplayOptions)
    {content : ByteArray} (resource : w.resource options.transcript = .file content)
    {fault : Transcript.Fault}
    (stops : ∀ a, ((Replay.start a).feedAll clock
      (Transcript.lines content.data.toList)).fault = some fault) :
    ∃ error, runReplay w clock options = ⟨1, "", [], some error⟩ ∧
      ∀ s, settings w options.config = .ok s → error = .transcriptFault fault := by
  cases valid : settings w options.config with
  | error error =>
    have prepared : prepare w options = .error error := by
      simp only [prepare, valid, bind, Except.bind]
    refine ⟨error, ?_, nofun⟩
    rw [runReplay, prepared]
    rfl
  | ok s =>
    have prepared : prepare w options = .ok ⟨options, .start (.ofSettings s),
        Transcript.lines content.data.toList⟩ := by
      simp only [prepare, valid, bind, Except.bind, resource]
      rfl
    refine ⟨.transcriptFault fault, ?_, fun _ _ => rfl⟩
    rw [runReplay, prepared]
    simp only [finish, stops]
    rfl

end CommandLine

namespace Transcript

variable (a : Attempt)

theorem feedAll_start {content : List UInt8} {said : List (Option Entry)}
    (tells : List.Forall₂ Says (lines content) said) (clock : Nat → Instant) :
    (Replay.start a).feedAll clock (lines content) =
      ⟨a.after (history clock said), (lines content).length,
        .ofNat (a.refusals (history clock said)), none⟩ := by
  refine (Replay.feedAll_eq clock rfl tells).trans ?_
  simp only [Replay.start, Nat.zero_add, Count.zero_add, history]

/-- A replay of a transcript all of whose lines are blank or entries is the run of the entries, with
the number of messages of the source that are refused, and the layout of the transcript plays no
part in it. A replay of any other transcript stops at the first line that is neither, whose number
it names; only the entries before it have been taken in, and the command prints and writes
nothing. -/
theorem replay_eq_run (content : List UInt8) :
    (∀ said, List.Forall₂ Says (lines content) said →
      (∀ clock, (Replay.start a).feedAll clock (lines content) =
        ⟨a.after (history clock said), (lines content).length,
          .ofNat (a.refusals (history clock said)), none⟩) ∧
      ∀ changed, Relation.EqvGen Relayout content changed →
        ∃ told, List.Forall₂ Says (lines changed) told ∧
          told.reduceOption = said.reduceOption ∧
          ∀ clock other,
            (history other told).map Prod.fst = (history clock said).map Prod.fst →
            let r := (Replay.start a).feedAll clock (lines content)
            let r' := (Replay.start a).feedAll other (lines changed)
            r'.fault = none ∧ r'.attempt = r.attempt ∧ r'.rejected = r.rejected) ∧
    (∀ front bad rest said fault, lines content = front ++ bad :: rest →
      List.Forall₂ Says front said → Blames (front.length + 1) bad fault →
      (fault.message = "Failed to read transcript line " ++ (front.length + 1).repr ∨
        fault.message = "Invalid transcript line " ++ (front.length + 1).repr) ∧
      (∀ clock,
        let r := (Replay.start a).feedAll clock (lines content)
        r.fault = some fault ∧ r.attempt = a.after (history clock said)) ∧
      ∀ (w : CommandLine.World) clock options,
        w.resource options.transcript = .file ⟨content.toArray⟩ →
        ∃ error, CommandLine.runReplay w clock options = ⟨1, "", [], some error⟩ ∧
          ∀ s, CommandLine.settings w options.config = .ok s → error = .transcriptFault fault) ∧
    ((∃ said, List.Forall₂ Says (lines content) said) ∨
      ∃ front bad rest said fault, lines content = front ++ bad :: rest ∧
        List.Forall₂ Says front said ∧ Blames (front.length + 1) bad fault) := by
  refine ⟨fun said tells => ⟨feedAll_start a tells, fun changed layout => ?_⟩, ?_,
    tells_or_blames (lines content)⟩
  · obtain ⟨told, others, entries⟩ :=
      (sameSaid_of_eqvGen layout said.reduceOption).1 ⟨said, tells, rfl⟩
    refine ⟨told, others, entries, fun clock other times => ?_⟩
    rw [feedAll_start a tells, feedAll_start a others, history_eq entries times]
    exact ⟨rfl, rfl, rfl⟩
  · intro front bad rest said fault split tells blames
    have stops : ∀ (a : Attempt) clock,
        ((Replay.start a).feedAll clock (lines content)).fault = some fault ∧
          ((Replay.start a).feedAll clock (lines content)).attempt =
            a.after (history clock said) := by
      intro a clock
      rw [split, Replay.feedAll_eq_of_blames clock rfl tells
        (by rw [Replay.start, Nat.zero_add]; exact blames)]
      exact ⟨rfl, rfl⟩
    refine ⟨blames.message, stops a, fun w clock options resource => ?_⟩
    exact CommandLine.runReplay_eq_failure w clock options resource fun a => (stops a clock).1

/-- A blank line, an acknowledgement and a line that is neither. -/
theorem replay_eq_run_of_third_line :
    let returned := "\x7b\"origin\":\"destination\",\"message\":\x7b\"type\":\"checkpoint\"," ++
      "\"body\":\x7b\"kind\":\"global\",\"data\":1\x7d\x7d\x7d"
    let content := [32, 13, 10] ++ bytes returned ++ [10, 63]
    let r := (Replay.start (.ofSettings ⟨80, true, false⟩)).feedAll (fun _ => 0) (lines content)
    r.fault = some (.invalid 3 .malformed) ∧ r.attempt.destinationCheckpoints = 1 := by
  intro returned content r
  have split : lines content = [[32], bytes returned] ++ [63] :: [] := by decide +kernel
  obtain ⟨c, entry⟩ : ∃ c, Entry.codec.ofText returned = .ok ⟨.destination, .checkpoint c⟩ := by
    have sent : ((Entry.codec.ofText returned).toOption.bind Entry.acknowledgement?).isSome := by
      decide +kernel
    cases read : Entry.codec.ofText returned with
    | error cause =>
      rw [read] at sent
      cases sent
    | ok e =>
      rw [read] at sent
      obtain ⟨c, sent⟩ := Option.isSome_iff_exists.1 sent
      exact ⟨c, congrArg Except.ok (Entry.eq_of_acknowledgement? sent)⟩
  have unread : Entry.codec.ofText "?" = .error .malformed := by
    have bad : ((Entry.codec.ofText "?").map fun _ => ()) = .error .malformed := by decide +kernel
    cases read : Entry.codec.ofText "?" with
    | error cause =>
      rw [read] at bad
      cases bad
      rfl
    | ok e =>
      rw [read] at bad
      cases bad
  have blank : Says [32] none :=
    @Says.blank [32] " " ((fromUTF8?_eq_some_iff [32] " ").2 rfl) (by decide)
  have told : Says (bytes returned) (some ⟨.destination, .checkpoint c⟩) :=
    .entry ((fromUTF8?_eq_some_iff (bytes returned) returned).2 rfl) (by decide) entry
  have blames : Blames 3 [63] (.invalid 3 .malformed) :=
    .invalid ((fromUTF8?_eq_some_iff [63] "?").2 rfl) (by decide) unread
  obtain ⟨-, stops, -⟩ := (replay_eq_run (.ofSettings ⟨80, true, false⟩) content).2.1 _ _ _ _ _
    split (.cons blank (.cons told .nil)) blames
  obtain ⟨fault, attempt⟩ := stops fun _ => 0
  refine ⟨fault, ?_⟩
  rw [attempt]
  rfl

end Transcript

end SyncAccounting
