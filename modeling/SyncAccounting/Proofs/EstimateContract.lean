import SyncAccounting.Attempt.Statistics
import SyncAccounting.Proofs.Attempt.Estimates
import SyncAccounting.Proofs.Noninterference
import SyncAccounting.Proofs.Saturation

/-!
The contract for estimates. An estimate of another sort than the first one is refused and leaves no
trace, so a run goes as if it had not been sent; what is reported in the end depends on the last
estimate for each stream, or for the sync, and on nothing else.
-/

set_option autoImplicit false

namespace SyncAccounting

namespace Estimates

variable {known : Estimates} {h : History}

private theorem perm_filterMap_known? (ascending : (known.streams.map Prod.fst).Pairwise (· < ·))
    {keys : List StreamKey} (once : keys.Nodup)
    (all : ∀ key, key ∈ keys ↔ (known.known? (some key)).isSome) :
    (known.streams.map Prod.snd).Perm (keys.filterMap fun key => known.known? (some key)) := by
  have distinct := SortedList.nodup_of_ascending ascending
  have same : (known.streams.map Prod.fst).Perm keys := by
    refine (List.perm_ext_iff_of_nodup distinct once).2 fun key => ?_
    rw [all, ← SortedList.isSome_find?_iff]
    rfl
  have values : (known.streams.map Prod.fst).filterMap (fun key => known.known? (some key)) =
      known.streams.map Prod.snd := by
    rw [List.filterMap_map, ← List.filterMap_eq_map]
    exact List.filterMap_congr fun e he => SortedList.find?_of_mem distinct he
  rw [← values]
  exact same.filterMap _

end Estimates

namespace Attempt

/-- What is reported of estimates is told by the last one for each stream and for the whole sync: an
estimate for the sync is the total, and otherwise those for the streams add up to it, in whatever
order they are taken. -/
structure ReportsEstimates (a : Attempt) (last? : Option StreamKey → Option Estimate) : Prop where
  stream : ∀ key, a.estimates.stream? key = last? (some key)
  sync : ∀ e ∈ last? none, a.recordsEstimated = e.records ∧ a.bytesEstimated = e.bytes
  sum : last? none = none → ∀ keys : List StreamKey, keys.Nodup →
    (∀ key, key ∈ keys ↔ (last? (some key)).isSome) →
      a.recordsEstimated =
          Count.sum ((keys.filterMap fun key => last? (some key)).map (·.records)) ∧
        a.bytesEstimated = Count.sum ((keys.filterMap fun key => last? (some key)).map (·.bytes))

def exchanges (a : Attempt) : History → List ((Instant × Input) × Except Fault Unit)
  | [] => []
  | i :: rest => (i, (a.step i.1 i.2).answer) :: exchanges (a.step i.1 i.2).attempt rest

/-- The inputs of a run without those that were answered with a fault. -/
def kept (a : Attempt) (h : History) : History :=
  ((a.exchanges h).filter fun x => x.2.isOk).map Prod.fst

variable {a : Attempt}

private theorem reportsEstimates {h : History} (reflects : a.estimates.Reflects h) :
    a.ReportsEstimates h.lastEstimate? := by
  have latest : a.estimates.known? = h.lastEstimate? := funext reflects.latest
  rw [← latest]
  refine ⟨fun key => rfl, fun e he => ?_, fun unsettled keys once all => ?_⟩
  · rw [recordsEstimated, bytesEstimated]
    cases held : a.estimates with
    | unset => rw [held] at he; cases he
    | perStream streams => rw [held] at he; cases he
    | sync estimate =>
      rw [held] at he
      cases he
      exact ⟨rfl, rfl⟩
  · have perm := Estimates.perm_filterMap_known? reflects.ascending once all
    rw [recordsEstimated, bytesEstimated, Estimates.total_eq_sum unsettled]
    exact ⟨Count.sum_perm (perm.map _), Count.sum_perm (perm.map _)⟩

private theorem estimated_eq {b : Attempt} {h g : History} (reflects : a.estimates.Reflects h)
    (other : b.estimates.Reflects g) (same : g.lastEstimate? = h.lastEstimate?) :
    b.recordsEstimated = a.recordsEstimated ∧ b.bytesEstimated = a.bytesEstimated ∧
      ∀ key, b.estimates.stream? key = a.estimates.stream? key := by
  have one := reportsEstimates reflects
  have two := reportsEstimates other
  rw [same] at two
  refine ⟨?_, ?_, fun key => (two.stream key).trans (one.stream key).symm⟩
  all_goals
    cases last : h.lastEstimate? none with
    | some e =>
      obtain ⟨records, bytes⟩ := one.sync e last
      obtain ⟨others, more⟩ := two.sync e last
      simp only [records, bytes, others, more]
    | none =>
      have once := SortedList.nodup_of_ascending reflects.ascending
      have all (key : StreamKey) : key ∈ a.estimates.streams.map Prod.fst ↔
          (h.lastEstimate? (some key)).isSome := by
        rw [← one.stream, Estimates.stream?, SortedList.isSome_find?_iff]
      obtain ⟨records, bytes⟩ := one.sum last _ once all
      obtain ⟨others, more⟩ := two.sum last _ once all
      simp only [records, bytes, others, more]

/-! ### Inputs that are refused -/

private theorem answer_estimate (a : Attempt) (now : Instant) (e : EstimateMessage) :
    (∃ next, a.estimates.apply e = .ok next ∧
        (a.source now (.estimate e)).answer = .ok ()) ∨
      ∃ detail, a.estimates.apply e = .error (.contract detail) ∧
        (a.source now (.estimate e)).answer = .error (.contract detail) ∧
        (a.source now (.estimate e)).attempt = a := by
  rcases a.estimates.apply_cases e with ⟨next, applied, -⟩ | ⟨detail, applied, -⟩
  · refine .inl ⟨next, applied, ?_⟩
    simp only [source, applied]
  · refine .inr ⟨detail, applied, ?_⟩
    simp only [source, applied, and_self]

private theorem refused_of_error (a : Attempt) (now : Instant) (input : Input) {fault : Fault}
    (refused : (a.step now input).answer = .error fault) :
    (∃ e, input = .message .source (.estimate e) ∧ a.estimates.apply e = .error fault) ∧
      (∃ detail, fault = .contract detail) ∧ (a.step now input).attempt = a := by
  rcases input with ⟨side, m⟩ | _
  · cases side <;> cases m
    case source.estimate e =>
      rcases answer_estimate a now e with ⟨next, -, answer⟩ | ⟨detail, applied, answer, same⟩
      · rw [step, answer] at refused
        cases refused
      · rw [step, answer] at refused
        cases refused
        exact ⟨⟨e, rfl, applied⟩, ⟨detail, rfl⟩, same⟩
    all_goals cases refused
  · rw [step, interrupt] at refused
    split at refused <;> cases refused

private theorem step_kept (a : Attempt) (i : Instant × Input) (rest : History) :
    (a.step i.1 i.2).answer = .ok () ∧
        a.kept (i :: rest) = i :: (a.step i.1 i.2).attempt.kept rest ∨
      (a.step i.1 i.2).attempt = a ∧ (a.step i.1 i.2).answer.isOk = false ∧
        a.kept (i :: rest) = a.kept rest := by
  cases answer : (a.step i.1 i.2).answer with
  | ok done =>
    refine .inl ⟨rfl, ?_⟩
    simp [kept, exchanges, answer, Except.isOk, Except.toBool]
  | error fault =>
    obtain ⟨-, -, same⟩ := refused_of_error a i.1 i.2 answer
    refine .inr ⟨same, rfl, ?_⟩
    simp [kept, exchanges, answer, same, Except.isOk, Except.toBool]

/-- Without the inputs that were refused, a run ends in the same state, and all other inputs are
answered as before. -/
private theorem after_kept (a : Attempt) (h : History) :
    a.after (a.kept h) = a.after h ∧
      a.exchanges (a.kept h) = (a.exchanges h).filter fun x => x.2.isOk := by
  induction h generalizing a with
  | nil => exact ⟨rfl, rfl⟩
  | cons i rest ih =>
    obtain ⟨state, answers⟩ := ih (a.step i.1 i.2).attempt
    rcases step_kept a i rest with ⟨answer, keeps⟩ | ⟨same, answer, drops⟩
    · rw [keeps]
      refine ⟨state, ?_⟩
      rw [exchanges, answers, exchanges, List.filter_cons_of_pos (by rw [answer]; rfl)]
    · rw [same] at state answers
      rw [drops]
      constructor
      · rw [state, after, after, List.foldl_cons, same]
      · rw [answers, exchanges, List.filter_cons_of_neg (by simp [answer]), same]

variable (settings : Settings) (h : History)

private theorem error_iff_rejects (now : Instant) (m : Message) :
    (∃ fault, ((run settings h).attempt.source now m).answer = .error fault) ↔
      ∃ e, m = .estimate e ∧ h.Rejects e := by
  have reflects := estimates_reflect_run settings h
  constructor
  · rintro ⟨fault, refused⟩
    obtain ⟨⟨e, input, applied⟩, -⟩ := refused_of_error _ now (.message .source m) refused
    cases input
    refine ⟨e, rfl, (reflects.rejects_iff e).2 ?_⟩
    rcases (run settings h).attempt.estimates.apply_cases e with
      ⟨next, taken, -⟩ | ⟨detail, -, apart⟩
    · rw [taken] at applied
      cases applied
    · exact apart
  · rintro ⟨e, rfl, rejects⟩
    obtain ⟨sort, settled, apart⟩ := (reflects.rejects_iff e).1 rejects
    rcases (run settings h).attempt.estimates.apply_cases e with
      ⟨next, -, takes⟩ | ⟨detail, applied, -⟩
    · exact absurd (takes.sort sort settled) apart
    · exact ⟨.contract detail, by simp only [source, applied]⟩

/-- A message of the source is refused exactly where it is an estimate of another sort than the
first one; the refusal is a breach of the contract and changes nothing, so a run without its refused
inputs ends in the same state with the same answers. What is reported is told by the last estimate
for each stream and for the sync, also where those for different streams came in another order. -/
theorem estimate_contract :
    (∀ (now : Instant) (m : Message),
      (∃ fault, ((run settings h).attempt.source now m).answer = .error fault) ↔
        ∃ e, m = .estimate e ∧ h.Rejects e) ∧
      (∀ (now : Instant) (m : Message) (fault : Fault),
        ((run settings h).attempt.source now m).answer = .error fault →
          (∃ detail, fault = .contract detail) ∧
            ((run settings h).attempt.source now m).attempt = (run settings h).attempt) ∧
      ((run settings ((ofSettings settings).kept h)).attempt = (run settings h).attempt ∧
        (ofSettings settings).exchanges ((ofSettings settings).kept h) =
          ((ofSettings settings).exchanges h).filter fun x => x.2.isOk) ∧
      (run settings h).attempt.ReportsEstimates h.lastEstimate? ∧
      ∀ (other : Settings) (g : History),
        (∀ scope, g.admitted.filter (·.scope = scope) = h.admitted.filter (·.scope = scope)) →
          (run other g).attempt.recordsEstimated = (run settings h).attempt.recordsEstimated ∧
            (run other g).attempt.bytesEstimated = (run settings h).attempt.bytesEstimated ∧
            ∀ key, (run other g).attempt.estimates.stream? key =
              (run settings h).attempt.estimates.stream? key := by
  have reflects := estimates_reflect_run settings h
  refine ⟨error_iff_rejects settings h, fun now m fault refused => ?_, ?_,
    reportsEstimates reflects, fun other g order => ?_⟩
  · exact (refused_of_error _ now (.message .source m) refused).2
  · obtain ⟨state, answers⟩ := after_kept (ofSettings settings) h
    rw [attempt_run, attempt_run]
    exact ⟨state, answers⟩
  · have same : g.lastEstimate? = h.lastEstimate? := by
      funext scope
      rw [History.lastEstimate?, order, History.lastEstimate?]
    exact estimated_eq reflects (estimates_reflect_run other g) same

/-- An estimate for the sync comes after one for a stream; of two streams that share a name, one has
the largest estimate there can be. -/
theorem estimate_contract_of_late_sync :
    let a : StreamKey := ⟨"a", none⟩
    let b : StreamKey := ⟨"a", some "x"⟩
    let most : EstimateMessage := .stream a ⟨18446744073709551615, 2⟩
    let few : EstimateMessage := .stream b ⟨7, 1⟩
    let more : EstimateMessage := .stream b ⟨8, 3⟩
    let late : Message := .estimate (.sync ⟨9, 9⟩)
    let h : History := [(0, .message .source (.estimate few)), (1, .message .source late),
      (2, .message .source (.estimate most)), (3, .message .source (.estimate more))]
    let g : History := [(0, .message .source (.estimate most)),
      (0, .message .source (.estimate few)), (0, .message .source (.estimate more))]
    (∃ fault, ((run .default h).attempt.source 4 late).answer = .error fault) ∧
      ((run .default h).attempt.source 4 late).attempt = (run .default h).attempt ∧
      ((ofSettings .default).kept h).length = 3 ∧
      (run .default ((ofSettings .default).kept h)).attempt = (run .default h).attempt ∧
      (run .default h).attempt.bytesEstimated = 18446744073709551615 ∧
      (run .default h).attempt.recordsEstimated = 5 ∧
      (run .default g).attempt.recordsEstimated = 5 := by
  intro a b most few more late h g
  obtain ⟨refused, unchanged, ⟨kept, -⟩, reports, order⟩ := estimate_contract .default h
  have rejects : h.Rejects (.sync ⟨9, 9⟩) := ⟨few, rfl, by decide⟩
  obtain ⟨fault, answer⟩ := (refused 4 late).2 ⟨_, rfl, rejects⟩
  have admitted : h.admitted = [few, most, more] := by decide
  have others : g.admitted = [most, few, more] := by decide
  have all (key : StreamKey) : key ∈ [b, a] ↔ (h.lastEstimate? (some key)).isSome := by
    rw [History.lastEstimate?, admitted]
    by_cases first : key = a
    · subst first
      decide
    · by_cases second : key = b
      · subst second
        decide
      · simp [most, few, more, EstimateMessage.scope, first, second, Ne.symm first, Ne.symm second]
  obtain ⟨records, bytes⟩ := reports.sum (by decide) [b, a] (by decide) all
  have reordered (scope : Option StreamKey) :
      g.admitted.filter (·.scope = scope) = h.admitted.filter (·.scope = scope) := by
    rw [admitted, others]
    by_cases first : scope = some a
    · subst first
      decide
    · have apart : most.scope ≠ scope := Ne.symm first
      simp [List.filter_cons, apart]
  have same := (order .default g reordered).1
  refine ⟨⟨fault, answer⟩, (unchanged 4 late fault answer).2, by decide, kept, bytes.trans ?_,
    records.trans ?_, same.trans (records.trans ?_)⟩
  · decide
  · decide
  · decide

end Attempt

end SyncAccounting
