import SyncAccounting.Proofs.Attempt.Step
import SyncAccounting.Proofs.SortedList

/-!
The estimates of a run. The first one settles whether they are for single streams or for the whole
sync; of those of its sort, the last one for each stream or for the sync is what is known.
-/

set_option autoImplicit false

namespace SyncAccounting

/-- The stream that an estimate is for; none for the whole sync. -/
def EstimateMessage.scope : EstimateMessage → Option StreamKey
  | .stream key _ => some key
  | .sync _ => none

namespace History

def estimates (h : History) : List EstimateMessage := h.filterMap (·.2.estimate?)

/-- The first estimate is for single streams and this one for the whole sync, or the other way
round. -/
def Rejects (h : History) (e : EstimateMessage) : Prop :=
  ∃ first ∈ h.estimates.head?, first.scope.isSome ≠ e.scope.isSome

instance (h : History) (e : EstimateMessage) : Decidable (h.Rejects e) :=
  Option.decidableExistsMem _

def admitted (h : History) : List EstimateMessage := h.estimates.filter fun e => ¬h.Rejects e

def lastEstimate? (h : History) (scope : Option StreamKey) : Option Estimate :=
  (h.admitted.filter (·.scope = scope)).getLast?.map (·.estimate)

variable (h : History) (i : Instant × Attempt.Input)

private theorem estimates_concat : estimates (h ++ [i]) = h.estimates ++ i.2.estimate?.toList := by
  cases sent : i.2.estimate? <;> simp [estimates, sent]

private theorem admitted_concat :
    admitted (h ++ [i]) = h.admitted ++ i.2.estimate?.toList.filter fun e => ¬h.Rejects e := by
  have longer := estimates_concat h i
  cases known : h.estimates with
  | nil =>
    have noneAdmitted : h.admitted = [] := by rw [admitted, known, List.filter_nil]
    have free (e : EstimateMessage) : ¬h.Rejects e := by
      rintro ⟨first, hfirst, -⟩
      simp [known] at hfirst
    rw [known, List.nil_append] at longer
    rw [noneAdmitted, List.nil_append, admitted, longer]
    cases sent : i.2.estimate? with
    | none => rfl
    | some e =>
      have alone : ¬Rejects (h ++ [i]) e := by
        rintro ⟨first, hfirst, apart⟩
        rw [longer, sent] at hfirst
        cases hfirst
        exact apart rfl
      simp [alone, free]
  | cons f rest =>
    have same (e : EstimateMessage) : Rejects (h ++ [i]) e ↔ h.Rejects e := by
      rw [Rejects, Rejects, longer, known]
      exact Iff.rfl
    rw [admitted, longer, List.filter_append, admitted]
    simp only [same]

variable {h i}

private theorem lastEstimate?_concat_of_none (noEstimate : i.2.estimate? = none)
    (scope : Option StreamKey) :
    lastEstimate? (h ++ [i]) scope = h.lastEstimate? scope := by
  rw [lastEstimate?, admitted_concat, noEstimate, Option.toList_none, List.filter_nil,
    List.append_nil,
    lastEstimate?]

private theorem lastEstimate?_concat_of_rejects {e : EstimateMessage}
    (sent : i.2.estimate? = some e) (rejects : h.Rejects e) (scope : Option StreamKey) :
    lastEstimate? (h ++ [i]) scope = h.lastEstimate? scope := by
  have nothing : [e].filter (fun e => ¬h.Rejects e) = [] := by simp [rejects]
  rw [lastEstimate?, admitted_concat, sent, Option.toList_some, nothing, List.append_nil,
    lastEstimate?]

private theorem lastEstimate?_concat_of_not_rejects {e : EstimateMessage}
    (sent : i.2.estimate? = some e) (taken : ¬h.Rejects e) (scope : Option StreamKey) :
    lastEstimate? (h ++ [i]) scope =
      if scope = e.scope then some e.estimate else h.lastEstimate? scope := by
  have new : [e].filter (fun e => ¬h.Rejects e) = [e] := by simp [taken]
  rw [lastEstimate?, admitted_concat, sent, Option.toList_some, new, List.filter_append]
  by_cases same : scope = e.scope
  · subst same
    simp
  · simp [same, Ne.symm same, lastEstimate?]

end History

namespace Estimates

def ofStreams? : Estimates → Option Bool
  | unset => none
  | perStream _ => some true
  | sync _ => some false

def known? (known : Estimates) : Option StreamKey → Option Estimate
  | some key => known.stream? key
  | none =>
    match known with
    | sync estimate => some estimate
    | unset | perStream _ => none

theorem total_eq_sum {known : Estimates} (unsettled : known.known? none = none) :
    known.total = ⟨Count.sum ((known.streams.map Prod.snd).map (·.bytes)),
      Count.sum ((known.streams.map Prod.snd).map (·.records))⟩ := by
  cases known with
  | unset => rfl
  | sync estimate => cases unsettled
  | perStream streams =>
    rw [List.map_map, List.map_map]
    rfl

structure Takes (known : Estimates) (e : EstimateMessage) (next : Estimates) : Prop where
  sort : ∀ sort ∈ known.ofStreams?, sort = e.scope.isSome
  settled : next.ofStreams? = some e.scope.isSome
  ascending : (known.streams.map Prod.fst).Pairwise (· < ·) →
    (next.streams.map Prod.fst).Pairwise (· < ·)
  latest : ∀ scope, next.known? scope =
    if scope = e.scope then some e.estimate else known.known? scope

private theorem takes_stream_unset (key : StreamKey) (estimate : Estimate) :
    unset.Takes (.stream key estimate) (perStream [(key, estimate)]) where
  sort := by simp [ofStreams?]
  settled := rfl
  ascending _ := List.pairwise_singleton _ _
  latest scope := by
    cases scope <;> simp [known?, stream?, streams, SortedList.find?, EstimateMessage.scope,
      EstimateMessage.estimate]

private theorem takes_stream (streams : List (StreamKey × Estimate)) (key : StreamKey)
    (estimate : Estimate) :
    (perStream streams).Takes (.stream key estimate)
      (perStream (SortedList.insert key estimate streams)) where
  sort := by simp [ofStreams?, EstimateMessage.scope]
  settled := rfl
  ascending := SortedList.ascending_insert key estimate
  latest scope := by
    cases scope with
    | none => rfl
    | some other =>
      have found := SortedList.find?_insert key other estimate streams
      simpa [known?, stream?, Estimates.streams, EstimateMessage.scope, EstimateMessage.estimate]
        using found

private theorem takes_sync {known : Estimates} (sort : ∀ sort ∈ known.ofStreams?, sort = false)
    (estimate : Estimate) : known.Takes (.sync estimate) (sync estimate) where
  sort := sort
  settled := rfl
  ascending _ := List.Pairwise.nil
  latest scope := by
    cases scope with
    | none => rfl
    | some key =>
      cases known with
      | unset => rfl
      | sync old => rfl
      | perStream streams => cases sort true rfl

/-- An estimate of the sort that is settled, or the first one, is taken; any other one is a breach
of the contract. -/
theorem apply_cases (known : Estimates) (e : EstimateMessage) :
    (∃ next, known.apply e = .ok next ∧ known.Takes e next) ∨
      ∃ detail, known.apply e = .error (.contract detail) ∧
        ∃ sort ∈ known.ofStreams?, sort ≠ e.scope.isSome := by
  cases e with
  | stream key estimate =>
    cases known with
    | unset => exact .inl ⟨_, rfl, takes_stream_unset key estimate⟩
    | perStream streams => exact .inl ⟨_, rfl, takes_stream streams key estimate⟩
    | sync old => exact .inr ⟨_, rfl, false, rfl, Bool.false_ne_true⟩
  | sync estimate =>
    cases known with
    | unset => exact .inl ⟨_, rfl, takes_sync (by simp [ofStreams?]) estimate⟩
    | sync old => exact .inl ⟨_, rfl, takes_sync (by simp [ofStreams?]) estimate⟩
    | perStream streams => exact .inr ⟨_, rfl, true, rfl, Bool.true_eq_false.mp⟩

structure Reflects (known : Estimates) (h : History) : Prop where
  settled : known.ofStreams? = h.estimates.head?.map (·.scope.isSome)
  ascending : (known.streams.map Prod.fst).Pairwise (· < ·)
  latest : ∀ scope, known.known? scope = h.lastEstimate? scope

private theorem reflects_unset : unset.Reflects [] where
  settled := rfl
  ascending := List.Pairwise.nil
  latest scope := by cases scope <;> rfl

namespace Reflects

variable {known next : Estimates} {h : History} {i : Instant × Attempt.Input}

theorem rejects_iff (reflects : known.Reflects h) (e : EstimateMessage) :
    h.Rejects e ↔ ∃ sort ∈ known.ofStreams?, sort ≠ e.scope.isSome := by
  rw [reflects.settled, History.Rejects]
  cases h.estimates.head? <;> simp

private theorem idle (reflects : known.Reflects h) (noEstimate : i.2.estimate? = none) :
    known.Reflects (h ++ [i]) where
  settled := by
    rw [History.estimates_concat, noEstimate, Option.toList_none, List.append_nil]
    exact reflects.settled
  ascending := reflects.ascending
  latest scope := by
    rw [History.lastEstimate?_concat_of_none noEstimate]
    exact reflects.latest scope

private theorem refuse (reflects : known.Reflects h) {e : EstimateMessage}
    (sent : i.2.estimate? = some e) (rejects : h.Rejects e) : known.Reflects (h ++ [i]) where
  settled := by
    obtain ⟨first, hfirst, -⟩ := rejects
    have head := reflects.settled
    rw [History.estimates_concat, List.head?_append]
    rw [hfirst] at head ⊢
    exact head
  ascending := reflects.ascending
  latest scope := by
    rw [History.lastEstimate?_concat_of_rejects sent rejects]
    exact reflects.latest scope

private theorem take (reflects : known.Reflects h) {e : EstimateMessage}
    (sent : i.2.estimate? = some e) (takes : known.Takes e next) : next.Reflects (h ++ [i]) where
  settled := by
    rw [takes.settled, History.estimates_concat, sent, List.head?_append]
    have head := reflects.settled
    cases first : h.estimates.head? with
    | none => rfl
    | some f =>
      rw [first] at head
      have sort := takes.sort f.scope.isSome head
      simp [sort]
  ascending := takes.ascending reflects.ascending
  latest scope := by
    have free : ¬h.Rejects e := by
      rw [reflects.rejects_iff]
      rintro ⟨sort, settled, apart⟩
      exact apart (takes.sort sort settled)
    rw [History.lastEstimate?_concat_of_not_rejects sent free, takes.latest, reflects.latest]

end Reflects

end Estimates

namespace Attempt

variable (settings : Settings) (h : History)

theorem estimates_reflect_run : (run settings h).attempt.estimates.Reflects h := by
  induction h using List.reverseRecOn with
  | nil => exact Estimates.reflects_unset
  | append_singleton h i ih =>
    rw [run_concat, step_attempt]
    cases sent : i.2.estimate? with
    | none => exact ih.idle sent
    | some e =>
      rcases (run settings h).attempt.estimates.apply_cases e with
        ⟨next, applied, takes⟩ | ⟨detail, applied, apart⟩
      · rw [Option.elim_some, applied]
        exact ih.take sent takes
      · rw [Option.elim_some, applied]
        exact ih.refuse sent ((ih.rejects_iff e).2 apart)

end Attempt

end SyncAccounting
