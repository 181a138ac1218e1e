import SyncAccounting.Proofs.Ledger.Balance

/-!
The ceiling of a budget. Claims, returns and clearances may come in any order and with any numbers.
What is claimed stays within the limit, so a claim that is granted is added without loss, and the
budget counts as one would with numbers that have no end. A claim is refused where the exact sum
passes the limit, and then nothing is claimed. The peak is the largest claim ever made.
-/

set_option autoImplicit false

namespace SyncAccounting

namespace Budget

inductive Call where
  | reserve (index : CheckpointIndex) (bytes : Count)
  | release (bytes : Count)
  | clear

/-- The bytes that a call claims, whether they are granted or not. -/
def Call.claim? : Call → Option Count
  | reserve _ bytes => some bytes
  | release _ | clear => none

def perform (b : Budget) : Call → Budget × Except Fault Unit
  | .reserve index bytes => b.reserve index bytes
  | .release bytes => (b.release bytes, .ok ())
  | .clear => (b.clear, .ok ())

def performAll (b : Budget) (calls : List Call) : Budget :=
  calls.foldl (fun b c => (b.perform c).1) b

/-- What is claimed after a call, counted with numbers that have no end. -/
def tallied (limit : Count) (held : Nat) : Call → Nat
  | .reserve _ bytes => if limit.toNat < held + bytes.toNat then held else held + bytes.toNat
  | .release bytes => held - bytes.toNat
  | .clear => 0

def talliedAll (limit : Count) (calls : List Call) : Nat := calls.foldl (tallied limit) 0

/-- A budget that holds what exact numbers say it should. -/
structure AccountsFor (b : Budget) (limit : Count) (calls : List Call) : Prop where
  limit_eq : b.limit = limit
  within : b.used ≤ b.limit
  used : b.used.toNat = talliedAll limit calls
  claim_le : ∀ bytes ∈ calls.filterMap Call.claim?, bytes ≤ b.peak
  peak_mem : b.peak ∈ 0 :: calls.filterMap Call.claim?

variable {b : Budget} {limit : Count} {calls : List Call}

private theorem performAll_concat (b : Budget) (calls : List Call) (c : Call) :
    b.performAll (calls ++ [c]) = ((b.performAll calls).perform c).1 := by
  simp only [performAll, List.foldl_append, List.foldl_cons, List.foldl_nil]

private theorem talliedAll_concat (limit : Count) (calls : List Call) (c : Call) :
    talliedAll limit (calls ++ [c]) = tallied limit (talliedAll limit calls) c := by
  simp only [talliedAll, List.foldl_append, List.foldl_cons, List.foldl_nil]

private theorem le_remaining_iff (within : b.used ≤ b.limit) (bytes : Count) :
    bytes ≤ b.remaining ↔ b.used.toNat + bytes.toNat ≤ b.limit.toNat := by
  rw [Count.le_def] at within
  rw [Count.le_def, toNat_remaining]
  omega

private theorem reserve_granted (index : CheckpointIndex) {bytes : Count}
    (room : bytes ≤ b.remaining) :
    b.reserve index bytes =
      ({ b with used := b.used + bytes, peak := max b.peak bytes }, .ok ()) := by
  simp only [reserve, if_pos room]

private theorem reserve_refused (index : CheckpointIndex) {bytes : Count}
    (room : ¬bytes ≤ b.remaining) :
    b.reserve index bytes =
      ({ b with peak := max b.peak bytes },
        .error (.overBudget index bytes b.remaining b.limit)) := by
  simp only [reserve, if_neg room]

namespace AccountsFor

private theorem ofLimit (limit : Count) : (ofLimit limit).AccountsFor limit [] where
  limit_eq := rfl
  within := Nat.zero_le _
  used := rfl
  claim_le := fun _ mem => absurd mem List.not_mem_nil
  peak_mem := List.mem_cons_self

private theorem peak_max (accounts : b.AccountsFor limit calls) (index : CheckpointIndex)
    (bytes : Count) :
    (∀ claim ∈ (calls ++ [Call.reserve index bytes]).filterMap Call.claim?,
      claim ≤ max b.peak bytes) ∧
    max b.peak bytes ∈ 0 :: (calls ++ [Call.reserve index bytes]).filterMap Call.claim? := by
  have claims : (calls ++ [Call.reserve index bytes]).filterMap Call.claim? =
      calls.filterMap Call.claim? ++ [bytes] := List.filterMap_append
  rw [claims]
  constructor
  · intro claim made
    rw [Count.le_def, Count.toNat_max]
    rcases List.mem_append.1 made with earlier | last
    · exact Nat.le_trans (accounts.claim_le claim earlier) (Nat.le_max_left _ _)
    · rw [List.mem_singleton.1 last]
      exact Nat.le_max_right _ _
  · rw [← List.cons_append, List.mem_append]
    by_cases larger : b.peak ≤ bytes
    · have new : max b.peak bytes = bytes := if_pos larger
      rw [new]
      exact .inr (List.mem_singleton_self bytes)
    · have old : max b.peak bytes = b.peak := if_neg larger
      rw [old]
      exact .inl accounts.peak_mem

private theorem unclaimed {d : Budget} {c : Call} (accounts : b.AccountsFor limit calls)
    (noClaim : c.claim? = Option.none) (same : d.limit = b.limit ∧ d.peak = b.peak)
    (fewer : d.used ≤ b.used) (used : d.used.toNat = tallied limit b.used.toNat c) :
    d.AccountsFor limit (calls ++ [c]) := by
  obtain ⟨limits, peaks⟩ := same
  have claims : (calls ++ [c]).filterMap Call.claim? = calls.filterMap Call.claim? := by
    rw [List.filterMap_append, List.filterMap_cons_none noClaim, List.filterMap_nil,
      List.append_nil]
  refine ⟨limits.trans accounts.limit_eq, ?_, ?_, ?_, ?_⟩
  · rw [limits]
    exact Nat.le_trans fewer accounts.within
  · rw [talliedAll_concat, ← accounts.used, used]
  · rw [claims, peaks]
    exact accounts.claim_le
  · rw [claims, peaks]
    exact accounts.peak_mem

private theorem reserve (accounts : b.AccountsFor limit calls) (index : CheckpointIndex)
    (bytes : Count) :
    (b.reserve index bytes).1.AccountsFor limit (calls ++ [.reserve index bytes]) := by
  obtain ⟨claim_le, peak_mem⟩ := accounts.peak_max index bytes
  have limits : b.limit.toNat = limit.toNat := congrArg Count.toNat accounts.limit_eq
  have exact_iff := le_remaining_iff accounts.within bytes
  have after : talliedAll limit (calls ++ [.reserve index bytes]) =
      if limit.toNat < b.used.toNat + bytes.toNat then b.used.toNat
      else b.used.toNat + bytes.toNat := by
    rw [talliedAll_concat, ← accounts.used]
    rfl
  by_cases room : bytes ≤ b.remaining
  · obtain ⟨sum, fits⟩ := toNat_used_add accounts.within room
    have enough : ¬limit.toNat < b.used.toNat + bytes.toNat := by
      have := exact_iff.1 room
      omega
    rw [if_neg enough] at after
    rw [reserve_granted index room]
    exact ⟨accounts.limit_eq, fits, sum.trans after.symm, claim_le, peak_mem⟩
  · have tooMuch : limit.toNat < b.used.toNat + bytes.toNat := by
      have := mt exact_iff.2 room
      omega
    rw [if_pos tooMuch] at after
    rw [reserve_refused index room]
    exact ⟨accounts.limit_eq, accounts.within, after.symm, claim_le, peak_mem⟩

private theorem perform (accounts : b.AccountsFor limit calls) (c : Call) :
    (b.perform c).1.AccountsFor limit (calls ++ [c]) := by
  cases c with
  | reserve index bytes => exact accounts.reserve index bytes
  | release bytes =>
    have used : (b.release bytes).used.toNat = b.used.toNat - bytes.toNat := Count.toNat_sub _ _
    have fewer : (b.release bytes).used ≤ b.used := by
      rw [Count.le_def, used]
      omega
    exact accounts.unclaimed rfl ⟨rfl, rfl⟩ fewer used
  | clear =>
    have fewer : b.clear.used ≤ b.used := Nat.zero_le _
    exact accounts.unclaimed rfl ⟨rfl, rfl⟩ fewer rfl

end AccountsFor

private theorem accountsFor_performAll (limit : Count) (calls : List Call) :
    ((ofLimit limit).performAll calls).AccountsFor limit calls := by
  induction calls using List.reverseRecOn with
  | nil => exact AccountsFor.ofLimit limit
  | append_singleton calls c ih =>
    rw [performAll_concat]
    exact ih.perform c

/-- After any calls what is claimed is what exact numbers give, and within the limit; the peak is
the largest claim made so far, granted or not, and zero before the first. The next claim is refused
where the exact sum is above the limit: then nothing is claimed, and the fault names the bytes, what
remains and the limit. Else the sum is claimed, which is less than the first number past 64 bits. -/
theorem claims_within_limit (limit : Count) (calls : List Call) :
    let b := (ofLimit limit).performAll calls
    b.limit = limit ∧ b.used.toNat = talliedAll limit calls ∧ b.used.toNat ≤ limit.toNat ∧
      (∀ bytes ∈ calls.filterMap Call.claim?, bytes.toNat ≤ b.peak.toNat) ∧
      b.peak ∈ 0 :: calls.filterMap Call.claim? ∧
      ∀ (index : CheckpointIndex) (bytes : Count),
        ((∃ fault, (b.reserve index bytes).2 = .error fault) ↔
          limit.toNat < b.used.toNat + bytes.toNat) ∧
        (limit.toNat < b.used.toNat + bytes.toNat →
          (b.reserve index bytes).1.used = b.used ∧
          ∃ remaining : Count, remaining.toNat = limit.toNat - b.used.toNat ∧
            (b.reserve index bytes).2 = .error (.overBudget index bytes remaining limit)) ∧
        (b.used.toNat + bytes.toNat ≤ limit.toNat →
          b.used.toNat + bytes.toNat < 2 ^ 64 ∧ (b.reserve index bytes).2 = .ok () ∧
          (b.reserve index bytes).1.used.toNat = b.used.toNat + bytes.toNat) := by
  intro b
  have accounts : b.AccountsFor limit calls := accountsFor_performAll limit calls
  have limits := accounts.limit_eq
  have within := accounts.within
  rw [limits, Count.le_def] at within
  refine ⟨limits, accounts.used, within, accounts.claim_le, accounts.peak_mem,
    fun index bytes => ?_⟩
  have exact_iff := le_remaining_iff accounts.within bytes
  rw [limits] at exact_iff
  by_cases room : bytes ≤ b.remaining
  · have enough := exact_iff.1 room
    have sum := (toNat_used_add accounts.within room).1
    have bound := limit.toNat_lt
    rw [reserve_granted index room]
    refine ⟨⟨?_, fun tooMuch => ?_⟩, fun tooMuch => ?_, fun _ => ⟨by omega, rfl, sum⟩⟩
    · rintro ⟨fault, refused⟩
      cases refused
    · omega
    · omega
  · have tooMuch : limit.toNat < b.used.toNat + bytes.toNat := by
      have := mt exact_iff.2 room
      omega
    have left := b.toNat_remaining
    rw [limits] at left
    rw [reserve_refused index room, limits]
    refine ⟨⟨fun _ => tooMuch, fun _ => ⟨_, rfl⟩⟩, fun _ => ⟨rfl, _, left, rfl⟩, fun enough => ?_⟩
    omega

/-- The largest limit is claimed in full, so one more byte is refused; the return of more than is
claimed leaves nothing claimed. -/
theorem claims_within_limit_of_largest :
    let top := Count.ofNat Count.limit
    let b := (ofLimit top).performAll [.reserve 0 top]
    let d := (ofLimit top).performAll [.reserve 0 top, .reserve 1 1, .release 7, .release top]
    b.used.toNat + 1 = 2 ^ 64 ∧ (b.reserve 1 1).2 = .error (.overBudget 1 1 0 top) ∧
      d.used.toNat = 0 ∧ (d.reserve 2 5).1.used.toNat = 5 ∧ d.peak.toNat = Count.limit := by
  intro top b d
  have limit : top.toNat = Count.limit := rfl
  have one : (1 : Count).toNat = 1 := rfl
  have five : (5 : Count).toNat = 5 := rfl
  have full : b.used.toNat = Count.limit := by decide
  have empty : d.used.toNat = 0 := by decide
  obtain ⟨-, -, -, -, -, next⟩ := claims_within_limit top [.reserve 0 top]
  obtain ⟨-, -, -, largest, -, later⟩ :=
    claims_within_limit top [.reserve 0 top, .reserve 1 1, .release 7, .release top]
  have tooMuch : top.toNat < b.used.toNat + (1 : Count).toNat := by omega
  have enough : d.used.toNat + (5 : Count).toNat ≤ top.toNat := by
    rw [empty, five, limit]
    decide
  obtain ⟨remaining, remains, fault⟩ := ((next 1 1).2.1 tooMuch).2
  have nothing : remaining = 0 := by
    apply Count.ext
    rw [remains]
    exact Nat.sub_eq_zero_of_le (Nat.le_of_eq (limit.trans full.symm))
  have sum := ((later 2 5).2.2 enough).2.2
  refine ⟨by rw [full]; decide, ?_, empty, ?_, ?_⟩
  · rw [← nothing]
    exact fault
  · rw [sum, empty, five]
  · exact Nat.le_antisymm d.peak.toNat_le_limit (largest top List.mem_cons_self)

end Budget

end SyncAccounting
