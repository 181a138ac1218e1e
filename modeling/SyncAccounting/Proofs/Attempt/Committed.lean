import SyncAccounting.Attempt.Statistics
import SyncAccounting.Proofs.Attempt.Intake

/-!
What a healthy run has committed, for any number of acknowledgements. Each acknowledgement settles
the next window, until their indices no longer tell them apart.
-/

set_option autoImplicit false

namespace SyncAccounting

/-- How many windows are settled: one for each acknowledgement that has an index of its own. -/
def History.settled (h : History) : Nat := min h.acknowledgements.length Count.limit

namespace Intake.Tells

variable {t : Intake} {h : History}

private theorem covers_iff (tells : t.Tells h) (k : Nat) : t.covers (.ofNat k) ↔ k < h.settled := by
  rw [covers, tells.through, History.acknowledged?, History.settled]
  cases h.acknowledgements.length with
  | zero => simp
  | succ n =>
    rw [Option.any_some, Count.succ_ofNat, decide_eq_true_iff]
    exact Count.ofNat_lt_ofNat_iff k (n + 1)

private theorem settled_le (tells : t.Tells h)
    (known : ∀ through ∈ t.through, through ∈ t.accepted.map Prod.fst) :
    h.settled ≤ h.checkpoints.length := by
  rw [tells.through, tells.accepted, History.acknowledged?, History.snapshots, List.map_map]
    at known
  rw [History.settled]
  cases many : h.acknowledgements.length with
  | zero => omega
  | succ n =>
    rw [many] at known
    obtain ⟨k, hk, same⟩ := List.mem_map.1 (known _ rfl)
    have closed := List.mem_range.1 hk
    have index : min k Count.limit = min n Count.limit := congrArg Count.toNat same
    omega

private theorem filter_range_lt {m n : Nat} (h : m ≤ n) :
    (List.range n).filter (· < m) = List.range m := by
  obtain ⟨rest, rfl⟩ := Nat.exists_eq_add_of_le h
  have first : (List.range m).filter (· < m) = List.range m :=
    List.filter_eq_self.2 fun k hk => by simpa using hk
  have others : ((List.range rest).map (m + ·)).filter (· < m) = [] :=
    List.filter_eq_nil_iff.2 fun k hk => by
      obtain ⟨n, -, rfl⟩ := List.mem_map.1 hk
      simp
  rw [List.range_add, List.filter_append, first, others, List.append_nil]

private theorem settled_eq (tells : t.Tells h) (closed : h.settled ≤ h.checkpoints.length) :
    t.settled = (List.range h.settled).map fun k => (Count.ofNat k, h.snapshot k) := by
  have covered : ((fun e : CheckpointIndex × Snapshot => t.covers e.1) ∘
      fun k => (Count.ofNat k, h.snapshot k)) = fun k => decide (k < h.settled) := by
    funext k
    rw [Bool.eq_iff_iff, decide_eq_true_iff]
    exact tells.covers_iff k
  rw [Intake.settled, tells.accepted, History.snapshots, List.filter_map, covered,
    filter_range_lt closed]

end Intake.Tells

namespace Attempt

variable {settings : Settings} {h : History}

/-- A healthy run has committed the windows that are settled, all of which were closed. -/
theorem committed?_run_eq_folded (enabled : settings.commitTrackingEnabled = true)
    (healthy : (run settings h).attempt.isHealthy = true) :
    h.settled ≤ h.checkpoints.length ∧
      (run settings h).attempt.committed? = some (h.folded h.settled) := by
  obtain ⟨b, ledger, -⟩ := books_run enabled healthy
  obtain ⟨t, keeps, tells⟩ := tells_run enabled ledger
  have closed := tells.settled_le keeps.known
  have committed : b.committed = h.folded h.settled := by
    rw [keeps.committed, TallyRow.addAll_flatMap, tells.settled_eq closed, List.foldl_map]
    rfl
  refine ⟨closed, ?_⟩
  rw [committed?, ledger, ← committed]
  rfl

end Attempt

end SyncAccounting
