import SyncAccounting.Proofs.Ledger.Balance

/-!
A ledger as an intake of snapshots. An intake has no budget, no rows and no backlog: it knows which
snapshots were accepted, up to which checkpoint they were folded, and the records since the last
checkpoint. What healthy books hold can be read off it, and it refuses exactly the calls that they
refuse.
-/

set_option autoImplicit false

namespace SyncAccounting

structure Intake where
  /-- The accepted snapshots, in the order in which they came. -/
  accepted : List (CheckpointIndex × Snapshot)
  /-- The highest checkpoint whose snapshot was there when it was folded. -/
  through : Option CheckpointIndex
  /-- The records since the last checkpoint, each as a tally of its stream. -/
  recent : List (Nat × Tally)
  deriving DecidableEq

namespace Intake

def empty : Intake := ⟨[], none, []⟩

/-- A fold takes the snapshots below the index after its own. -/
def covers (t : Intake) (index : CheckpointIndex) : Bool := t.through.any (index < ·.succ)

def settled (t : Intake) : List (CheckpointIndex × Snapshot) :=
  t.accepted.filter fun e => t.covers e.1

def waiting (t : Intake) : List (CheckpointIndex × Snapshot) :=
  t.accepted.filter fun e => !t.covers e.1

def claimed (t : Intake) : Nat := Books.costOf t.waiting

def row (t : Intake) : TallyRow := TallyRow.addAll [] t.recent

def snapshot (t : Intake) (fingerprint : Option Fingerprint) : Snapshot :=
  ⟨t.row.nonzero, fingerprint⟩

def refusalOf? (limit : Count) (t : Intake) (index : CheckpointIndex) (s : Snapshot) :
    Option Fault :=
  match (t.accepted.getLast?.map Prod.fst).filter (index ≤ ·) with
  | some last => some (.outOfOrder index last)
  | none =>
    if t.claimed + s.cost.toNat ≤ limit.toNat then none
    else some (.overBudget index s.cost (.ofNat (limit.toNat - t.claimed)) limit)

/-- Why a call is refused, if it is. A fold is refused where its snapshot neither waits nor was
folded before. -/
def refusal? (limit : Count) (t : Intake) : Ledger.Call → Option Fault
  | .checkpoint index fingerprint => t.refusalOf? limit index (t.snapshot fingerprint)
  | .addState index deltas => t.refusalOf? limit index ⟨deltas, none⟩
  | .acknowledge index _ | .commitUpTo index =>
    if index ∈ t.waiting.map Prod.fst ∨ t.through.any (index ≤ ·) then none
    else some (.unknownCheckpoint index)
  | .record _ _ | .markFailed => none

def accept (t : Intake) (index : CheckpointIndex) (s : Snapshot) : Intake :=
  { t with accepted := t.accepted ++ [(index, s)] }

def fold (t : Intake) (index : CheckpointIndex) : Intake :=
  if index ∈ t.waiting.map Prod.fst then
    { t with through := some (t.through.elim index (max index)) }
  else t

/-- The intake after a call that is not refused; none where nothing is known any more. -/
def after (t : Intake) : Ledger.Call → Option Intake
  | .record stream bytes => some { t with recent := t.recent ++ [(stream, .single bytes)] }
  | .checkpoint index fingerprint =>
    some { t.accept index (t.snapshot fingerprint) with recent := [] }
  | .addState index deltas => some (t.accept index ⟨deltas, none⟩)
  | .acknowledge index _ | .commitUpTo index => some (t.fold index)
  | .markFailed => none

def perform (limit : Count) (t : Intake) (c : Ledger.Call) : Option Intake × Except Fault Unit :=
  match t.refusal? limit c with
  | some fault => (none, .error fault)
  | none => (t.after c, .ok ())

def performAll (limit : Count) (calls : List Ledger.Call) : Option Intake :=
  calls.foldl (fun t c => t.bind fun t => (t.perform limit c).1) (some .empty)

theorem performAll_concat (limit : Count) (calls : List Ledger.Call) (c : Ledger.Call) :
    performAll limit (calls ++ [c]) =
      (performAll limit calls).bind fun t => (t.perform limit c).1 := by
  rw [performAll, List.foldl_append]
  rfl

variable {t : Intake} {index : CheckpointIndex}

private theorem waiting_accept (fresh : t.covers index = false) (s : Snapshot) :
    (t.accept index s).waiting = t.waiting ++ [(index, s)] := by
  have kept : [(index, s)].filter (fun e => !t.covers e.1) = [(index, s)] :=
    List.filter_cons_of_pos (by simpa using fresh)
  change (t.accepted ++ [(index, s)]).filter (fun e => !t.covers e.1) = _
  rw [List.filter_append, kept]
  rfl

private theorem settled_accept (fresh : t.covers index = false) (s : Snapshot) :
    (t.accept index s).settled = t.settled := by
  have left : [(index, s)].filter (fun e => t.covers e.1) = [] :=
    List.filter_cons_of_neg (by simpa using fresh)
  change (t.accepted ++ [(index, s)]).filter (fun e => t.covers e.1) = _
  rw [List.filter_append, left, List.append_nil]
  rfl

theorem after_of_perform {limit : Count} {t u : Intake} {c : Ledger.Call}
    (performed : (t.perform limit c).1 = some u) : t.after c = some u := by
  rw [perform] at performed
  split at performed
  · cases performed
  · exact performed

end Intake

theorem TallyRow.addAll_flatMap (row : TallyRow) (snapshots : List (CheckpointIndex × Snapshot)) :
    row.addAll (snapshots.flatMap (·.2.deltas)) =
      snapshots.foldl (fun row e => row.addAll e.2.deltas) row :=
  List.foldl_flatMap

namespace Books

structure Keeps (b : Books) (t : Intake) : Prop where
  ascending : t.accepted.Pairwise fun e f => e.1 < f.1
  known : ∀ through ∈ t.through, through ∈ t.accepted.map Prod.fst
  pending : b.pending.toList = t.waiting
  committed : b.committed = TallyRow.addAll [] (t.settled.flatMap (·.2.deltas))
  through : b.committedThrough = t.through
  lastAdded : b.lastAdded = t.accepted.getLast?.map Prod.fst
  current : b.current = t.row
  peak : b.budget.peak = (t.accepted.map fun e => e.2.cost).foldl max 0

theorem keeps_ofLimit (limit : Count) :
    Keeps ⟨.ofLimit limit, [], .empty, [], none, none⟩ .empty where
  ascending := List.Pairwise.nil
  known := by simp [Intake.empty]
  pending := Backlog.toList_empty
  committed := rfl
  through := rfl
  lastAdded := rfl
  current := rfl
  peak := rfl

namespace Keeps

variable {b : Books} {t : Intake}

/-! ### Taking a snapshot in -/

private theorem le_last {index last : CheckpointIndex}
    {l : List (CheckpointIndex × Snapshot)} (ascending : l.Pairwise fun e f => e.1 < f.1)
    (ends : l.getLast?.map Prod.fst = some last) (known : index ∈ l.map Prod.fst) :
    index ≤ last := by
  obtain ⟨e, top, rfl⟩ := Option.map_eq_some_iff.1 ends
  obtain ⟨front, rfl⟩ := List.getLast?_eq_some_iff.1 top
  obtain ⟨f, hf, rfl⟩ := List.mem_map.1 known
  rcases List.mem_append.1 hf with earlier | same
  · have before := (List.pairwise_append.1 ascending).2.2 f earlier e (List.mem_singleton_self e)
    exact Nat.le_of_lt before
  · rw [List.mem_singleton.1 same]
    exact Count.le_refl _

private theorem lt_of_accepts (keeps : b.Keeps t) {index : CheckpointIndex} {s : Snapshot}
    (accepts : b.Accepts index s) : ∀ e ∈ t.accepted, e.1 < index := by
  intro e he
  have known : e.1 ∈ t.accepted.map Prod.fst := List.mem_map_of_mem he
  cases ends : t.accepted.getLast?.map Prod.fst with
  | none =>
    have nothing : t.accepted = [] := by simpa using ends
    rw [nothing] at he
    cases he
  | some last =>
    have order := Option.filter_eq_none_iff.1 accepts.order last (keeps.lastAdded.trans ends)
    have later : ¬index ≤ last := by simpa using order
    have bound := le_last keeps.ascending ends known
    rw [Count.le_def] at later bound
    rw [Count.lt_def]
    omega

private theorem not_covers_of_accepts (keeps : b.Keeps t) {index : CheckpointIndex} {s : Snapshot}
    (accepts : b.Accepts index s) : t.covers index = false := by
  cases folded : t.through with
  | none =>
    rw [Intake.covers, folded]
    rfl
  | some through =>
    -- the highest fold was of an accepted snapshot, so a later one is above it
    obtain ⟨e, he, same⟩ := List.mem_map.1 (keeps.known through folded)
    have later := keeps.lt_of_accepts accepts e he
    have top := index.toNat_le_limit
    rw [same, Count.lt_def] at later
    have after : ¬index < through.succ := by
      rw [Count.lt_def, Count.toNat_succ]
      omega
    rw [Intake.covers, folded]
    exact decide_eq_false after

private theorem push (keeps : b.Keeps t) (balanced : b.Balanced) {index : CheckpointIndex}
    {s : Snapshot} (accepts : b.Accepts index s) : (b.push index s).Keeps (t.accept index s) := by
  have fresh := keeps.not_covers_of_accepts accepts
  constructor
  case ascending =>
    refine List.pairwise_append.2 ⟨keeps.ascending, List.pairwise_singleton _ _, ?_⟩
    intro e he f hf
    rw [List.mem_singleton.1 hf]
    exact keeps.lt_of_accepts accepts e he
  case known =>
    intro through folded
    have earlier := keeps.known through folded
    rw [Intake.accept, List.map_append]
    exact List.mem_append_left _ earlier
  case pending =>
    have longer := balanced.toList_push accepts
    rw [longer, keeps.pending, Intake.waiting_accept fresh]
  case committed =>
    rw [Intake.settled_accept fresh]
    exact keeps.committed
  case through => exact keeps.through
  case lastAdded =>
    rw [Intake.accept, List.getLast?_concat]
    rfl
  case current => exact keeps.current
  case peak =>
    rw [Intake.accept, List.map_append, List.foldl_append, ← keeps.peak]
    rfl

/-! ### Folding -/

private theorem settled_append_waiting (keeps : b.Keeps t) :
    t.settled ++ t.waiting = t.accepted := by
  cases folded : t.through with
  | none => simp [Intake.settled, Intake.waiting, Intake.covers, folded]
  | some through =>
    have parts := Backlog.takeWhile_eq_filter keeps.ascending through.succ
    have settled : t.settled = t.accepted.takeWhile (·.1 < through.succ) := by
      rw [parts.1, Intake.settled]
      simp only [Intake.covers, folded, Option.any_some]
    have waiting : t.waiting = t.accepted.dropWhile (·.1 < through.succ) := by
      rw [parts.2, Intake.waiting]
      simp only [Intake.covers, folded, Option.any_some, decide_not]
    rw [settled, waiting]
    exact List.takeWhile_append_dropWhile

private theorem through_le_of_waiting {index : CheckpointIndex}
    (waits : index ∈ t.waiting.map Prod.fst) :
    ∀ through ∈ t.through, through ≤ index := by
  intro through folded
  obtain ⟨e, he, rfl⟩ := List.mem_map.1 waits
  have above : t.covers e.1 = false := by simpa using (List.mem_filter.1 he).2
  have top := through.toNat_le_limit
  rw [Intake.covers, folded, Option.any_some, decide_eq_false_iff_not, Count.lt_def,
    Count.toNat_succ] at above
  rw [Count.le_def]
  omega

theorem fold_of_waiting {index : CheckpointIndex} (waits : index ∈ t.waiting.map Prod.fst) :
    t.fold index = { t with through := some index } := by
  have bound := through_le_of_waiting waits
  rw [Intake.fold, if_pos waits]
  cases folded : t.through with
  | none => rfl
  | some through =>
    have top : max index through = index := by
      apply Count.ext
      have below := bound through folded
      rw [Count.le_def] at below
      rw [Count.toNat_max]
      omega
    rw [Option.elim_some, top]

private theorem settled_lt {index : CheckpointIndex} (waits : index ∈ t.waiting.map Prod.fst) :
    ∀ e ∈ t.settled, e.1 < index.succ := by
  intro e he
  have covered := (List.mem_filter.1 he).2
  obtain ⟨through, folded, below⟩ := (Option.any_eq_true _ _).1 covered
  have bound := through_le_of_waiting waits through folded
  have lower : e.1 < through.succ := of_decide_eq_true below
  rw [Count.lt_def, Count.toNat_succ] at lower ⊢
  rw [Count.le_def] at bound
  omega

private theorem fold_parts (keeps : b.Keeps t) {index : CheckpointIndex}
    (waits : index ∈ t.waiting.map Prod.fst) :
    (t.fold index).settled = t.settled ++ t.waiting.filter (·.1 < index.succ) ∧
      (t.fold index).waiting = t.waiting.filter fun e => ¬e.1 < index.succ := by
  have parts := keeps.settled_append_waiting
  have below := settled_lt waits
  have all : t.settled.filter (·.1 < index.succ) = t.settled :=
    List.filter_eq_self.2 fun e he => decide_eq_true (below e he)
  have noneLeft : t.settled.filter (fun e => ¬e.1 < index.succ) = [] :=
    List.filter_eq_nil_iff.2 fun e he => by simpa using below e he
  rw [fold_of_waiting waits]
  constructor
  · change t.accepted.filter (·.1 < index.succ) = _
    rw [← parts, List.filter_append, all]
  · have same : ({ t with through := some index } : Intake).waiting =
        t.accepted.filter fun e => ¬e.1 < index.succ := by
      simp only [Intake.waiting, Intake.covers, Option.any_some, decide_not]
    rw [same, ← parts, List.filter_append, noneLeft, List.nil_append]

private theorem settle (keeps : b.Keeps t) {index : CheckpointIndex}
    (waits : index ∈ t.waiting.map Prod.fst) : (b.settle index).Keeps (t.fold index) := by
  obtain ⟨settled, left⟩ := keeps.fold_parts waits
  have folded := fold_of_waiting waits
  have accepted : (t.fold index).accepted = t.accepted := by rw [folded]
  constructor
  case ascending =>
    rw [accepted]
    exact keeps.ascending
  case known =>
    rw [folded]
    rintro through ⟨⟩
    obtain ⟨e, he, rfl⟩ := List.mem_map.1 waits
    exact List.mem_map_of_mem (List.mem_filter.1 he).1
  case pending =>
    rw [left, ← keeps.pending]
    exact Backlog.toList_dropBelow _ _
  case committed =>
    have more := b.committed.addAll_flatMap (t.waiting.filter (·.1 < index.succ))
    rw [committed_settle, covered, Backlog.takeBelow_eq, keeps.pending, List.foldl_map, ← more,
      keeps.committed, settled, List.flatMap_append]
    exact List.foldl_append.symm
  case through =>
    rw [folded]
    rfl
  case lastAdded =>
    rw [lastAdded_settle, accepted]
    exact keeps.lastAdded
  case current =>
    rw [current_settle, folded]
    exact keeps.current
  case peak =>
    rw [peak_settle, accepted]
    exact keeps.peak

theorem claimed_eq (keeps : b.Keeps t) (balanced : b.Balanced) :
    t.claimed = b.budget.used.toNat := by
  rw [balanced.used, keeps.pending]
  rfl

private theorem setCurrent (keeps : b.Keeps t) (recent : List (Nat × Tally)) {row : TallyRow}
    (current : row = TallyRow.addAll [] recent) :
    ({ b with current := row } : Books).Keeps { t with recent := recent } :=
  ⟨keeps.ascending, keeps.known, keeps.pending, keeps.committed, keeps.through, keeps.lastAdded,
    current, keeps.peak⟩

end Keeps

end Books

namespace Ledger

/-- A ledger and what is known of it: healthy books keep an intake, and of a ledger that has failed
nothing is known. -/
inductive Mirrors : Ledger → Option Intake → Prop
  | healthy {b : Books} {t : Intake} (keeps : b.Keeps t) : Mirrors (.healthy b) (some t)
  | failed (budget : Budget) : Mirrors (.failed budget) none

variable {b : Books} {t : Intake}

theorem Mirrors.isHealthy_eq {l : Ledger} {t : Option Intake} (mirrors : l.Mirrors t) :
    l.isHealthy = t.isSome := by
  cases mirrors with
  | healthy keeps => rfl
  | failed budget => rfl

private theorem insert_refused (keeps : b.Keeps t) (balanced : b.Balanced) {index : CheckpointIndex}
    {s : Snapshot} {fault : Fault} (refused : t.refusalOf? b.budget.limit index s = some fault) :
    ∃ g, insert b index s = (.failed (Budget.clear g), .error fault) := by
  rw [Intake.refusalOf?, ← keeps.lastAdded] at refused
  cases order : b.lastAdded.filter (index ≤ ·) with
  | some last =>
    rw [order] at refused
    cases refused
    exact ⟨_, insert_outOfOrder s order⟩
  | none =>
    rw [order] at refused
    have claimed := keeps.claimed_eq balanced
    have remaining := b.budget.toNat_remaining
    have fits : b.budget.used.toNat ≤ b.budget.limit.toNat := balanced.fits
    by_cases enough : t.claimed + s.cost.toNat ≤ b.budget.limit.toNat
    · rw [if_pos enough] at refused
      cases refused
    · have left : Count.ofNat (b.budget.limit.toNat - t.claimed) = b.budget.remaining := by
        rw [claimed, ← remaining, Count.ofNat_toNat]
      rw [if_neg enough, left] at refused
      cases refused
      refine ⟨_, insert_overBudget order fun room => enough ?_⟩
      rw [Count.le_def] at room
      omega

private theorem accepts_of_not_refused (keeps : b.Keeps t) (balanced : b.Balanced)
    {index : CheckpointIndex} {s : Snapshot}
    (taken : t.refusalOf? b.budget.limit index s = none) : b.Accepts index s := by
  have claimed := keeps.claimed_eq balanced
  have remaining := b.budget.toNat_remaining
  have fits : b.budget.used.toNat ≤ b.budget.limit.toNat := balanced.fits
  rw [Intake.refusalOf?, ← keeps.lastAdded] at taken
  cases order : b.lastAdded.filter (index ≤ ·) with
  | some last =>
    rw [order] at taken
    cases taken
  | none =>
    refine ⟨order, ?_⟩
    rw [order] at taken
    by_cases enough : t.claimed + s.cost.toNat ≤ b.budget.limit.toNat
    · rw [Count.le_def]
      omega
    · rw [if_neg enough] at taken
      cases taken

structure Agrees (o : Outcome) (p : Option Intake × Except Fault Unit) : Prop where
  mirrors : o.1.Mirrors p.1
  result : o.2 = p.2

private theorem agrees_insert (keeps : b.Keeps t) (balanced : b.Balanced)
    (index : CheckpointIndex) (s : Snapshot) :
    Agrees (insert b index s) (match t.refusalOf? b.budget.limit index s with
      | some fault => (none, .error fault)
      | none => (some (t.accept index s), .ok ())) := by
  cases refused : t.refusalOf? b.budget.limit index s with
  | some fault =>
    obtain ⟨g, ends⟩ := insert_refused keeps balanced refused
    rw [ends]
    exact ⟨.failed _, rfl⟩
  | none =>
    have accepts := accepts_of_not_refused keeps balanced refused
    rw [insert_accepted accepts]
    exact ⟨.healthy (keeps.push balanced accepts), rfl⟩

private theorem agrees_commitUpTo (keeps : b.Keeps t) (index : CheckpointIndex) :
    Agrees (commitUpTo (.healthy b) index)
      (if index ∈ t.waiting.map Prod.fst ∨ t.through.any (index ≤ ·) then
        (some (t.fold index), .ok ())
      else (none, .error (.unknownCheckpoint index))) := by
  have waits : (b.pending.find? index).isSome ↔ index ∈ t.waiting.map Prod.fst := by
    rw [Backlog.isSome_find?_iff, keeps.pending]
  by_cases pending : index ∈ t.waiting.map Prod.fst
  · rw [if_pos (.inl pending), commitUpTo_pending (waits.2 pending)]
    exact ⟨.healthy (keeps.settle pending), rfl⟩
  · have gone := mt waits.1 pending
    by_cases folded : b.committedThrough.any (index ≤ ·)
    · have same : t.fold index = t := if_neg pending
      rw [if_pos (.inr (keeps.through ▸ folded)), commitUpTo_folded gone folded, same]
      exact ⟨.healthy keeps, rfl⟩
    · have unknown : ¬(index ∈ t.waiting.map Prod.fst ∨ t.through.any (index ≤ ·)) := by
        rw [← keeps.through]
        exact not_or.2 ⟨pending, folded⟩
      rw [if_neg unknown, commitUpTo_unknown gone folded]
      exact ⟨.failed _, rfl⟩

theorem agrees_perform (keeps : b.Keeps t) (balanced : b.Balanced) (c : Call) :
    Agrees ((healthy b).perform c) (t.perform b.budget.limit c) := by
  have folds (index : CheckpointIndex) :
      Agrees (commitUpTo (.healthy b) index) (t.perform b.budget.limit (.commitUpTo index)) := by
    have agrees := agrees_commitUpTo keeps index
    rw [Intake.perform, Intake.refusal?]
    split at agrees
    · next known => rwa [if_pos known]
    · next unknown => rwa [if_neg unknown]
  cases c with
  | record stream bytes =>
    refine ⟨.healthy (keeps.setCurrent _ ?_), rfl⟩
    rw [keeps.current, Intake.row, TallyRow.addAll, TallyRow.addAll, List.foldl_append]
    rfl
  | checkpoint index fingerprint =>
    -- the row is emptied before the snapshot is taken in, and the intake empties it after
    have closed : ({ b with current := [] } : Books).Keeps { t with recent := [] } :=
      keeps.setCurrent [] rfl
    have agrees := agrees_insert closed (balanced.setCurrent []) index (t.snapshot fingerprint)
    have taken : t.snapshot fingerprint = ⟨b.current.nonzero, fingerprint⟩ := by
      rw [Intake.snapshot, keeps.current]
    have after : t.after (.checkpoint index fingerprint) =
        some (({ t with recent := [] } : Intake).accept index (t.snapshot fingerprint)) := rfl
    rw [Intake.perform, Intake.refusal?, after, taken]
    rw [taken] at agrees
    exact agrees
  | addState index deltas => exact agrees_insert keeps balanced index ⟨deltas, none⟩
  | acknowledge index fingerprint => exact folds index
  | commitUpTo index => exact folds index
  | markFailed => exact ⟨.failed _, rfl⟩

theorem keeps_of_perform {d : Books} (keeps : b.Keeps t) (balanced : b.Balanced) {c : Call}
    (ends : ((healthy b).perform c).1 = .healthy d) :
    ∃ u, d.Keeps u ∧ t.refusal? b.budget.limit c = none ∧ t.after c = some u := by
  have mirrors := (agrees_perform keeps balanced c).mirrors
  rw [ends, Intake.perform] at mirrors
  cases refused : t.refusal? b.budget.limit c with
  | some fault =>
    rw [refused] at mirrors
    cases mirrors
  | none =>
    rw [refused] at mirrors
    cases after : t.after c with
    | none =>
      rw [after] at mirrors
      cases mirrors
    | some u =>
      rw [after] at mirrors
      cases mirrors with
      | healthy keeps => exact ⟨u, keeps, rfl, rfl⟩

/-- Whatever the calls are, a ledger mirrors the intake of them. -/
theorem mirrors_performAll (limit : Count) (calls : List Call) :
    ((ofLimit limit).performAll calls).Mirrors (Intake.performAll limit calls) := by
  induction calls using List.reverseRecOn with
  | nil => exact .healthy (Books.keeps_ofLimit limit)
  | append_singleton calls c ih =>
    rw [performAll_concat, Intake.performAll_concat]
    have settled := isSettled_performAll (isSettled_ofLimit limit) calls
    cases before : (ofLimit limit).performAll calls with
    | healthy b =>
      rw [before] at ih
      obtain ⟨balanced, limits⟩ := balanced_performAll before
      cases told : Intake.performAll limit calls with
      | none =>
        rw [told] at ih
        cases ih
      | some t =>
        rw [told] at ih
        cases ih with
        | healthy keeps =>
          have agrees := agrees_perform keeps balanced c
          rw [limits] at agrees
          exact agrees.mirrors
    | failed budget =>
      rw [before] at ih settled
      cases told : Intake.performAll limit calls with
      | none =>
        rw [perform_failed settled]
        exact .failed budget
      | some t =>
        rw [told] at ih
        cases ih

theorem keeps_performAll {limit : Count} {calls : List Call}
    (healthy : (ofLimit limit).performAll calls = .healthy b) :
    ∃ t, Intake.performAll limit calls = some t ∧ b.Keeps t := by
  have mirrors := mirrors_performAll limit calls
  rw [healthy] at mirrors
  cases told : Intake.performAll limit calls with
  | none =>
    rw [told] at mirrors
    cases mirrors
  | some t =>
    rw [told] at mirrors
    cases mirrors with
    | healthy keeps => exact ⟨t, rfl, keeps⟩

end Ledger

end SyncAccounting
