import SyncAccounting.Count

/-!
What waits for an acknowledgement, by the index of its checkpoint. Entries nearly always come with
the highest index, and the lowest leave first; so they are held in two lists, and either end is at
hand. The view of a backlog is `toList`, one ascending list, and each operation has one equation
through it: insertion puts an entry between the lower and the higher ones, a cut takes the entries
below an index, and lookup is that of the list.
-/

set_option autoImplicit false

namespace SyncAccounting

structure Backlog (ν : Type) where
  /-- The lower entries, the lowest first. -/
  early : List (CheckpointIndex × ν)
  /-- The higher entries, the highest first. -/
  late : List (CheckpointIndex × ν)
  size : Nat
  sorted : (early ++ late.reverse).Pairwise fun a b => a.1 < b.1
  size_eq : size = (early ++ late.reverse).length
  deriving DecidableEq

namespace Backlog

variable {ν : Type}

def empty : Backlog ν := ⟨[], [], 0, .nil, rfl⟩

def toList (w : Backlog ν) : List (CheckpointIndex × ν) := w.early ++ w.late.reverse

def highest? (w : Backlog ν) : Option CheckpointIndex :=
  match w.late with
  | e :: _ => some e.1
  | [] => w.early.getLast?.map Prod.fst

def find? (w : Backlog ν) (index : CheckpointIndex) : Option ν :=
  match w.early.find? (·.1 = index) with
  | some e => some e.2
  | none => (w.late.reverse.find? (·.1 = index)).map Prod.snd

def takeBelow (w : Backlog ν) (index : CheckpointIndex) : List (CheckpointIndex × ν) :=
  match w.early.dropWhile (·.1 < index) with
  | [] => w.early ++ w.late.reverse.takeWhile (·.1 < index)
  | _ :: _ => w.early.takeWhile (·.1 < index)

/-- The two lists of a backlog without the entries below an index. -/
def cut (index : CheckpointIndex) (early late : List (CheckpointIndex × ν)) :
    List (CheckpointIndex × ν) × List (CheckpointIndex × ν) :=
  match early.dropWhile (·.1 < index) with
  | [] => (late.reverse.dropWhile (·.1 < index), [])
  | e :: rest => (e :: rest, late)

/-! ### The laws behind the proof fields -/

theorem lt_of_getLast {l : List (CheckpointIndex × ν)} (hl : l.Pairwise fun a b => a.1 < b.1)
    {index : CheckpointIndex} (h : ∀ e ∈ l.getLast?, e.1 < index) : ∀ e ∈ l, e.1 < index := by
  intro e he
  obtain ⟨last, hlast⟩ : ∃ a, l.getLast? = some a := by
    cases hl : l.getLast? with
    | none => simp_all
    | some a => exact ⟨a, rfl⟩
  obtain ⟨front, rfl⟩ := List.getLast?_eq_some_iff.1 hlast
  have hlt := h last hlast
  rcases List.mem_append.1 he with hf | hf
  · exact Count.lt_trans ((List.pairwise_append.1 hl).2.2 e hf last (by simp)) hlt
  · rw [List.mem_singleton.1 hf]
    exact hlt

theorem getLast?_toList (w : Backlog ν) : w.toList.getLast?.map Prod.fst = w.highest? := by
  unfold toList highest?
  cases w.late <;> simp

theorem lt_of_highest (w : Backlog ν) {index : CheckpointIndex} (h : w.highest?.all (· < index)) :
    ∀ e ∈ w.toList, e.1 < index := by
  refine lt_of_getLast w.sorted fun e he => ?_
  rw [← getLast?_toList] at h
  rw [show w.toList.getLast? = some e from he] at h
  simpa using h

theorem cut_append (index : CheckpointIndex) (early late : List (CheckpointIndex × ν)) :
    (cut index early late).1 ++ (cut index early late).2.reverse =
      (early ++ late.reverse).dropWhile (·.1 < index) := by
  rw [List.dropWhile_append, cut]
  cases early.dropWhile (·.1 < index) with
  | nil => exact List.append_nil _
  | cons e rest => rfl

theorem takeBelow_eq_takeWhile (w : Backlog ν) (index : CheckpointIndex) :
    w.takeBelow index = w.toList.takeWhile (·.1 < index) := by
  have split := List.takeWhile_append_dropWhile (p := fun e => decide (e.1 < index)) (l := w.early)
  have sizes := congrArg List.length split
  rw [List.length_append] at sizes
  rw [toList, List.takeWhile_append, takeBelow]
  cases h : w.early.dropWhile (·.1 < index) with
  | nil =>
    rw [h, List.length_nil, Nat.add_zero] at sizes
    rw [if_pos sizes]
  | cons e rest =>
    rw [h, List.length_cons] at sizes
    rw [if_neg (by omega)]

theorem takeWhile_eq_filter {l : List (CheckpointIndex × ν)}
    (hl : l.Pairwise fun a b => a.1 < b.1) (index : CheckpointIndex) :
    l.takeWhile (·.1 < index) = l.filter (·.1 < index) ∧
      l.dropWhile (·.1 < index) = l.filter fun e => ¬e.1 < index := by
  induction l with
  | nil => exact ⟨rfl, rfl⟩
  | cons e rest ih =>
    obtain ⟨he, hrest⟩ := List.pairwise_cons.1 hl
    by_cases h : e.1 < index
    · simp [h, ih hrest]
    · have above : ∀ f ∈ rest, ¬f.1 < index := fun f hf hlt => h (Count.lt_trans (he f hf) hlt)
      have noneEarlier : rest.filter (fun f => decide (f.1 < index)) = [] :=
        List.filter_eq_nil_iff.2 fun f hf => by simpa using above f hf
      have all : rest.filter (fun f => !decide (f.1 < index)) = rest :=
        List.filter_eq_self.2 fun f hf => by simpa using above f hf
      simp [h, noneEarlier, all]

theorem size_eq_length (w : Backlog ν) : w.size = w.toList.length := w.size_eq

def place (l : List (CheckpointIndex × ν)) (index : CheckpointIndex) (v : ν) :
    List (CheckpointIndex × ν) :=
  l.filter (·.1 < index) ++ (index, v) :: l.filter (index < ·.1)

theorem pairwise_place {l : List (CheckpointIndex × ν)} (hl : l.Pairwise fun a b => a.1 < b.1)
    (index : CheckpointIndex) (v : ν) : (place l index v).Pairwise fun a b => a.1 < b.1 := by
  refine List.pairwise_append.2 ⟨hl.filter _, List.pairwise_cons.2 ⟨?_, hl.filter _⟩, ?_⟩
  · intro e he
    simpa using (List.mem_filter.1 he).2
  · intro e he f hf
    have below : e.1 < index := by simpa using (List.mem_filter.1 he).2
    rcases List.mem_cons.1 hf with rfl | hf
    · exact below
    · exact Count.lt_trans below (by simpa using (List.mem_filter.1 hf).2)

theorem place_of_lt {l : List (CheckpointIndex × ν)} {index : CheckpointIndex}
    (h : ∀ e ∈ l, e.1 < index) (v : ν) : place l index v = l ++ [(index, v)] := by
  have noneLater : l.filter (fun e => decide (index < e.1)) = [] := by
    refine List.filter_eq_nil_iff.2 fun e he => ?_
    simpa using Count.lt_asymm (h e he)
  rw [place, noneLater, List.filter_eq_self.2 fun e he => by simpa using h e he]

/-! ### Insertion and cut -/

/-- One more entry, which is the highest one unless there is one with its index or a higher one. An
entry with its index makes room for it. -/
def insert (w : Backlog ν) (index : CheckpointIndex) (v : ν) : Backlog ν :=
  if h : w.highest?.all (· < index) then
    { early := w.early
      late := (index, v) :: w.late
      size := w.size + 1
      sorted := by
        have := pairwise_place w.sorted index v
        rw [place_of_lt (l := w.early ++ w.late.reverse) (lt_of_highest w h)] at this
        simpa using this
      size_eq := by simp [w.size_eq, Nat.add_assoc] }
  else
    { early := place w.toList index v
      late := []
      size := (place w.toList index v).length
      sorted := by simpa [toList] using pairwise_place w.sorted index v
      size_eq := by simp }

def dropBelow (w : Backlog ν) (index : CheckpointIndex) : Backlog ν :=
  let lists := cut index w.early w.late
  { early := lists.1
    late := lists.2
    size := w.size - (w.takeBelow index).length
    sorted := by
      rw [cut_append]
      exact w.sorted.sublist (List.dropWhile_sublist _)
    size_eq := by
      rw [cut_append, size_eq_length, takeBelow_eq_takeWhile]
      have := congrArg List.length
        (List.takeWhile_append_dropWhile (p := fun e => decide (e.1 < index)) (l := w.toList))
      simp only [List.length_append] at this
      exact Nat.sub_eq_of_eq_add (by rw [← this, Nat.add_comm]; rfl) }

/-! ### One equation through the view for each operation -/

theorem toList_empty : (empty : Backlog ν).toList = [] := rfl

theorem toList_insert (w : Backlog ν) (index : CheckpointIndex) (v : ν) :
    (w.insert index v).toList = place w.toList index v := by
  unfold insert
  split
  · next h =>
    rw [place_of_lt (lt_of_highest w h)]
    simp [toList]
  · simp [toList]

theorem takeBelow_eq (w : Backlog ν) (index : CheckpointIndex) :
    w.takeBelow index = w.toList.filter (·.1 < index) :=
  (takeBelow_eq_takeWhile w index).trans (takeWhile_eq_filter w.sorted index).1

theorem toList_dropBelow (w : Backlog ν) (index : CheckpointIndex) :
    (w.dropBelow index).toList = w.toList.filter fun e => ¬e.1 < index :=
  (cut_append index w.early w.late).trans (takeWhile_eq_filter w.sorted index).2

theorem find?_eq (w : Backlog ν) (index : CheckpointIndex) :
    w.find? index = (w.toList.find? (·.1 = index)).map Prod.snd := by
  rw [toList, List.find?_append]
  unfold find?
  cases w.early.find? (·.1 = index) <;> rfl

end Backlog

end SyncAccounting
