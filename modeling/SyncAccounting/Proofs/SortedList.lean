import Mathlib.Data.List.Induction
import Mathlib.Order.Defs.Unbundled
import SyncAccounting.SortedList
import SyncAccounting.StreamKey

/-!
Streams are in a strict order, and a list that is kept in the order of its keys is a map: a value
that is put under a key is found there, all other keys keep theirs, and no key comes twice.
-/

set_option autoImplicit false

namespace SyncAccounting

namespace StreamKey

theorem lt_iff (a b : StreamKey) :
    a < b ↔ a.name < b.name ∨ a.name = b.name ∧ a.space < b.space := by
  obtain ⟨n, x⟩ := a
  obtain ⟨m, y⟩ := b
  change before ⟨n, x⟩ ⟨m, y⟩ = true ↔ n < m ∨ n = m ∧ x < y
  unfold before
  by_cases same : n = m
  · subst same
    cases x <;> cases y <;> simp
  · simp [same]

private theorem space_irrefl (x : Option String) : ¬x < x := by
  cases x with
  | none => exact Option.not_lt_none
  | some x => exact fun less => String.lt_irrefl x (Option.some_lt_some.1 less)

private theorem space_trans {x y z : Option String} (hxy : x < y) (hyz : y < z) : x < z := by
  cases z with
  | none => exact absurd hyz Option.not_lt_none
  | some z =>
    cases y with
    | none => exact absurd hxy Option.not_lt_none
    | some y =>
      cases x with
      | none => exact Option.none_lt_some
      | some x =>
        rw [Option.some_lt_some] at hxy hyz ⊢
        exact String.lt_trans hxy hyz

private theorem space_eq {x y : Option String} (hxy : ¬x < y) (hyx : ¬y < x) : x = y := by
  cases x with
  | none =>
    cases y with
    | none => rfl
    | some y => exact absurd Option.none_lt_some hxy
  | some x =>
    cases y with
    | none => exact absurd Option.none_lt_some hyx
    | some y =>
      rw [Option.some_lt_some, String.not_lt] at hxy hyx
      exact congrArg some (String.le_antisymm hyx hxy)

instance : IsStrictTotalOrder StreamKey (· < ·) where
  irrefl a h := by
    rcases (lt_iff a a).1 h with name | ⟨-, space⟩
    · exact String.lt_irrefl _ name
    · exact space_irrefl _ space
  trans a b c hab hbc := by
    rw [lt_iff] at hab hbc ⊢
    rcases hab with ab | ⟨ab, spaces⟩ <;> rcases hbc with bc | ⟨bc, more⟩
    · exact .inl (String.lt_trans ab bc)
    · exact .inl (bc ▸ ab)
    · exact .inl (ab ▸ bc)
    · exact .inr ⟨ab.trans bc, space_trans spaces more⟩
  trichotomous a b hab hba := by
    rw [lt_iff, not_or, not_and, String.not_lt] at hab hba
    have name : a.name = b.name := String.le_antisymm hba.1 hab.1
    have space : a.space = b.space := space_eq (hab.2 name) (hba.2 name.symm)
    cases a
    cases b
    cases name
    cases space
    rfl

end StreamKey

namespace SortedList

theorem nodup_of_ascending {κ : Type} [LT κ] [IsStrictTotalOrder κ (· < ·)] {keys : List κ}
    (ascending : keys.Pairwise (· < ·)) : keys.Nodup := by
  refine List.Pairwise.imp ?_ ascending
  rintro a _ less rfl
  exact irrefl_of (· < ·) a less

variable {κ ν μ : Type} [DecidableEq κ]

theorem isSome_find?_iff (key : κ) (l : List (κ × ν)) :
    (find? key l).isSome ↔ key ∈ l.map Prod.fst := by
  induction l with
  | nil => simp [find?]
  | cons e rest ih => by_cases here : key = e.1 <;> simp_all [find?]

theorem find?_of_mem {l : List (κ × ν)} (once : (l.map Prod.fst).Nodup) {e : κ × ν} (he : e ∈ l) :
    find? e.1 l = some e.2 := by
  induction l with
  | nil => simp at he
  | cons f rest ih =>
    obtain ⟨fresh, once⟩ := List.nodup_cons.1 once
    rcases List.mem_cons.1 he with rfl | later
    · simp [find?]
    · have apart : e.1 ≠ f.1 := fun same => fresh (same ▸ List.mem_map_of_mem later)
      simp [find?, apart, ih once later]

theorem find?_map_key (f : κ → ν) (key : κ) (keys : List κ) :
    find? key (keys.map fun k => (k, f k)) = if key ∈ keys then some (f key) else none := by
  induction keys with
  | nil => rfl
  | cons k rest ih =>
    by_cases here : key = k
    · simp [find?, here]
    · simp [find?, here, ih]

theorem find?_map (f : ν → μ) (key : κ) (l : List (κ × ν)) :
    find? key (l.map fun e => (e.1, f e.2)) = (find? key l).map f := by
  induction l with
  | nil => rfl
  | cons e rest ih => by_cases here : key = e.1 <;> simp [find?, here, ih]

variable [LT κ] [DecidableLT κ]

theorem find?_insert (key other : κ) (value : ν) (l : List (κ × ν)) :
    find? other (insert key value l) = if other = key then some value else find? other l := by
  induction l with
  | nil => rfl
  | cons e rest ih =>
    obtain ⟨k, v⟩ := e
    unfold insert
    split
    · rfl
    · split
      · next same =>
        subst same
        by_cases here : other = key <;> simp [find?, here]
      · next apart =>
        by_cases here : other = k
        · subst here
          simp [find?, Ne.symm apart]
        · simp [find?, here, ih]

theorem mem_keys_insert (key : κ) (value : ν) (l : List (κ × ν)) {k : κ}
    (hk : k ∈ (insert key value l).map Prod.fst) : k = key ∨ k ∈ l.map Prod.fst := by
  rw [← isSome_find?_iff, find?_insert] at hk
  by_cases same : k = key
  · exact .inl same
  · rw [if_neg same, isSome_find?_iff] at hk
    exact .inr hk

theorem ascending_insert [IsStrictTotalOrder κ (· < ·)] (key : κ) (value : ν) {l : List (κ × ν)}
    (ascending : (l.map Prod.fst).Pairwise (· < ·)) :
    ((insert key value l).map Prod.fst).Pairwise (· < ·) := by
  induction l with
  | nil => exact List.pairwise_singleton _ _
  | cons e rest ih =>
    obtain ⟨k, v⟩ := e
    obtain ⟨above, sorted⟩ := List.pairwise_cons.1 ascending
    by_cases less : key < k
    · rw [insert, if_pos less]
      refine List.pairwise_cons.2 ⟨fun other ho => ?_, ascending⟩
      rcases List.mem_cons.1 ho with rfl | later
      · exact less
      · exact trans_of (· < ·) less (above other later)
    · by_cases same : key = k
      · rw [insert, if_neg less, if_pos same, same]
        exact ascending
      · have more : k < key := (trichotomous_of (· < ·) k key).resolve_right fun h =>
          h.elim (fun e => same e.symm) less
        rw [insert, if_neg less, if_neg same]
        refine List.pairwise_cons.2 ⟨fun other ho => ?_, ih sorted⟩
        rcases mem_keys_insert key value rest ho with rfl | old
        · exact more
        · exact above other old

theorem mem_of_mem_insert {key : κ} {value : ν} {l : List (κ × ν)} {e : κ × ν}
    (he : e ∈ insert key value l) : e = (key, value) ∨ e ∈ l := by
  induction l with
  | nil => exact .inl (List.mem_singleton.1 he)
  | cons f rest ih =>
    rw [insert] at he
    split at he
    · exact List.mem_cons.1 he
    · split at he
      · exact (List.mem_cons.1 he).imp_right (List.mem_cons_of_mem f)
      · rcases List.mem_cons.1 he with rfl | later
        · exact .inr List.mem_cons_self
        · exact (ih later).imp_right (List.mem_cons_of_mem f)

theorem insert_of_above [IsStrictTotalOrder κ (· < ·)] {key : κ} (value : ν) {l : List (κ × ν)}
    (above : ∀ e ∈ l, e.1 < key) : insert key value l = l ++ [(key, value)] := by
  induction l with
  | nil => rfl
  | cons e rest ih =>
    have less : e.1 < key := above e List.mem_cons_self
    have apart : key ≠ e.1 := by
      rintro rfl
      exact irrefl_of (· < ·) e.1 less
    rw [insert, if_neg (asymm_of (· < ·) less), if_neg apart,
      ih fun f hf => above f (List.mem_cons_of_mem e hf), List.cons_append]

/-- What holds of each list in order holds of the list of some pairs. -/
theorem foldl_insert_induction {motive : List (κ × ν) → Prop} {pairs start : List (κ × ν)}
    (initial : motive start)
    (step : ∀ e ∈ pairs, ∀ l, motive l → motive (insert e.1 e.2 l)) :
    motive (pairs.foldl (fun sorted e => insert e.1 e.2 sorted) start) := by
  induction pairs generalizing start with
  | nil => exact initial
  | cons e rest ih =>
    exact ih (step e List.mem_cons_self start initial)
      fun f hf => step f (List.mem_cons_of_mem e hf)

theorem mem_of_mem_ofList {pairs : List (κ × ν)} {e : κ × ν} (he : e ∈ ofList pairs) :
    e ∈ pairs := by
  refine foldl_insert_induction (motive := fun l => ∀ e ∈ l, e ∈ pairs)
    (fun e mem => absurd mem List.not_mem_nil) ?_ e he
  intro f hf l inside e he
  rcases mem_of_mem_insert he with rfl | old
  · exact hf
  · exact inside e old

theorem ascending_ofList [IsStrictTotalOrder κ (· < ·)] (pairs : List (κ × ν)) :
    ((ofList pairs).map Prod.fst).Pairwise (· < ·) :=
  foldl_insert_induction (motive := fun l => (l.map Prod.fst).Pairwise (· < ·)) .nil
    fun e _ _ ascending => ascending_insert e.1 e.2 ascending

private theorem foldl_insert_of_ascending [IsStrictTotalOrder κ (· < ·)]
    (pairs : List (κ × ν)) (start : List (κ × ν))
    (ascending : ((start ++ pairs).map Prod.fst).Pairwise (· < ·)) :
    pairs.foldl (fun sorted e => insert e.1 e.2 sorted) start = start ++ pairs := by
  induction pairs generalizing start with
  | nil => rw [List.append_nil]; rfl
  | cons e rest ih =>
    have above : ∀ f ∈ start, f.1 < e.1 := by
      intro f hf
      rw [List.map_append, List.pairwise_append] at ascending
      exact ascending.2.2 f.1 (List.mem_map_of_mem hf) e.1 (List.mem_map_of_mem List.mem_cons_self)
    rw [List.append_cons] at ascending ⊢
    rw [List.foldl_cons, insert_of_above e.2 above]
    exact ih (start ++ [e]) ascending

theorem perm_insert {key : κ} (value : ν) {l : List (κ × ν)} (fresh : key ∉ l.map Prod.fst) :
    (insert key value l).Perm ((key, value) :: l) := by
  induction l with
  | nil => exact .refl _
  | cons e rest ih =>
    obtain ⟨apart, fresh⟩ := List.ne_and_not_mem_of_not_mem_cons fresh
    rw [insert, if_neg apart]
    split
    · exact .refl _
    · exact ((ih fresh).cons e).trans (.swap _ _ _)

theorem perm_ofList {pairs : List (κ × ν)} (once : (pairs.map Prod.fst).Nodup) :
    (ofList pairs).Perm pairs := by
  induction pairs using List.reverseRecOn with
  | nil => exact .refl _
  | append_singleton pairs e ih =>
    rw [List.map_append, List.nodup_append] at once
    obtain ⟨earlier, -, apart⟩ := once
    have sorted := ih earlier
    have fresh : e.1 ∉ (ofList pairs).map Prod.fst := fun old =>
      apart e.1 ((sorted.map Prod.fst).mem_iff.1 old) e.1 List.mem_cons_self rfl
    rw [ofList, List.foldl_append]
    exact ((perm_insert e.2 fresh).trans (sorted.cons e)).trans
      (List.perm_append_singleton e pairs).symm

/-- The order of pairs is of no meaning, where no key comes twice. -/
theorem ofList_eq_of_perm [IsStrictTotalOrder κ (· < ·)] {pairs others : List (κ × ν)}
    (order : pairs.Perm others) (once : (pairs.map Prod.fst).Nodup) :
    ofList pairs = ofList others := by
  have more := (order.map Prod.fst).nodup_iff.1 once
  refine List.Perm.eq_of_pairwise (fun e f _ _ less greater => ?_)
    (List.pairwise_map.1 (ascending_ofList pairs)) (List.pairwise_map.1 (ascending_ofList others))
    ((perm_ofList once).trans (order.trans (perm_ofList more).symm))
  exact absurd greater (asymm_of (· < ·) less)

theorem ofList_of_ascending [IsStrictTotalOrder κ (· < ·)] {pairs : List (κ × ν)}
    (ascending : (pairs.map Prod.fst).Pairwise (· < ·)) : ofList pairs = pairs :=
  foldl_insert_of_ascending pairs [] ascending

end SortedList

end SyncAccounting
