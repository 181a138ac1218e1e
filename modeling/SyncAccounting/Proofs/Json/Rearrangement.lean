import Mathlib.Logic.Relation
import SyncAccounting.Proofs.Json.NormalForm

/-!
Trees that differ in what is of no meaning. The members of an object have an order in a text, and an
object that is read as a record may have members that the record does not know. What is known of an
object is said by an outline. Free data are known as a whole: their objects are put into another
order, and their values stay the same if no key comes twice in one object.
-/

set_option autoImplicit false

namespace SyncAccounting.Json

/-- What is known of a tree: an object with members of its own, each under its key, a tag among
these that is kept until it is read, or data with no members of their own. -/
inductive Outline where
  | free
  | tag
  | object (known : List (String × Outline))

def Outline.under (key : String) : Outline → Outline
  | object known => (known.lookup key).getD free
  | _ => free

namespace Tree

/-- One change: the members of one object take another order, or an object with members of its own
gets one more that is not known. -/
inductive Change : Outline → Tree → Tree → Prop where
  | reorder {o : Outline} {members others : List (Option String × Tree)} {closed : Bool}
      (order : members.Perm others) : Change o (object members closed) (object others closed)
  | insert {known : List (String × Outline)} {key : String} {t : Tree}
      {members : List (Option String × Tree)} {closed : Bool} (unknown : known.lookup key = none) :
      Change (.object known) (object members closed) (object ((some key, t) :: members) closed)
  | member {o : Outline} {key : String} {t u : Tree} {rest : List (Option String × Tree)}
      {closed : Bool} (change : Change (o.under key) t u) :
      Change o (object ((some key, t) :: rest) closed) (object ((some key, u) :: rest) closed)
  | item {before after : List Tree} {t u : Tree} {closed : Bool} (change : Change .free t u) :
      Change .free (array (before ++ t :: after) closed) (array (before ++ u :: after) closed)

/-- Any number of changes, one after the other. -/
abbrev Rearranged (o : Outline) : Tree → Tree → Prop := Relation.ReflTransGen (Change o)

mutual

def isDistinct : Tree → Bool
  | array items _ => allDistinct items
  | object members _ => (members.map fun p => p.1.getD "").Nodup && membersDistinct members
  | _ => true

def allDistinct : List Tree → Bool
  | [] => true
  | t :: rest => isDistinct t && allDistinct rest

def membersDistinct : List (Option String × Tree) → Bool
  | [] => true
  | (_, t) :: rest => isDistinct t && membersDistinct rest

end

mutual

/-- There is an object wherever an outline has one, and its free data and tags pass. -/
def fits (free tag : Tree → Bool) : Tree → Outline → Bool
  | t, .free => free t
  | t, .tag => tag t
  | object members _, .object known => membersFit free tag members known
  | _, .object _ => false

def membersFit (free tag : Tree → Bool) :
    List (Option String × Tree) → List (String × Outline) → Bool
  | [], _ => true
  | (key, t) :: rest, known =>
    ((key.bind (known.lookup ·)).all fun o => fits free tag t o) && membersFit free tag rest known

end

/-- A tree in the form of objects, with no key twice in its free data. -/
def isOrderly (o : Outline) (t : Tree) : Bool := t.fits isDistinct (fun _ => true) o

def isName : Tree → Bool
  | string _ => true
  | _ => false

def hasNamedTags (o : Outline) (t : Tree) : Bool := t.fits (fun _ => true) isName o

def keys : Tree → List (Option String)
  | object members _ => members.map Prod.fst
  | _ => []

/-! ### Members one by one -/

private theorem allDistinct_iff {items : List Tree} :
    allDistinct items = true ↔ ∀ t ∈ items, t.isDistinct = true := by
  induction items with
  | nil => simp [allDistinct]
  | cons t rest ih => rw [allDistinct, Bool.and_eq_true, ih, List.forall_mem_cons]

private theorem membersDistinct_iff {members : List (Option String × Tree)} :
    membersDistinct members = true ↔ ∀ p ∈ members, p.2.isDistinct = true := by
  induction members with
  | nil => simp [membersDistinct]
  | cons p rest ih => rw [membersDistinct, Bool.and_eq_true, ih, List.forall_mem_cons]

private theorem isDistinct_object {members : List (Option String × Tree)} {closed : Bool} :
    (object members closed).isDistinct = true ↔
      (members.map fun p => p.1.getD "").Nodup ∧ ∀ p ∈ members, p.2.isDistinct = true := by
  rw [isDistinct, Bool.and_eq_true, decide_eq_true_eq, membersDistinct_iff]

section Fits

variable {free tag : Tree → Bool}

theorem fits_free (t : Tree) : t.fits free tag .free = free t := by
  cases t <;> rfl

theorem fits_tag (t : Tree) : t.fits free tag .tag = tag t := by
  cases t <;> rfl

private theorem membersFit_iff {members : List (Option String × Tree)}
    {known : List (String × Outline)} :
    membersFit free tag members known = true ↔
      ∀ p ∈ members, ∀ o ∈ p.1.bind (known.lookup ·), p.2.fits free tag o = true := by
  induction members with
  | nil => simp [membersFit]
  | cons p rest ih =>
    rw [membersFit, Bool.and_eq_true, Option.all_eq_true, ih, List.forall_mem_cons]
    rfl

theorem fits_object {t : Tree} {known : List (String × Outline)} :
    t.fits free tag (.object known) = true ↔
      ∃ members closed, t = object members closed ∧
        ∀ p ∈ members, ∀ o ∈ p.1.bind (known.lookup ·), p.2.fits free tag o = true := by
  cases t with
  | object members closed =>
    rw [fits, membersFit_iff]
    refine ⟨fun all => ⟨members, closed, rfl, all⟩, fun ⟨_, _, same, all⟩ => ?_⟩
    cases same
    exact all
  | _ => exact ⟨nofun, fun ⟨_, _, same, _⟩ => nomatch same⟩

end Fits

/-! ### Free data -/

private theorem toValues_eq (items : List Tree) : toValues items = items.map toValue := by
  induction items with
  | nil => rfl
  | cons t rest ih => rw [toValues, ih, List.map_cons]

private theorem toMembers_eq (members : List (Option String × Tree)) :
    toMembers members = members.map fun p => (p.1.getD "", p.2.toValue) := by
  induction members with
  | nil => rfl
  | cons p rest ih => rw [toMembers, ih, List.map_cons]

private theorem keys_toMembers (members : List (Option String × Tree)) :
    (toMembers members).map Prod.fst = members.map fun p => p.1.getD "" := by
  rw [toMembers_eq, List.map_map]
  rfl

private theorem toValue_object_of_perm {members others : List (Option String × Tree)}
    {closed : Bool} (order : members.Perm others) (once : (members.map fun p => p.1.getD "").Nodup)
    :
    (object members closed).toValue = (object others closed).toValue := by
  rw [toValue, toValue]
  refine congrArg Value.object (SortedList.ofList_eq_of_perm ?_ ?_)
  · rw [toMembers_eq, toMembers_eq]
    exact order.map _
  · rw [keys_toMembers]
    exact once

/-- Free data keep their value, and no key comes twice after a change if none did before. -/
theorem toValue_of_change {t u : Tree} (change : Change .free t u)
    (distinct : t.isDistinct = true) :
    u.toValue = t.toValue ∧ u.isDistinct = true := by
  generalize free : Outline.free = o at change
  induction change with
  | reorder order =>
    rw [isDistinct_object] at distinct
    obtain ⟨once, inside⟩ := distinct
    refine ⟨(toValue_object_of_perm order once).symm, isDistinct_object.2 ⟨?_, fun p hp => ?_⟩⟩
    · exact (order.map _).nodup_iff.1 once
    · exact inside p (order.mem_iff.2 hp)
  | insert unknown => cases free
  | member change ih =>
    subst free
    rw [isDistinct_object, List.forall_mem_cons] at distinct
    obtain ⟨once, here, others⟩ := distinct
    obtain ⟨same, still⟩ := ih here rfl
    refine ⟨?_, isDistinct_object.2 ⟨once, List.forall_mem_cons.2 ⟨still, others⟩⟩⟩
    rw [toValue, toValue, toMembers, toMembers, same]
  | @item before after t u closed change ih =>
    rw [isDistinct, allDistinct_iff, List.forall_mem_append, List.forall_mem_cons] at distinct
    obtain ⟨earlier, here, later⟩ := distinct
    obtain ⟨same, still⟩ := ih here rfl
    refine ⟨?_, ?_⟩
    · rw [toValue, toValue, toValues_eq, toValues_eq, List.map_append, List.map_append,
        List.map_cons, List.map_cons, same]
    · rw [isDistinct, allDistinct_iff, List.forall_mem_append, List.forall_mem_cons]
      exact ⟨earlier, still, later⟩

/-! ### Words and what is known -/

def IsWord : Tree → Prop
  | array _ _ | object _ _ => False
  | _ => True

theorem not_change_of_isWord {o : Outline} {t u : Tree} (word : t.IsWord) : ¬Change o t u := by
  intro change
  cases change <;> exact word

theorem isOrderly_of_change {o : Outline} {t u : Tree} (orderly : t.isOrderly o = true)
    (change : Change o t u) : u.isOrderly o = true := by
  induction change with
  | @reorder o members others closed order =>
    cases o with
    | free =>
      rw [isOrderly, fits_free] at orderly ⊢
      exact (toValue_of_change (.reorder order) orderly).2
    | tag => rfl
    | object known =>
      obtain ⟨_, _, same, inside⟩ := fits_object.1 orderly
      cases same
      exact fits_object.2 ⟨_, _, rfl, fun p hp => inside p (order.mem_iff.2 hp)⟩
  | @insert known key t members closed unknown =>
    obtain ⟨_, _, same, inside⟩ := fits_object.1 orderly
    cases same
    refine fits_object.2 ⟨_, _, rfl, List.forall_mem_cons.2 ⟨fun o found => ?_, inside⟩⟩
    have listed : known.lookup key = some o := found
    rw [unknown] at listed
    cases listed
  | @member o key t u rest closed change ih =>
    cases o with
    | free =>
      rw [isOrderly, fits_free] at orderly ⊢
      exact (toValue_of_change (.member change) orderly).2
    | tag => rfl
    | object known =>
      obtain ⟨_, _, same, inside⟩ := fits_object.1 orderly
      cases same
      obtain ⟨first, others⟩ := List.forall_mem_cons.1 inside
      refine fits_object.2 ⟨_, _, rfl, List.forall_mem_cons.2 ⟨fun o found => ?_, others⟩⟩
      have listed : known.lookup key = some o := found
      have outline : (Outline.object known).under key = o := by
        rw [Outline.under, listed, Option.getD_some]
      rw [outline] at ih
      exact ih (first o found)
  | item change =>
    rw [isOrderly, fits_free] at orderly ⊢
    exact (toValue_of_change (.item change) orderly).2

end Tree

end SyncAccounting.Json
