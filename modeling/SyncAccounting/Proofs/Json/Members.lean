import SyncAccounting.Proofs.Json.Provenance
import SyncAccounting.Proofs.Json.Rearrangement

/-!
Members by their keys. A record takes the one tree under the name of each of its members, wherever
it stands among the members of an object, and what stands for a member that is not there. All other
members have to be such that they can be passed over.
-/

set_option autoImplicit false

namespace SyncAccounting.Json

namespace Tree

def underKey (key : String) (members : List (Option String × Tree)) : List Tree :=
  members.filterMap fun p => if p.1 = some key then some p.2 else none

variable {key : String} {members others : List (Option String × Tree)}

theorem underKey_cons_self (key : String) (t : Tree) (rest : List (Option String × Tree)) :
    underKey key ((some key, t) :: rest) = t :: underKey key rest := by
  rw [underKey, List.filterMap_cons, if_pos rfl, underKey]

theorem underKey_cons_of_ne {p : Option String × Tree} (other : p.1 ≠ some key)
    (rest : List (Option String × Tree)) : underKey key (p :: rest) = underKey key rest := by
  rw [underKey, List.filterMap_cons, if_neg other, underKey]

theorem underKey_append (key : String) (members others : List (Option String × Tree)) :
    underKey key (members ++ others) = underKey key members ++ underKey key others :=
  List.filterMap_append

theorem mem_of_mem_underKey {t : Tree} (under : t ∈ underKey key members) :
    (some key, t) ∈ members := by
  obtain ⟨p, hp, named⟩ := List.mem_filterMap.1 under
  obtain ⟨same, rfl⟩ := Option.ite_some_none_eq_some.1 named
  exact same ▸ hp

theorem underKey_eq_nil_iff : underKey key members = [] ↔ ∀ p ∈ members, p.1 ≠ some key := by
  rw [underKey, List.filterMap_eq_nil_iff]
  exact forall₂_congr fun p _ => by rw [ite_eq_right_iff]; simp

theorem exists_of_underKey_eq_cons {t : Tree} {rest : List Tree}
    (under : underKey key members = t :: rest) :
    ∃ before after, members = before ++ (some key, t) :: after ∧ underKey key before = [] ∧
      underKey key after = rest := by
  obtain ⟨before, p, after, rfl, noneBefore, named, rfl⟩ := List.filterMap_eq_cons_iff.1 under
  obtain ⟨same, rfl⟩ := Option.ite_some_none_eq_some.1 named
  refine ⟨before, after, ?_, List.filterMap_eq_nil_iff.2 noneBefore, rfl⟩
  rw [← same]

theorem underKey_perm (key : String) (order : members.Perm others) :
    (underKey key members).Perm (underKey key others) :=
  order.filterMap _

end Tree

open Json.Tree (underKey underKey_cons_self underKey_cons_of_ne)

/-! ### Slots -/

/-- A slot that is filled from the trees under its key: it is empty before and there is one tree, or
there is none. -/
def Fills {α : Type} (read : Reader α) (m : Medium) : List Tree → Option α → Option α → Prop
  | [], slot, filled => filled = slot
  | [t], none, some a => read m t = .ok a
  | _, _, _ => False

section Fills

variable {α : Type} {read : Reader α} {m : Medium} {t : Tree} {rest : List Tree} {a : α}
  {filled : Option α}

theorem fills_some : Fills read m rest (some a) filled ↔ rest = [] ∧ filled = some a := by
  match rest with
  | [] => exact ⟨fun same => ⟨rfl, same⟩, And.right⟩
  | [_] => exact ⟨False.elim, fun both => nomatch both.1⟩
  | _ :: _ :: _ => exact ⟨False.elim, fun both => nomatch both.1⟩

theorem fills_cons : Fills read m (t :: rest) none filled ↔
    ∃ a, read m t = .ok a ∧ Fills read m rest (some a) filled := by
  match rest, filled with
  | [], some a =>
    exact ⟨fun done => ⟨a, done, rfl⟩, fun ⟨b, done, same⟩ => by cases same; exact done⟩
  | [], none => exact ⟨False.elim, fun ⟨_, _, same⟩ => nomatch same⟩
  | _ :: _, some a => exact ⟨False.elim, fun ⟨_, _, more⟩ => nomatch (fills_some.1 more).1⟩
  | _ :: _, none => exact ⟨False.elim, fun ⟨_, _, more⟩ => nomatch (fills_some.1 more).1⟩

theorem fills_none_some {trees : List Tree} :
    Fills read m trees none (some a) ↔ ∃ t, trees = [t] ∧ read m t = .ok a := by
  match trees with
  | [] => exact ⟨nofun, fun ⟨_, same, _⟩ => nomatch same⟩
  | [t] =>
    constructor
    · exact fun done => ⟨t, rfl, done⟩
    · rintro ⟨_, same, done⟩
      cases same
      exact done
  | _ :: _ :: _ => exact ⟨False.elim, fun ⟨_, same, _⟩ => nomatch same⟩

end Fills

/-- A member of an object that a reader gets past: its key can be read, and it can be passed over
unless its key is one of some names. -/
def Passes (pass : Tree → Bool) (names : List String) (p : Option String × Tree) : Prop :=
  ∃ key, p.1 = some key ∧ (key ∉ names → pass p.2 = true)

/-! ### Records -/

def Member.Gets {α : Type} (f : Member α) (m : Medium) : List Tree → α → Prop
  | [], a => f.absent = some a
  | [t], a => f.codec.read m t = .ok a
  | _, _ => False

private theorem Member.exists_fills_iff {α : Type} (f : Member α) {m : Medium} {trees : List Tree}
    {a : α} :
    (∃ slot, Fills f.codec.read m trees none slot ∧ slot.or f.absent = some a) ↔
      f.Gets m trees a := by
  match trees with
  | [] =>
    constructor
    · rintro ⟨_, rfl, value⟩
      exact value
    · exact fun value => ⟨none, rfl, value⟩
  | [t] =>
    constructor
    · rintro ⟨_ | b, read, value⟩
      · exact read.elim
      · cases value
        exact read
    · exact fun read => ⟨some a, read, rfl⟩
  | _ :: _ :: _ => exact ⟨fun ⟨_, never, _⟩ => never.elim, False.elim⟩

namespace Fields

def Fill {αs : List Type} (m : Medium) (members : List (Option String × Tree)) :
    Fields αs → Slots αs → Slots αs → Prop
  | .nil, _, _ => True
  | .cons f rest, (slot, slots), (filled, more) =>
    Fills f.codec.read m (underKey f.name members) slot filled ∧ rest.Fill m members slots more

def Get {αs : List Type} (m : Medium) (members : List (Option String × Tree)) :
    Fields αs → Tuple αs → Prop
  | .nil, _ => True
  | .cons f rest, (a, as) => f.Gets m (underKey f.name members) a ∧ rest.Get m members as

variable {αs : List Type} {m : Medium} {key : String} {t : Tree}
  {members : List (Option String × Tree)}

private theorem place_eq_none_iff {fields : Fields αs} {slots : Slots αs} :
    fields.place m key t slots = none ↔ key ∉ fields.names := by
  induction fields with
  | nil => exact ⟨fun _ => List.not_mem_nil, fun _ => rfl⟩
  | cons f rest ih =>
    obtain ⟨slot, slots⟩ := slots
    by_cases here : key = f.name
    · refine ⟨fun notPlaced => ?_, fun other => absurd (here ▸ List.mem_cons_self) other⟩
      cases slot <;> exact absurd ((if_pos here).symm.trans notPlaced) nofun
    · have elsewhere := place_of_ne f rest m here t slot slots
      rw [names, List.mem_cons, not_or, ← @ih slots, elsewhere]
      exact ⟨fun notPlaced => ⟨here, Option.map_eq_none_iff.1 notPlaced⟩,
        fun both => Option.map_eq_none_iff.2 both.2⟩

private theorem fill_cons_of_notMem {fields : Fields αs} (other : key ∉ fields.names)
    {slots filled : Slots αs} :
    fields.Fill m ((some key, t) :: members) slots filled ↔ fields.Fill m members slots filled := by
  induction fields with
  | nil => exact Iff.rfl
  | cons f rest ih =>
    obtain ⟨slot, slots⟩ := slots
    obtain ⟨full, filled⟩ := filled
    obtain ⟨apart, other⟩ := List.ne_and_not_mem_of_not_mem_cons other
    rw [Fill, Fill, underKey_cons_of_ne (fun same => apart (Option.some.inj same)), ih other]

private theorem fill_nil {fields : Fields αs} {slots filled : Slots αs} :
    fields.Fill m [] slots filled ↔ filled = slots := by
  induction fields with
  | nil => exact ⟨fun _ => rfl, fun _ => trivial⟩
  | cons f rest ih =>
    obtain ⟨slot, slots⟩ := slots
    obtain ⟨full, filled⟩ := filled
    exact (and_congr Iff.rfl ih).trans Prod.mk_inj.symm

private theorem place_self_eq_ok_iff {α : Type} {f : Member α} {rest : Fields αs}
    {slot : Option α} {slots : Slots αs} {more : Slots (α :: αs)} :
    (Fields.cons f rest).place m f.name t (slot, slots) = some (.ok more) ↔
      slot = none ∧ ∃ a, f.codec.read m t = .ok a ∧ more = (some a, slots) := by
  cases slot with
  | some b =>
    rw [place, if_pos rfl]
    constructor
    · intro placed
      cases placed
    · rintro ⟨never, -⟩
      cases never
  | none =>
    rw [place, if_pos rfl]
    constructor
    · intro placed
      obtain ⟨a, read, same⟩ := exists_of_map_eq_ok (Option.some.inj placed)
      exact ⟨rfl, a, read, same.symm⟩
    · rintro ⟨-, a, read, rfl⟩
      rw [read]
      rfl

private theorem place_cons_eq_ok_iff {α : Type} {f : Member α} {rest : Fields αs}
    (other : key ≠ f.name) {slot : Option α} {slots : Slots αs} {more : Slots (α :: αs)} :
    (Fields.cons f rest).place m key t (slot, slots) = some (.ok more) ↔
      ∃ later, rest.place m key t slots = some (.ok later) ∧ more = (slot, later) := by
  rw [place_of_ne f rest m other]
  constructor
  · intro placed
    obtain ⟨r, inside, done⟩ := Option.map_eq_some_iff.1 placed
    obtain ⟨later, rfl, same⟩ := exists_of_map_eq_ok done
    exact ⟨later, inside, same.symm⟩
  · rintro ⟨later, inside, rfl⟩
    rw [inside]
    rfl

private theorem fill_cons_of_mem {fields : Fields αs} (once : fields.names.Nodup)
    (known : key ∈ fields.names) {slots filled : Slots αs} :
    fields.Fill m ((some key, t) :: members) slots filled ↔
      ∃ more, fields.place m key t slots = some (.ok more) ∧ fields.Fill m members more filled := by
  induction fields with
  | nil => exact absurd known List.not_mem_nil
  | cons f rest ih =>
    obtain ⟨slot, slots⟩ := slots
    obtain ⟨full, filled⟩ := filled
    obtain ⟨fresh, once⟩ := List.nodup_cons.1 once
    by_cases here : key = f.name
    · subst here
      rw [Fill, underKey_cons_self, fill_cons_of_notMem fresh]
      constructor
      · rintro ⟨first, others⟩
        cases slot with
        | some b => exact absurd (fills_some.1 first).1 (List.cons_ne_nil _ _)
        | none =>
          obtain ⟨a, read, first⟩ := fills_cons.1 first
          exact ⟨_, place_self_eq_ok_iff.2 ⟨rfl, a, read, rfl⟩, first, others⟩
      · rintro ⟨more, placed, fill⟩
        obtain ⟨rfl, a, read, rfl⟩ := place_self_eq_ok_iff.1 placed
        exact ⟨fills_cons.2 ⟨a, read, fill.1⟩, fill.2⟩
    · have later : key ∈ rest.names := (List.mem_cons.1 known).resolve_left here
      rw [Fill, underKey_cons_of_ne (fun same => here (Option.some.inj same)), ih once later]
      constructor
      · rintro ⟨first, more, placed, others⟩
        exact ⟨_, (place_cons_eq_ok_iff here).2 ⟨more, placed, rfl⟩, first, others⟩
      · rintro ⟨more, placed, fill⟩
        obtain ⟨later, inside, rfl⟩ := (place_cons_eq_ok_iff here).1 placed
        exact ⟨fill.1, later, inside, fill.2⟩

private theorem readMembers_cons_of_mem {fields : Fields αs} (known : key ∈ fields.names)
    {closed : Bool} {slots filled : Slots αs} :
    fields.readMembers false m ((some key, t) :: members) closed slots = .ok filled ↔
      ∃ more, fields.place m key t slots = some (.ok more) ∧
        fields.readMembers false m members closed more = .ok filled := by
  constructor
  · intro read
    cases placed : fields.place m key t slots with
    | none => exact absurd known (place_eq_none_iff.1 placed)
    | some r =>
      rw [readMembers, placed] at read
      obtain ⟨more, rfl, later⟩ := exists_of_bind_eq_ok read
      exact ⟨more, rfl, later⟩
  · rintro ⟨more, placed, later⟩
    rw [readMembers_of_place false placed, later]

private theorem readMembers_cons_of_notMem {fields : Fields αs} (other : key ∉ fields.names)
    {closed : Bool} {slots filled : Slots αs} :
    fields.readMembers false m ((some key, t) :: members) closed slots = .ok filled ↔
      m.canSkip t = true ∧ fields.readMembers false m members closed slots = .ok filled := by
  have nowhere : fields.place m key t slots = none := place_eq_none_iff.2 other
  constructor
  · intro read
    rw [readMembers, nowhere] at read
    by_cases skip : m.canSkip t = true
    · exact ⟨skip, (if_pos skip).symm.trans read⟩
    · rw [if_neg skip] at read
      cases read
  · rintro ⟨skip, later⟩
    rw [readMembers_of_skip nowhere skip, later]

private theorem readMembers_eq_ok_iff {fields : Fields αs} (once : fields.names.Nodup)
    {closed : Bool} {slots filled : Slots αs} :
    fields.readMembers false m members closed slots = .ok filled ↔
      closed = true ∧ (∀ p ∈ members, Passes m.canSkip fields.names p) ∧
        fields.Fill m members slots filled := by
  induction members generalizing slots with
  | nil =>
    rw [readMembers, fill_nil]
    cases closed with
    | true => simp [eq_comm]
    | false => simp
  | cons p members ih =>
    obtain ⟨_ | key, t⟩ := p
    · constructor
      · intro read
        cases read
      · rintro ⟨-, all, -⟩
        obtain ⟨_, named, -⟩ := all _ List.mem_cons_self
        cases named
    rw [List.forall_mem_cons]
    by_cases known : key ∈ fields.names
    · have passes : Passes m.canSkip fields.names (some key, t) :=
        ⟨key, rfl, fun other => absurd known other⟩
      rw [readMembers_cons_of_mem known, fill_cons_of_mem once known]
      constructor
      · rintro ⟨more, placed, later⟩
        obtain ⟨closes, all, fill⟩ := ih.1 later
        exact ⟨closes, ⟨passes, all⟩, more, placed, fill⟩
      · rintro ⟨closes, ⟨-, all⟩, more, placed, fill⟩
        exact ⟨more, placed, ih.2 ⟨closes, all, fill⟩⟩
    · rw [readMembers_cons_of_notMem known, fill_cons_of_notMem known, ih]
      constructor
      · rintro ⟨skip, closes, all, fill⟩
        exact ⟨closes, ⟨⟨key, rfl, fun _ => skip⟩, all⟩, fill⟩
      · rintro ⟨closes, ⟨⟨_, named, skip⟩, all⟩, fill⟩
        cases named
        exact ⟨skip known, closes, all, fill⟩

private theorem collect_eq_ok_iff {α : Type} {f : Member α} {rest : Fields αs} {slot : Option α}
    {slots : Slots αs} {a : α} {as : Tuple αs} :
    (Fields.cons f rest).collect (slot, slots) = .ok (a, as) ↔
      slot.or f.absent = some a ∧ rest.collect slots = .ok as := by
  refine ⟨fun read => ?_, fun both => collect_cons f rest both.1 both.2⟩
  obtain ⟨name, codec, absent, short, hidden⟩ := f
  have parts : ∃ b, slot.or absent = some b ∧
      (rest.collect slots >>= fun as => .ok (b, as)) = .ok (a, as) := by
    cases slot with
    | some b => exact ⟨b, rfl, read⟩
    | none =>
      cases absent with
      | some b => exact ⟨b, rfl, read⟩
      | none => cases read
  obtain ⟨b, value, read⟩ := parts
  obtain ⟨bs, others, same⟩ := exists_of_bind_eq_ok read
  cases same
  exact ⟨value, others⟩

private theorem exists_fill_iff {fields : Fields αs} {as : Tuple αs} :
    (∃ filled, fields.Fill m members fields.noneYet filled ∧ fields.collect filled = .ok as) ↔
      fields.Get m members as := by
  induction fields with
  | nil => exact ⟨fun _ => trivial, fun _ => ⟨(), trivial, rfl⟩⟩
  | cons f rest ih =>
    obtain ⟨a, as⟩ := as
    rw [Get, ← ih, ← f.exists_fills_iff]
    constructor
    · rintro ⟨⟨slot, slots⟩, ⟨first, others⟩, read⟩
      obtain ⟨value, read⟩ := collect_eq_ok_iff.1 read
      exact ⟨⟨slot, first, value⟩, slots, others, read⟩
    · rintro ⟨⟨slot, first, value⟩, slots, others, read⟩
      exact ⟨(slot, slots), ⟨first, others⟩, collect_eq_ok_iff.2 ⟨value, read⟩⟩

/-- A record is read from an object by what is under the names of its members. -/
theorem read_object_eq_ok_iff {fields : Fields αs} (once : fields.names.Nodup) {closed : Bool}
    {as : Tuple αs} :
    fields.read false m (.object members closed) = .ok as ↔
      ∃ inside, m.enter = .ok inside ∧ closed = true ∧
        (∀ p ∈ members, Passes inside.canSkip fields.names p) ∧ fields.Get inside members as := by
  constructor
  · intro read
    obtain ⟨inside, enter, read⟩ := exists_of_bind_eq_ok read
    obtain ⟨slots, read, collect⟩ := exists_of_bind_eq_ok read
    obtain ⟨closes, all, fill⟩ := (readMembers_eq_ok_iff once).1 read
    exact ⟨inside, enter, closes, all, exists_fill_iff.1 ⟨slots, fill, collect⟩⟩
  · rintro ⟨inside, enter, closes, all, get⟩
    obtain ⟨slots, fill, collect⟩ := exists_fill_iff.2 get
    rw [Fields.read, enter]
    change (fields.readMembers false inside members closed fields.noneYet >>= fields.collect) = _
    rw [(readMembers_eq_ok_iff once).2 ⟨closes, all, fill⟩]
    exact collect

end Fields

end SyncAccounting.Json
