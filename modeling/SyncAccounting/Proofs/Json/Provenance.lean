import SyncAccounting.Proofs.Json.Records

/-!
What a reader has read comes from the tree that it was given. Each part of what is read has been
read in turn, from a tree inside this one, so free data are in normal form and lie no deeper than
the text around them leaves room for.
-/

set_option autoImplicit false

namespace SyncAccounting.Json

theorem exists_of_bind_eq_ok {ε α β : Type} {x : Except ε α} {f : α → Except ε β} {b : β}
    (done : (x >>= f) = .ok b) : ∃ a, x = .ok a ∧ f a = .ok b := by
  cases x with
  | error e => cases done
  | ok a => exact ⟨a, rfl, done⟩

theorem exists_of_map_eq_ok {ε α β : Type} {x : Except ε α} {f : α → β} {b : β}
    (done : x.map f = .ok b) : ∃ a, x = .ok a ∧ f a = b := by
  cases x with
  | error e => cases done
  | ok a => exact ⟨a, rfl, Except.ok.inj done⟩

namespace Tree

mutual

private theorem isSound_mono {k n : Nat} (le : k ≤ n) {t : Tree} (sound : t.isSound k = true) :
    t.isSound n = true := by
  match t with
  | broken => exact sound
  | null | bool _ | number _ | string _ => exact sound
  | array items closed =>
    simp only [isSound, Bool.and_eq_true, decide_eq_true_eq] at sound ⊢
    exact ⟨⟨by omega, allSound_mono (by omega) sound.1.2⟩, sound.2⟩
  | object members closed =>
    simp only [isSound, Bool.and_eq_true, decide_eq_true_eq] at sound ⊢
    exact ⟨⟨by omega, membersSound_mono (by omega) sound.1.2⟩, sound.2⟩

private theorem allSound_mono {k n : Nat} (le : k ≤ n) {items : List Tree}
    (sound : allSound k items = true) : allSound n items = true := by
  match items with
  | [] => rfl
  | t :: rest =>
    rw [allSound, Bool.and_eq_true] at sound ⊢
    exact ⟨isSound_mono le sound.1, allSound_mono le sound.2⟩

private theorem membersSound_mono {k n : Nat} (le : k ≤ n) {members : List (Option String × Tree)}
    (sound : membersSound k members = true) : membersSound n members = true := by
  match members with
  | [] => rfl
  | (_, t) :: rest =>
    rw [membersSound, Bool.and_eq_true, Bool.and_eq_true] at sound ⊢
    exact ⟨⟨sound.1.1, isSound_mono le sound.1.2⟩, membersSound_mono le sound.2⟩

end

private theorem allSound_iff {levels : Nat} {items : List Tree} :
    allSound levels items = true ↔ ∀ t ∈ items, t.isSound levels = true := by
  induction items with
  | nil => simp [allSound]
  | cons t rest ih => rw [allSound, Bool.and_eq_true, ih, List.forall_mem_cons]

theorem membersSound_iff {levels : Nat} {members : List (Option String × Tree)} :
    membersSound levels members = true ↔
      ∀ p ∈ members, p.1.isSome = true ∧ p.2.isSound levels = true := by
  induction members with
  | nil => simp [membersSound]
  | cons p rest ih =>
    rw [membersSound, Bool.and_eq_true, Bool.and_eq_true, ih, List.forall_mem_cons]

end Tree

namespace Medium

/-- What is left of a tree has at most so many levels: a text does not go deeper than it may, and a
tree that has been kept was sound. -/
def Bounds (m : Medium) (t : Tree) (levels : Nat) : Prop :=
  match m with
  | text depth => maxDepth - depth ≤ levels
  | _ => t.isSound levels = true

variable {m inside : Medium} {levels : Nat}

private theorem isSound_of_canHold {t : Tree} (bounds : m.Bounds t levels)
    (holds : m.canHold t = true) :
    t.isSound levels = true := by
  cases m with
  | text depth => exact Tree.isSound_mono bounds holds
  | buffer | parsed => exact bounds

theorem eq_of_enter_text {depth : Nat} (enter : (text depth).enter = .ok inside) :
    depth < maxDepth ∧ text (depth + 1) = inside := by
  rw [Medium.enter] at enter
  split at enter
  · next room => exact ⟨room, Except.ok.inj enter⟩
  · cases enter

private theorem bounds_items {items : List Tree} {closed : Bool}
    (bounds : m.Bounds (.array items closed) levels) (enter : m.enter = .ok inside) :
    ∃ n, levels = n + 1 ∧ ∀ t ∈ items, inside.Bounds t n := by
  cases m with
  | text depth =>
    have left : maxDepth - depth ≤ levels := bounds
    obtain ⟨room, rfl⟩ := eq_of_enter_text enter
    have below : maxDepth - (depth + 1) ≤ levels - 1 := by omega
    exact ⟨levels - 1, by omega, fun _ _ => below⟩
  | buffer | parsed =>
    cases enter
    have sound : (Tree.array items closed).isSound levels = true := bounds
    simp only [Tree.isSound, Bool.and_eq_true, decide_eq_true_eq] at sound
    exact ⟨levels - 1, by omega, Tree.allSound_iff.1 sound.1.2⟩

private theorem bounds_members {members : List (Option String × Tree)} {closed : Bool}
    (bounds : m.Bounds (.object members closed) levels) (enter : m.enter = .ok inside) :
    ∃ n, levels = n + 1 ∧ ∀ p ∈ members, inside.Bounds p.2 n := by
  cases m with
  | text depth =>
    have left : maxDepth - depth ≤ levels := bounds
    obtain ⟨room, rfl⟩ := eq_of_enter_text enter
    have below : maxDepth - (depth + 1) ≤ levels - 1 := by omega
    exact ⟨levels - 1, by omega, fun _ _ => below⟩
  | buffer | parsed =>
    cases enter
    have sound : (Tree.object members closed).isSound levels = true := bounds
    simp only [Tree.isSound, Bool.and_eq_true, decide_eq_true_eq] at sound
    exact ⟨levels - 1, by omega, fun p hp => (Tree.membersSound_iff.1 sound.1.2 p hp).2⟩

end Medium

/-! ### Free data and records -/

/-- A value that is read where at most so many levels are left. -/
def Codec.Reads {α : Type} (c : Codec α) (levels : Nat) (a : α) : Prop :=
  ∃ m t, Medium.Bounds m t levels ∧ c.read m t = .ok a

theorem Codec.ofText_eq_ok_iff {α : Type} {c : Codec α} {text : String} {a : α} :
    c.ofText text = .ok a ↔ c.read (.text 0) (Document.ofText text).tree = .ok a ∧
      (Document.ofText text).trailing = false := by
  constructor
  · intro read
    obtain ⟨b, whole, done⟩ := exists_of_bind_eq_ok read
    cases trailing : (Document.ofText text).trailing with
    | false =>
      rw [trailing] at done
      cases done
      exact ⟨whole, rfl⟩
    | true =>
      rw [trailing] at done
      cases done
  · rintro ⟨whole, alone⟩
    rw [ofText, whole, alone]
    rfl

theorem Codec.Reads.ofText {α : Type} {c : Codec α} {text : String} {a : α}
    (read : c.ofText text = .ok a) : c.Reads maxDepth a :=
  ⟨.text 0, (Document.ofText text).tree, Nat.le_refl maxDepth, (ofText_eq_ok_iff.1 read).1⟩

theorem Codec.Reads.free {levels : Nat} {v : Value} (read : Codec.free.Reads levels v) :
    v.IsNormal ∧ v.depth ≤ levels := by
  obtain ⟨m, t, bounds, read⟩ := read
  change (if m.canHold t then Except.ok t.toValue else _) = _ at read
  split at read
  · next holds =>
    cases read
    exact ⟨t.isNormal_toValue, Tree.depth_toValue_le (Medium.isSound_of_canHold bounds holds)⟩
  · cases read

def Member.Reads {α : Type} (f : Member α) (levels : Nat) (a : α) : Prop :=
  f.codec.Reads levels a ∨ f.absent = some a ∨ f.short = some a

namespace Fields

def Reads (levels : Nat) {αs : List Type} : Fields αs → Tuple αs → Prop
  | .nil, _ => True
  | .cons f rest, (a, as) => f.Reads levels a ∧ rest.Reads levels as

def Filled (levels : Nat) {αs : List Type} : Fields αs → Slots αs → Prop
  | .nil, _ => True
  | .cons f rest, (slot, slots) => (∀ a ∈ slot, f.codec.Reads levels a) ∧ rest.Filled levels slots

variable {levels : Nat}

private theorem filled_noneYet {αs : List Type} (fields : Fields αs) :
    fields.Filled levels fields.noneYet := by
  induction fields with
  | nil => trivial
  | cons f rest ih => exact ⟨nofun, ih⟩

private theorem filled_place {αs : List Type} {fields : Fields αs} {m : Medium} {key : String}
    {t : Tree} (bounds : m.Bounds t levels) {slots filled : Slots αs}
    (before : fields.Filled levels slots)
    (placed : fields.place m key t slots = some (.ok filled)) : fields.Filled levels filled := by
  induction fields with
  | nil => cases placed
  | cons f rest ih =>
    obtain ⟨slot, slots⟩ := slots
    obtain ⟨first, others⟩ := before
    by_cases here : key = f.name
    · cases slot with
      | some a =>
        rw [place, if_pos here] at placed
        cases placed
      | none =>
        rw [place, if_pos here] at placed
        obtain ⟨a, read, rfl⟩ := exists_of_map_eq_ok (Option.some.inj placed)
        exact ⟨fun b hb => by cases hb; exact ⟨m, t, bounds, read⟩, others⟩
    · have elsewhere := (place_of_ne f rest m here t slot slots).symm.trans placed
      obtain ⟨r, later, done⟩ := Option.map_eq_some_iff.1 elsewhere
      obtain ⟨more, rfl, rfl⟩ := exists_of_map_eq_ok done
      exact ⟨first, ih others later⟩

private theorem filled_readMembers {αs : List Type} {fields : Fields αs} {strict : Bool}
    {m : Medium} {members : List (Option String × Tree)}
    (bounds : ∀ p ∈ members, m.Bounds p.2 levels)
    {closed : Bool} {slots filled : Slots αs} (before : fields.Filled levels slots)
    (read : fields.readMembers strict m members closed slots = .ok filled) :
    fields.Filled levels filled := by
  induction members generalizing slots with
  | nil =>
    rw [readMembers] at read
    split at read
    · cases read
      exact before
    · cases read
  | cons p members ih =>
    obtain ⟨first, others⟩ := List.forall_mem_cons.1 bounds
    obtain ⟨_ | key, t⟩ := p
    · cases read
    · rw [readMembers] at read
      split at read
      · next r placed =>
        obtain ⟨more, rfl, read⟩ := exists_of_bind_eq_ok read
        exact ih others (filled_place first before placed) read
      · split at read
        · cases read
        · split at read
          · exact ih others before read
          · cases read

private theorem reads_collect {αs : List Type} {fields : Fields αs} {slots : Slots αs}
    {as : Tuple αs} (filled : fields.Filled levels slots) (read : fields.collect slots = .ok as) :
    fields.Reads levels as := by
  induction fields with
  | nil => trivial
  | cons f rest ih =>
    obtain ⟨slot, slots⟩ := slots
    obtain ⟨first, others⟩ := filled
    obtain ⟨name, codec, absent, short, hidden⟩ := f
    have part : ∃ a, (slot = some a ∨ slot = none ∧ absent = some a) ∧
        (rest.collect slots >>= fun as => .ok (a, as)) = .ok as := by
      cases slot with
      | some a => exact ⟨a, .inl rfl, read⟩
      | none =>
        cases absent with
        | some a => exact ⟨a, .inr ⟨rfl, rfl⟩, read⟩
        | none => cases read
    obtain ⟨a, origin, read⟩ := part
    obtain ⟨more, later, same⟩ := exists_of_bind_eq_ok read
    cases same
    refine ⟨?_, ih others later⟩
    rcases origin with filled | ⟨-, missing⟩
    · exact .inl (first a filled)
    · exact .inr (.inl missing)

private theorem reads_readItems {αs : List Type} {fields : Fields αs} {m : Medium}
    {items : List Tree} (bounds : ∀ t ∈ items, m.Bounds t levels) {closed : Bool} {as : Tuple αs}
    (read : fields.readItems m items closed = .ok as) : fields.Reads levels as := by
  induction fields generalizing items with
  | nil => trivial
  | cons f rest ih =>
    cases items with
    | cons t items =>
      obtain ⟨a, first, read⟩ := exists_of_bind_eq_ok read
      obtain ⟨more, others, same⟩ := exists_of_bind_eq_ok read
      cases same
      exact ⟨.inl ⟨m, t, bounds t List.mem_cons_self, first⟩,
        ih (fun t ht => bounds t (List.mem_cons_of_mem _ ht)) others⟩
    | nil =>
      obtain ⟨name, codec, absent, short, hidden⟩ := f
      cases closed with
      | false => cases read
      | true =>
        cases short with
        | none => cases read
        | some a =>
          have parts : (rest.readItems m [] true >>= fun as => .ok (a, as)) = .ok as := read
          obtain ⟨more, later, same⟩ := exists_of_bind_eq_ok parts
          cases same
          exact ⟨.inr (.inr rfl), ih (fun t mem => absurd mem List.not_mem_nil) later⟩

end Fields

theorem Codec.Reads.record {α : Type} {r : Record α} {levels : Nat} {a : α}
    (read : r.codec.Reads levels a) :
    ∃ n t, levels = n + 1 ∧ r.build t = a ∧ r.fields.Reads n t := by
  obtain ⟨m, t, bounds, read⟩ := read
  obtain ⟨parts, read, built⟩ := exists_of_map_eq_ok read
  cases t with
  | object members closed =>
    obtain ⟨inside, enter, read⟩ := exists_of_bind_eq_ok read
    obtain ⟨slots, read, collect⟩ := exists_of_bind_eq_ok read
    obtain ⟨n, rfl, below⟩ := Medium.bounds_members bounds enter
    have filled := Fields.filled_readMembers below (Fields.filled_noneYet r.fields) read
    exact ⟨n, parts, rfl, built, Fields.reads_collect filled collect⟩
  | array items closed =>
    obtain ⟨inside, enter, read⟩ := exists_of_bind_eq_ok read
    obtain ⟨n, rfl, below⟩ := Medium.bounds_items bounds enter
    exact ⟨n, parts, rfl, built, Fields.reads_readItems below read⟩
  | _ => cases read

/-! ### Values of several kinds -/

def Variant.Reads {α : Type} (v : Variant α) (levels : Nat) (a : α) : Prop :=
  ∃ m t, Medium.Bounds m t levels ∧ v.read m t = .ok a

theorem Variant.Reads.of {α β : Type} {name : String} {c : Codec β} {wrap : β → α}
    {unwrap? : α → Option β} {levels : Nat} {a : α}
    (read : (Variant.of name c wrap unwrap?).Reads levels a) :
    ∃ b, c.Reads levels b ∧ wrap b = a := by
  obtain ⟨m, t, bounds, read⟩ := read
  obtain ⟨b, read, same⟩ := exists_of_map_eq_ok read
  exact ⟨b, ⟨m, t, bounds, read⟩, same⟩

namespace Tagged

variable {α : Type} {tag content : String} {variants : List (Variant α)} {levels : Nat}

private theorem reads_readVariant {i : Nat} {m : Medium} {t : Tree} {a : α}
    (bounds : m.Bounds t levels) (read : readVariant variants i m t = .ok a) :
    ∃ v ∈ variants, v.Reads levels a := by
  rw [readVariant] at read
  split at read
  · next v listed => exact ⟨v, List.mem_of_getElem? listed, m, t, bounds, read⟩
  · cases read

private theorem isSound_of_splitTag {names : List String} {m : Medium}
    {members : List (Option String × Tree)} (bounds : ∀ p ∈ members, m.Bounds p.2 levels)
    {closed : Bool} {found : Option Nat} {i : Nat} {others : List (Option String × Tree)}
    (split : splitTag tag names m members closed found = .ok (i, others)) :
    ∀ p ∈ others, p.1.isSome = true ∧ p.2.isSound levels = true := by
  induction members generalizing found others with
  | nil =>
    cases closed <;> cases found <;> cases split
    exact fun p mem => absurd mem List.not_mem_nil
  | cons p members ih =>
    obtain ⟨first, below⟩ := List.forall_mem_cons.1 bounds
    obtain ⟨_ | key, t⟩ := p
    · cases split
    · rw [splitTag.eq_def] at split
      dsimp only at split
      split at split
      · cases found with
        | some i => cases split
        | none =>
          obtain ⟨j, -, later⟩ := exists_of_bind_eq_ok split
          exact ih below later
      · split at split
        · next holds =>
          obtain ⟨⟨j, more⟩, later, same⟩ := exists_of_bind_eq_ok split
          cases same
          exact List.forall_mem_cons.2
            ⟨⟨rfl, Medium.isSound_of_canHold first holds⟩, ih below later⟩
        · cases split

private theorem bounds_nextRelevant {m : Medium} {members : List (Option String × Tree)}
    (bounds : ∀ p ∈ members, m.Bounds p.2 levels) {closed isTag : Bool} {t : Tree}
    {rest : List (Option String × Tree)}
    (next : nextRelevant tag content m members closed = .ok (some (isTag, t, rest))) :
    m.Bounds t levels ∧ ∀ p ∈ rest, m.Bounds p.2 levels := by
  induction members with
  | nil =>
    rw [nextRelevant] at next
    split at next <;> cases next
  | cons p members ih =>
    obtain ⟨first, below⟩ := List.forall_mem_cons.1 bounds
    obtain ⟨_ | key, t⟩ := p
    · cases next
    · rw [nextRelevant] at next
      split at next
      · cases next
        exact ⟨first, below⟩
      · split at next
        · cases next
          exact ⟨first, below⟩
        · split at next
          · exact ih below next
          · cases next

private theorem reads_readBeside {m : Medium} {members : List (Option String × Tree)}
    (bounds : ∀ p ∈ members, m.Bounds p.2 levels) {closed : Bool} {a : α}
    (read : readBeside tag content variants m members closed = .ok a) :
    ∃ v ∈ variants, v.Reads levels a := by
  obtain ⟨first, next, read⟩ := exists_of_bind_eq_ok read
  obtain _ | ⟨_ | _, body, rest⟩ := first
  · cases read
  -- The content comes first: it has been kept, and what has been kept was sound.
  · obtain ⟨here, below⟩ := bounds_nextRelevant bounds next
    cases holds : m.canHold body with
    | false =>
      dsimp only at read
      rw [holds] at read
      cases read
    | true =>
      dsimp only at read
      rw [holds] at read
      obtain ⟨second, next, read⟩ := exists_of_bind_eq_ok read
      obtain _ | ⟨_ | _, t, rest⟩ := second
      · cases read
      · cases read
      · obtain ⟨i, -, read⟩ := exists_of_bind_eq_ok read
        obtain ⟨b, read, done⟩ := exists_of_bind_eq_ok read
        obtain ⟨-, -, same⟩ := exists_of_bind_eq_ok done
        cases same
        have kept := Medium.isSound_of_canHold here holds
        exact reads_readVariant (m := .buffer) kept read
  -- The tag comes first, and the content is read where it stands.
  · obtain ⟨-, below⟩ := bounds_nextRelevant bounds next
    obtain ⟨i, -, read⟩ := exists_of_bind_eq_ok read
    obtain ⟨second, next, read⟩ := exists_of_bind_eq_ok read
    obtain _ | ⟨_ | _, body, rest⟩ := second
    · cases read
    · obtain ⟨b, read, done⟩ := exists_of_bind_eq_ok read
      obtain ⟨-, -, same⟩ := exists_of_bind_eq_ok done
      cases same
      exact reads_readVariant (bounds_nextRelevant below next).1 read
    · cases read

end Tagged

theorem Codec.Reads.among {α : Type} {tag : String} {variants : List (Variant α)} {levels : Nat}
    {a : α} (read : (Tagged.among tag variants).Reads levels a) :
    ∃ v ∈ variants, v.Reads levels a := by
  obtain ⟨m, t, bounds, read⟩ := read
  cases t with
  | object members closed =>
    obtain ⟨inside, enter, read⟩ := exists_of_bind_eq_ok read
    obtain ⟨⟨i, others⟩, split, read⟩ := exists_of_bind_eq_ok read
    obtain ⟨n, rfl, below⟩ := Medium.bounds_members bounds enter
    have sound := Tree.membersSound_iff.2 (Tagged.isSound_of_splitTag below split)
    have kept : (Tree.object others true).isSound (n + 1) = true := by
      rw [Tree.isSound, Nat.add_sub_cancel, sound]
      rfl
    exact Tagged.reads_readVariant (m := .buffer) kept read
  | array items closed =>
    obtain ⟨inside, enter, read⟩ := exists_of_bind_eq_ok read
    obtain ⟨n, rfl, below⟩ := Medium.bounds_items bounds enter
    cases items with
    | nil => cases closed <;> cases read
    | cons t rest =>
      obtain ⟨i, -, read⟩ := exists_of_bind_eq_ok read
      split at read
      · next holds =>
        rw [Bool.and_eq_true, List.all_eq_true] at holds
        have sound : Tree.allSound n rest = true := Tree.allSound_iff.2 fun t ht =>
          Medium.isSound_of_canHold (below t (List.mem_cons_of_mem _ ht)) (holds.1 t ht)
        have kept : (Tree.array rest true).isSound (n + 1) = true := by
          rw [Tree.isSound, Nat.add_sub_cancel, sound]
          rfl
        exact Tagged.reads_readVariant (m := .buffer) kept read
      · cases read
  | _ => cases read

theorem Codec.Reads.beside {α : Type} {tag content : String} {variants : List (Variant α)}
    {levels : Nat} {a : α} (read : (Tagged.beside tag content variants).Reads levels a) :
    ∃ n, levels = n + 1 ∧ ∃ v ∈ variants, v.Reads n a := by
  obtain ⟨m, t, bounds, read⟩ := read
  cases t with
  | object members closed =>
    obtain ⟨inside, enter, read⟩ := exists_of_bind_eq_ok read
    obtain ⟨n, rfl, below⟩ := Medium.bounds_members bounds enter
    exact ⟨n, rfl, Tagged.reads_readBeside below read⟩
  | array items closed =>
    obtain ⟨inside, enter, read⟩ := exists_of_bind_eq_ok read
    obtain ⟨n, rfl, below⟩ := Medium.bounds_items bounds enter
    obtain _ | ⟨t, _ | ⟨body, rest⟩⟩ := items
    · cases closed <;> cases read
    · obtain ⟨i, -, read⟩ := exists_of_bind_eq_ok read
      cases closed <;> cases read
    · obtain ⟨i, -, read⟩ := exists_of_bind_eq_ok read
      obtain ⟨b, body, done⟩ := exists_of_bind_eq_ok read
      have same : b = a := by
        cases rest <;> cases closed <;> cases done
        rfl
      rw [← same]
      have here := below _ (List.mem_cons_of_mem t List.mem_cons_self)
      exact ⟨n, rfl, Tagged.reads_readVariant here body⟩
  | _ => cases read

end SyncAccounting.Json
