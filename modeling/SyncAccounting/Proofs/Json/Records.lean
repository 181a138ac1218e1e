import SyncAccounting.Json.Tagged
import SyncAccounting.Proofs.Json.Lossless

/-!
Records and values of several kinds are read back as they are written. A record keeps a value if
each member keeps its part, be it by leaving it out where the part stands for what is missing; a tag
among the members or beside them does not get in their way.
-/

set_option autoImplicit false

namespace SyncAccounting.Json

/-! ### Records -/

/-- A member keeps a value: where it leaves it out, the value is the one that stands for what is
missing. -/
def Member.Keeps {α : Type} (f : Member α) (a : α) : Prop :=
  if f.hidden a then f.absent = some a else f.codec.Keeps a

namespace Member

variable {α : Type} {codec : Codec α}

theorem keeps_nullable {o : Option α} (name : String)
    (keeps : ∀ a ∈ o, codec.Keeps a ∧ codec.write a ≠ .null) :
    (nullable name codec).Keeps o := Codec.keeps_optional keeps

theorem keeps_skipped {o : Option α} (name : String)
    (keeps : ∀ a ∈ o, codec.Keeps a ∧ codec.write a ≠ .null) :
    (skipped name codec).Keeps o := by
  cases o with
  | none => exact (rfl : some none = some none)
  | some a => exact Codec.keeps_optional keeps

end Member

namespace Fields

def Keep {αs : List Type} : Fields αs → Tuple αs → Prop
  | .nil, _ => True
  | .cons f rest, (a, as) => f.Keeps a ∧ rest.Keep as

def filled {αs : List Type} : Fields αs → Tuple αs → Slots αs
  | .nil, _ => ()
  | .cons f rest, (a, as) => (if f.hidden a then none else some a, rest.filled as)

theorem collect_cons {α : Type} {αs : List Type} (f : Member α) (rest : Fields αs)
    {slot : Option α} {a : α} (value : slot.or f.absent = some a) {slots : Slots αs}
    {as : Tuple αs} (others : rest.collect slots = .ok as) :
    (Fields.cons f rest).collect (slot, slots) = .ok (a, as) := by
  obtain ⟨name, codec, absent, short, hidden⟩ := f
  have collected : (Fields.cons ⟨name, codec, absent, short, hidden⟩ rest).collect (slot, slots) =
      rest.collect slots >>= fun as => .ok (a, as) := by
    cases slot <;> cases value <;> rfl
  rw [collected, others]
  rfl

private theorem collect_filled {αs : List Type} (fields : Fields αs) (t : Tuple αs)
    (keep : fields.Keep t) : fields.collect (fields.filled t) = .ok t := by
  induction fields with
  | nil => rfl
  | cons f rest ih =>
    obtain ⟨a, as⟩ := t
    obtain ⟨first, others⟩ := keep
    refine collect_cons f rest ?_ (ih as others)
    rw [Member.Keeps] at first
    by_cases hidden : f.hidden a = true
    · rw [if_pos hidden] at first ⊢
      exact first
    · rw [if_neg hidden, Option.some_or]

private theorem mem_names_of_mem_write {αs : List Type} (fields : Fields αs) (t : Tuple αs)
    {p : String × Value} (hp : p ∈ fields.write t) : p.1 ∈ fields.names := by
  induction fields with
  | nil => exact absurd hp List.not_mem_nil
  | cons f rest ih =>
    obtain ⟨a, as⟩ := t
    rw [write] at hp
    split at hp
    · exact List.mem_cons_of_mem f.name (ih as hp)
    · rcases List.mem_cons.1 hp with rfl | later
      · exact List.mem_cons_self
      · exact List.mem_cons_of_mem f.name (ih as later)

theorem place_of_ne {α : Type} {αs : List Type} (f : Member α) (rest : Fields αs) (m : Medium)
    {key : String} (other : ¬key = f.name) (t : Tree) (slot : Option α) (slots : Slots αs) :
    (Fields.cons f rest).place m key t (slot, slots) =
      (rest.place m key t slots).map fun r => r.map fun slots => (slot, slots) := by
  cases slot <;> exact if_neg other

theorem readMembers_of_place {αs : List Type} {fields : Fields αs} (strict : Bool) {m : Medium}
    {key : String} {t : Tree} {slots filled : Slots αs}
    (placed : fields.place m key t slots = some (.ok filled))
    (members : List (Option String × Tree)) (closed : Bool) :
    fields.readMembers strict m ((some key, t) :: members) closed slots =
      fields.readMembers strict m members closed filled := by
  rw [readMembers, placed]
  rfl

theorem readMembers_of_skip {αs : List Type} {fields : Fields αs} {m : Medium} {key : String}
    {t : Tree} {slots : Slots αs} (unknown : fields.place m key t slots = none)
    (skip : m.canSkip t = true) (members : List (Option String × Tree)) (closed : Bool) :
    fields.readMembers false m ((some key, t) :: members) closed slots =
      fields.readMembers false m members closed slots := by
  rw [readMembers, unknown]
  exact if_pos skip

private theorem readMembers_cons {α : Type} {αs : List Type} (f : Member α) (rest : Fields αs)
    (strict : Bool) (m : Medium) {closed : Bool} {members : List (Option String × Tree)}
    (apart : ∀ p ∈ members, p.1 ≠ some f.name) (slot : Option α) {slots filled : Slots αs}
    (read : rest.readMembers strict m members closed slots = .ok filled) :
    (Fields.cons f rest).readMembers strict m members closed (slot, slots) =
      .ok (slot, filled) := by
  -- On the members: each is placed by `rest`, or is skipped, with the first slot or without it.
  induction members generalizing slots with
  | nil =>
    cases closed with
    | true =>
      cases read
      rfl
    | false => cases read
  | cons p members ih =>
    obtain ⟨first, others⟩ := List.forall_mem_cons.1 apart
    obtain ⟨_ | key, t⟩ := p
    · cases read
    · have other : ¬key = f.name := fun same => first (congrArg some same)
      have place := place_of_ne f rest m other t slot slots
      rw [readMembers] at read
      cases placed : rest.place m key t slots with
      | some r =>
        rw [placed] at read place
        cases r with
        | ok more =>
          refine (readMembers_of_place strict place members closed).trans ?_
          exact ih others read
        | error e => cases read
      | none =>
        rw [placed] at read place
        cases strict with
        | true => cases read
        | false =>
          by_cases skip : m.canSkip t = true
          · refine (readMembers_of_skip place skip members closed).trans ?_
            exact ih others (by simpa [skip] using read)
          · exact absurd read (by simp [skip])

private theorem readMembers_write {αs : List Type} (fields : Fields αs) (strict : Bool)
    (once : fields.names.Nodup) (t : Tuple αs) (keep : fields.Keep t) {m : Medium}
    (rooms : ∀ p ∈ fields.write t, m.HasRoom p.2) :
    fields.readMembers strict m (Tree.ofMembers (fields.write t)) true fields.noneYet =
      .ok (fields.filled t) := by
  induction fields with
  | nil => rfl
  | cons f rest ih =>
    obtain ⟨a, as⟩ := t
    obtain ⟨fresh, once⟩ := List.nodup_cons.1 once
    obtain ⟨first, others⟩ := keep
    have apart : ∀ p ∈ Tree.ofMembers (rest.write as), p.1 ≠ some f.name := by
      intro p hp same
      rw [Tree.ofMembers_eq] at hp
      obtain ⟨q, hq, rfl⟩ := List.mem_map.1 hp
      rw [← Option.some.inj same] at fresh
      exact fresh (mem_names_of_mem_write rest as hq)
    rw [Member.Keeps] at first
    rw [write] at rooms ⊢
    rw [filled]
    by_cases hidden : f.hidden a = true
    · rw [if_pos hidden] at rooms ⊢
      rw [if_pos hidden]
      exact readMembers_cons f rest strict m apart none (ih once as others rooms)
    · rw [if_neg hidden] at first rooms ⊢
      rw [if_neg hidden]
      obtain ⟨room, rooms⟩ := List.forall_mem_cons.1 rooms
      have read := first.reads m room
      have placed : (Fields.cons f rest).place m f.name (.ofValue (f.codec.write a))
          (none, rest.noneYet) = some (.ok (some a, rest.noneYet)) := by
        rw [place, if_pos rfl, read]
        rfl
      refine (readMembers_of_place strict placed _ true).trans ?_
      exact readMembers_cons f rest strict m apart (some a) (ih once as others rooms)

private theorem isLegible_write {αs : List Type} (fields : Fields αs) (t : Tuple αs)
    (keep : fields.Keep t) : ∀ p ∈ fields.write t, p.2.IsLegible := by
  induction fields with
  | nil => exact fun p mem => absurd mem List.not_mem_nil
  | cons f rest ih =>
    obtain ⟨a, as⟩ := t
    obtain ⟨first, others⟩ := keep
    rw [Member.Keeps] at first
    rw [write]
    by_cases hidden : f.hidden a = true
    · rw [if_pos hidden]
      exact ih as others
    · rw [if_neg hidden] at first ⊢
      exact List.forall_mem_cons.2 ⟨first.legible, ih as others⟩

end Fields

theorem Record.keeps {α : Type} (r : Record α) (once : r.fields.names.Nodup) {a : α}
    (built : r.build (r.parts a) = a) (keep : r.fields.Keep (r.parts a)) : r.codec.Keeps a := by
  refine ⟨Value.isLegible_object.2 (Fields.isLegible_write r.fields (r.parts a) keep),
    fun m room => ?_⟩
  obtain ⟨inside, enter, rooms⟩ := Medium.enter_object room
  have filled := Fields.readMembers_write r.fields r.strict once (r.parts a) keep rooms
  have read : r.fields.read r.strict m (.ofValue (.object (r.members a))) = .ok (r.parts a) := by
    rw [Tree.ofValue, Fields.read, enter]
    change (r.fields.readMembers r.strict inside (Tree.ofMembers (r.fields.write (r.parts a))) true
      r.fields.noneYet >>= r.fields.collect) = _
    rw [filled]
    exact Fields.collect_filled r.fields (r.parts a) keep
  change (r.fields.read r.strict m (.ofValue (.object (r.members a)))).map r.build = _
  rw [read]
  exact congrArg Except.ok built

/-! ### How deeply records are nested -/

def Fields.Within (levels : Nat) {αs : List Type} : Fields αs → Tuple αs → Prop
  | .nil, _ => True
  | .cons f rest, (a, as) => (f.codec.write a).depth ≤ levels ∧ rest.Within levels as

private theorem Fields.depth_write_le {levels : Nat} {αs : List Type} (fields : Fields αs)
    (t : Tuple αs) (within : fields.Within levels t) :
    ∀ p ∈ fields.write t, p.2.depth ≤ levels := by
  induction fields with
  | nil => exact fun p mem => absurd mem List.not_mem_nil
  | cons f rest ih =>
    obtain ⟨a, as⟩ := t
    obtain ⟨first, others⟩ := within
    rw [write]
    split
    · exact ih as others
    · exact List.forall_mem_cons.2 ⟨first, ih as others⟩

theorem Record.depth_write_le {α : Type} (r : Record α) {levels : Nat} {a : α}
    (within : r.fields.Within levels (r.parts a)) : (r.codec.write a).depth ≤ levels + 1 :=
  Nat.succ_le_succ
    (Value.memberDepth_le_iff.2 (Fields.depth_write_le r.fields (r.parts a) within))

/-! ### Values of several kinds -/

namespace Tagged

variable {α β : Type} {tag : String}

private theorem readVariant_of {variants : List (Variant α)} {i : Nat} {name : String} {c : Codec β}
    {wrap : β → α} {unwrap? : α → Option β}
    (listed : variants[i]? = some (.of name c wrap unwrap?)) {m : Medium} {t : Tree} {b : β}
    (read : c.read m t = .ok b) : readVariant variants i m t = .ok (wrap b) := by
  rw [readVariant, listed]
  change (c.read m t).map wrap = _
  rw [read]
  rfl

private theorem splitTag_of_found {names : List String} {m : Medium} {i : Nat}
    {members : List (String × Value)} (apart : ∀ p ∈ members, p.1 ≠ tag)
    (rooms : ∀ p ∈ members, m.HasRoom p.2) :
    splitTag tag names m (Tree.ofMembers members) true (some i) =
      .ok (i, Tree.ofMembers members) := by
  induction members with
  | nil => rfl
  | cons p members ih =>
    obtain ⟨key, v⟩ := p
    obtain ⟨other, apart⟩ := List.forall_mem_cons.1 apart
    obtain ⟨room, rooms⟩ := List.forall_mem_cons.1 rooms
    rw [Tree.ofMembers, splitTag, if_neg other, if_pos (Medium.canHold_ofValue room),
      ih apart rooms]
    rfl

private theorem write_among {variants : List (Variant α)} {a : α} {name : String}
    {members : List (String × Value)} (kind : untagged? a variants = some (name, .object members)) :
    (among tag variants).write a = .object ((tag, .string name) :: members) := by
  simp only [among, kind]

theorem depth_write_among_le {variants : List (Variant α)} {a : α} {name : String}
    {members : List (String × Value)} (kind : untagged? a variants = some (name, .object members))
    {levels : Nat} (within : (Value.object members).depth ≤ levels) :
    ((among tag variants).write a).depth ≤ levels := by
  rw [write_among kind]
  change max 0 (Value.memberDepth members) + 1 ≤ levels
  rw [Nat.zero_max]
  exact within

/-- A tag among the members of a record does not get in their way. -/
theorem keeps_among {variants : List (Variant α)} (once : (variants.map (·.name)).Nodup) (i : Nat)
    {name : String} {r : Record β} {wrap : β → α} {unwrap? : α → Option β}
    (listed : variants[i]? = some (.of name r.codec wrap unwrap?)) {b : β} {a : α}
    (kind : untagged? a variants = some (name, r.codec.write b)) (same : wrap b = a)
    (fresh : tag ∉ r.fields.names) (keeps : r.codec.Keeps b) : (among tag variants).Keeps a := by
  have written : (among tag variants).write a = .object ((tag, .string name) :: r.members b) :=
    write_among kind
  have apart : ∀ p ∈ r.members b, p.1 ≠ tag := by
    rintro p hp rfl
    exact fresh (Fields.mem_names_of_mem_write r.fields (r.parts b) hp)
  have index : nameIndex (variants.map (·.name)) name = .ok i :=
    Codec.nameIndex_of_getElem? once (by rw [List.getElem?_map, listed]; rfl)
  constructor
  · rw [written]
    exact Value.isLegible_object.2 (List.forall_mem_cons.2
      ⟨Value.isLegible_string name, Value.isLegible_object.1 keeps.legible⟩)
  · rw [written]
    intro m room
    obtain ⟨inside, enter, rooms⟩ := Medium.enter_object room
    have rooms : ∀ p ∈ r.members b, inside.HasRoom p.2 := (List.forall_mem_cons.1 rooms).2
    -- The tag is written first, so that all other members are kept after it.
    have split : splitTag tag (variants.map (·.name)) inside
        (Tree.ofMembers ((tag, .string name) :: r.members b)) true none =
          .ok (i, Tree.ofMembers (r.members b)) := by
      rw [Tree.ofMembers, splitTag, if_pos rfl, Tree.ofValue]
      change (nameIndex _ name >>= fun i => splitTag tag _ inside _ true (some i)) = _
      rw [index]
      exact splitTag_of_found apart rooms
    have body := readVariant_of listed (keeps.reads .buffer trivial)
    rw [same] at body
    change (m.enter >>= fun inside =>
      splitTag tag (variants.map (·.name)) inside
        (Tree.ofMembers ((tag, .string name) :: r.members b)) true none >>= fun p =>
          readVariant variants p.1 .buffer (.object p.2 true)) = _
    rw [enter]
    change (splitTag tag (variants.map (·.name)) inside
        (Tree.ofMembers ((tag, .string name) :: r.members b)) true none >>= fun p =>
          readVariant variants p.1 .buffer (.object p.2 true)) = _
    rw [split]
    exact body

theorem keeps_beside {content : String} (distinct : content ≠ tag) {variants : List (Variant α)}
    (once : (variants.map (·.name)).Nodup) (i : Nat) {name : String} {c : Codec β} {wrap : β → α}
    {unwrap? : α → Option β} (listed : variants[i]? = some (.of name c wrap unwrap?)) {b : β}
    {a : α} (kind : untagged? a variants = some (name, c.write b)) (same : wrap b = a)
    (keeps : c.Keeps b) : (beside tag content variants).Keeps a := by
  have written : (beside tag content variants).write a =
      .object [(tag, .string name), (content, c.write b)] := by
    simp only [beside, kind]
  have index : nameIndex (variants.map (·.name)) name = .ok i :=
    Codec.nameIndex_of_getElem? once (by rw [List.getElem?_map, listed]; rfl)
  constructor
  · rw [written]
    exact Value.isLegible_object.2 (List.forall_mem_cons.2
      ⟨Value.isLegible_string name, List.forall_mem_singleton.2 keeps.legible⟩)
  · rw [written]
    intro m room
    obtain ⟨inside, enter, rooms⟩ := Medium.enter_object room
    have room : inside.HasRoom (c.write b) :=
      rooms (content, c.write b) (List.mem_cons_of_mem _ List.mem_cons_self)
    have body := readVariant_of listed (keeps.reads inside room)
    rw [same] at body
    change (m.enter >>= fun inside => readBeside tag content variants inside
      [(some tag, .string (some name)), (some content, .ofValue (c.write b))] true) = _
    rw [enter]
    change readBeside tag content variants inside
      [(some tag, .string (some name)), (some content, .ofValue (c.write b))] true = _
    have first : nextRelevant tag content inside
        [(some tag, .string (some name)), (some content, .ofValue (c.write b))] true =
          .ok (some (true, .string (some name), [(some content, .ofValue (c.write b))])) := by
      rw [nextRelevant, if_pos rfl]
    have second : nextRelevant tag content inside [(some content, .ofValue (c.write b))] true =
        .ok (some (false, .ofValue (c.write b), [])) := by
      rw [nextRelevant, if_neg distinct, if_pos rfl]
    have read : Codec.readName (variants.map (·.name)) inside (.string (some name)) = .ok i := by
      rw [Codec.readName]
      exact index
    have third : noneRelevant tag content inside [] true = .ok () := rfl
    simp only [readBeside, first, second, third, read, body, bind, Except.bind, pure, Except.pure]

end Tagged

end SyncAccounting.Json
