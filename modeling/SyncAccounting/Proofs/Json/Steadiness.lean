import SyncAccounting.Proofs.Json.Members

/-!
What is read stays the same. A reader is steady at a value if a change of a tree that it reads the
value from is no hindrance, where the tree has been kept. It is portable if it reads the value from
a text as well as after it has been kept. Words, names and free data are read so, and so are the
records that are made of them.
-/

set_option autoImplicit false

namespace SyncAccounting.Json

open Json.Tree (Change underKey)

/-- A value that is still read after a change of what it has been read from. -/
def Steady {α : Type} (read : Reader α) (o : Outline) (a : α) : Prop :=
  ∀ ⦃t u : Tree⦄, t.isOrderly o = true → Change o t u → read .buffer t = .ok a →
    read .buffer u = .ok a

/-- A value that is read from a text as it is after it has been kept: a text holds only what is
sound, and tags in it have to be names. -/
structure Portable {α : Type} (read : Reader α) (o : Outline) (a : α) : Prop where
  keep : ∀ {depth : Nat} {t : Tree}, t.isOrderly o = true → read (.text depth) t = .ok a →
    read .buffer t = .ok a
  restore : ∀ {depth : Nat} {t : Tree}, t.isOrderly o = true → t.hasNamedTags o = true →
    t.isSound (maxDepth - depth) = true → read .buffer t = .ok a → read (.text depth) t = .ok a

/-! ### Words, names and free data -/

namespace Codec

variable {α : Type}

/-- A codec that looks at words, and at nothing but the word. -/
structure ReadsWords (c : Codec α) : Prop where
  isWord : ∀ {m : Medium} {t : Tree} {a : α}, c.read m t = .ok a → t.IsWord
  same : ∀ (m : Medium) (t : Tree), c.read m t = c.read .buffer t

theorem readsWords_string : string.ReadsWords where
  isWord {_ t _} read := by cases t with
    | array _ _ => cases read
    | object _ _ => cases read
    | _ => trivial
  same m t := by cases t with
    | string s => cases s <;> rfl
    | _ => rfl

theorem readsWords_count : count.ReadsWords where
  isWord {_ t _} read := by cases t with
    | array _ _ => cases read
    | object _ _ => cases read
    | _ => trivial
  same m t := by cases t with
    | number n => rcases n with _ | ⟨_ | _ | _⟩ <;> rfl
    | _ => rfl

theorem readsWords_real : real.ReadsWords where
  isWord {_ t _} read := by cases t with
    | array _ _ => cases read
    | object _ _ => cases read
    | _ => trivial
  same m t := by cases t with
    | number n => cases n <;> rfl
    | _ => rfl

theorem ReadsWords.optional {c : Codec α} (words : c.ReadsWords) : c.optional.ReadsWords where
  isWord {m t a} read := by
    cases t with
    | array items closed =>
      obtain ⟨b, inside, -⟩ := exists_of_map_eq_ok read
      exact words.isWord inside
    | object members closed =>
      obtain ⟨b, inside, -⟩ := exists_of_map_eq_ok read
      exact words.isWord inside
    | _ => trivial
  same m t := by cases t with
    | null => rfl
    | _ => exact congrArg (Except.map some) (words.same m _)

theorem ReadsWords.steady {c : Codec α} (words : c.ReadsWords) (o : Outline) (a : α) :
    Steady c.read o a :=
  fun _ _ _ change read => absurd change (Tree.not_change_of_isWord (words.isWord read))

theorem ReadsWords.portable {c : Codec α} (words : c.ReadsWords) (o : Outline) (a : α) :
    Portable c.read o a :=
  ⟨fun _ read => (words.same _ _).symm.trans read, fun _ _ _ read => (words.same _ _).trans read⟩

theorem steady_free (v : Value) : Steady free.read .free v := by
  intro t u orderly change read
  rw [Tree.isOrderly, Tree.fits_free] at orderly
  have value : Except.ok t.toValue = Except.ok v := read
  exact (congrArg Except.ok (Tree.toValue_of_change change orderly).1).trans value

theorem portable_free (v : Value) : Portable free.read .free v where
  keep {depth t} _ read := by
    change (if (Medium.text depth).canHold t then Except.ok t.toValue else _) = _ at read
    split at read
    · exact read
    · cases read
  restore {depth t} _ _ sound read := by
    have holds : (Medium.text depth).canHold t = true := sound
    change (if (Medium.text depth).canHold t then Except.ok t.toValue else _) = _
    rw [if_pos holds]
    exact read

private theorem isUnit_eq_ok {m : Medium} {t : Tree} (unit : isUnit m t = .ok ()) :
    t = .null ∨ t = .object [] true := by
  cases t with
  | null => exact .inl rfl
  | object members closed =>
    cases members with
    | nil => cases m <;> cases closed <;> first | exact .inr rfl | cases unit
    | cons p rest => cases m <;> cases unit
  | _ => cases m <;> cases unit

private theorem exists_of_readName_eq_ok {names : List String} {m : Medium} {t : Tree} {i : Nat}
    (read : readName names m t = .ok i) :
    t.IsWord ∨ ∃ key v closed, t = .object [(some key, v)] closed ∧
      (v = .null ∨ v = .object [] true) := by
  cases t with
  | array items closed => cases m <;> cases read
  | object members closed =>
    refine .inr ?_
    cases m with
    | text depth =>
      obtain ⟨inside, -, read⟩ := exists_of_bind_eq_ok read
      obtain _ | ⟨⟨_ | key, v⟩, rest⟩ := members
      · cases read
      · cases read
      · obtain ⟨j, -, read⟩ := exists_of_bind_eq_ok read
        obtain ⟨⟨⟩, unit, read⟩ := exists_of_bind_eq_ok read
        cases rest with
        | nil => exact ⟨key, v, closed, rfl, isUnit_eq_ok unit⟩
        | cons p rest => cases read
    | buffer | parsed =>
      obtain _ | ⟨⟨_ | key, v⟩, _ | ⟨p, rest⟩⟩ := members
      · cases read
      · cases read
      · cases read
      · obtain ⟨j, -, read⟩ := exists_of_bind_eq_ok read
        obtain ⟨⟨⟩, unit, -⟩ := exists_of_bind_eq_ok read
        exact ⟨key, v, closed, rfl, isUnit_eq_ok unit⟩
      · cases read
  | _ => exact .inl trivial

theorem eq_of_change_of_readName {names : List String} {m : Medium} {t u : Tree} {i : Nat}
    (read : readName names m t = .ok i) (change : Change .free t u) : u = t := by
  obtain word | ⟨key, v, closed, rfl, empty⟩ := exists_of_readName_eq_ok read
  · exact absurd change (Tree.not_change_of_isWord word)
  · cases change with
    | reorder order => rw [List.singleton_perm.1 order]
    | @member _ _ _ w _ _ change =>
      obtain rfl | rfl := empty
      · exact absurd change (Tree.not_change_of_isWord trivial)
      · cases change with
        | reorder order => rw [List.nil_perm.1 order]

theorem steady_named [DecidableEq α] [Inhabited α] (names : List (String × α)) (a : α) :
    Steady (named names).read .free a := by
  intro t u _ change read
  obtain ⟨i, name, -⟩ := exists_of_map_eq_ok read
  rw [eq_of_change_of_readName name change]
  exact read

end Codec

/-! ### Records -/

theorem Medium.enter_of_isSound {depth : Nat} {members : List (Option String × Tree)}
    {closed : Bool} (sound : (Tree.object members closed).isSound (maxDepth - depth) = true) :
    (text depth).enter = .ok (.text (depth + 1)) ∧ ∀ p ∈ members, ∃ key, p.1 = some key ∧
      p.2.isSound (maxDepth - (depth + 1)) = true := by
  simp only [Tree.isSound, Bool.and_eq_true, decide_eq_true_eq] at sound
  obtain ⟨⟨room, inside⟩, -⟩ := sound
  refine ⟨if_pos (by omega), fun p hp => ?_⟩
  obtain ⟨known, below⟩ := Tree.membersSound_iff.1 inside p hp
  obtain ⟨key, named⟩ := Option.isSome_iff_exists.1 known
  exact ⟨key, named, below⟩

namespace Tree

mutual

theorem isComplete_of_isSound {levels : Nat} {t : Tree} (sound : t.isSound levels = true) :
    t.isComplete = true := by
  match t with
  | broken => cases sound
  | null | bool _ | number _ | string _ => rfl
  | array items closed =>
    simp only [isSound, Bool.and_eq_true] at sound
    rw [isComplete, allComplete_of_allSound sound.1.2, sound.2]
    rfl
  | object members closed =>
    simp only [isSound, Bool.and_eq_true] at sound
    rw [isComplete, membersComplete_of_membersSound sound.1.2, sound.2]
    rfl

private theorem allComplete_of_allSound {levels : Nat} {items : List Tree}
    (sound : allSound levels items = true) : allComplete items = true := by
  match items with
  | [] => rfl
  | t :: rest =>
    rw [allSound, Bool.and_eq_true] at sound
    rw [allComplete, isComplete_of_isSound sound.1, allComplete_of_allSound sound.2]
    rfl

private theorem membersComplete_of_membersSound {levels : Nat}
    {members : List (Option String × Tree)} (sound : membersSound levels members = true) :
    membersComplete members = true := by
  match members with
  | [] => rfl
  | (_, t) :: rest =>
    rw [membersSound, Bool.and_eq_true, Bool.and_eq_true] at sound
    rw [membersComplete, isComplete_of_isSound sound.1.2, membersComplete_of_membersSound sound.2]
    rfl

end

theorem fits_of_mem_underKey {free tag : Tree → Bool} {known : List (String × Outline)}
    {members : List (Option String × Tree)} {closed : Bool}
    (fits : (object members closed).fits free tag (.object known) = true) {key : String}
    {o : Outline} (listed : known.lookup key = some o) {t : Tree}
    (under : t ∈ underKey key members) :
    t.fits free tag o = true := by
  obtain ⟨_, _, same, inside⟩ := fits_object.1 fits
  cases same
  exact inside (some key, t) (mem_of_mem_underKey under) o listed

theorem exists_of_change_object {o : Outline} {members : List (Option String × Tree)}
    {closed : Bool} {u : Tree} (change : Change o (object members closed) u) :
    ∃ others, u = object others closed ∧
      ((∀ p ∈ members, p.1.isSome = true) → ∀ p ∈ others, p.1.isSome = true) := by
  cases change with
  | reorder order => exact ⟨_, rfl, fun keys p hp => keys p (order.mem_iff.2 hp)⟩
  | insert unknown => exact ⟨_, rfl, fun keys => List.forall_mem_cons.2 ⟨rfl, keys⟩⟩
  | member change =>
    exact ⟨_, rfl, fun keys => List.forall_mem_cons.2 ⟨rfl, (List.forall_mem_cons.1 keys).2⟩⟩

theorem underKey_of_change {known : List (String × Outline)} {key : String} {o : Outline}
    (listed : known.lookup key = some o) {members others : List (Option String × Tree)}
    {closed : Bool}
    (change : Change (.object known) (object members closed) (object others closed)) :
    (underKey key members).Perm (underKey key others) ∨
      ∃ t u rest, underKey key members = t :: rest ∧ underKey key others = u :: rest ∧
        Change o t u := by
  cases change with
  | reorder order => exact .inl (underKey_perm key order)
  | @insert _ other _ _ _ unknown =>
    refine .inl (.of_eq (underKey_cons_of_ne (fun same => ?_) _).symm)
    cases same
    rw [listed] at unknown
    cases unknown
  | @member _ other t u rest _ change =>
    by_cases same : other = key
    · subst same
      refine .inr ⟨t, u, underKey other rest, underKey_cons_self _ _ _,
        underKey_cons_self _ _ _, ?_⟩
      rw [Outline.under, listed] at change
      exact change
    · have apart : (some other : Option String) ≠ some key := fun h => same (Option.some.inj h)
      exact .inl (.of_eq ((underKey_cons_of_ne apart _).trans (underKey_cons_of_ne apart _).symm))

end Tree

namespace Fields

/-- The codec of each member is as a property of it, of the outline under its name and of its part
says. -/
def Each (P : {α : Type} → Reader α → Outline → α → Prop) (known : List (String × Outline))
    {αs : List Type} : Fields αs → Tuple αs → Prop
  | .nil, _ => True
  | .cons f rest, (a, as) =>
    (∃ o, known.lookup f.name = some o ∧ P f.codec.read o a) ∧ rest.Each P known as

private theorem Get.imp {P : {α : Type} → Reader α → Outline → α → Prop}
    {known : List (String × Outline)} {m n : Medium} {members others : List (Option String × Tree)}
    (step : ∀ {α : Type} (f : Member α) (o : Outline) (a : α), known.lookup f.name = some o →
      P f.codec.read o a → f.Gets m (underKey f.name members) a →
        f.Gets n (underKey f.name others) a)
    {αs : List Type} {fields : Fields αs} {as : Tuple αs} (each : fields.Each P known as)
    (get : fields.Get m members as) : fields.Get n others as := by
  induction fields with
  | nil => trivial
  | cons f rest ih =>
    obtain ⟨a, as⟩ := as
    obtain ⟨⟨o, listed, holds⟩, later⟩ := each
    exact ⟨step f o a listed holds get.1, ih later get.2⟩

end Fields

namespace Member.Gets

variable {α : Type} {f : Member α} {m n : Medium} {a : α}

private theorem imp {trees : List Tree}
    (step : ∀ t ∈ trees, f.codec.read m t = .ok a → f.codec.read n t = .ok a)
    (gets : f.Gets m trees a) : f.Gets n trees a := by
  match trees with
  | [] => exact gets
  | [t] => exact step t List.mem_cons_self gets
  | _ :: _ :: _ => exact gets

private theorem of_change {known : List (String × Outline)} {o : Outline}
    (listed : known.lookup f.name = some o) (steady : Steady f.codec.read o a)
    {members others : List (Option String × Tree)} {closed : Bool}
    (orderly : (Tree.object members closed).isOrderly (.object known) = true)
    (change : Change (.object known) (.object members closed) (.object others closed))
    (gets : f.Gets .buffer (underKey f.name members) a) :
    f.Gets .buffer (underKey f.name others) a := by
  obtain same | ⟨t, u, rest, before, after, change⟩ := Tree.underKey_of_change listed change
  · match trees : underKey f.name members with
    | [] =>
      rw [trees] at gets same
      rw [List.nil_perm.1 same]
      exact gets
    | [t] =>
      rw [trees] at gets same
      rw [← List.singleton_perm.1 same]
      exact gets
    | _ :: _ :: _ =>
      rw [trees] at gets
      exact gets.elim
  · have inside := Tree.fits_of_mem_underKey orderly listed (before ▸ List.mem_cons_self)
    rw [before] at gets
    rw [after]
    match rest with
    | [] => exact steady inside change gets
    | _ :: _ => exact gets.elim

end Member.Gets

namespace Record

variable {α : Type} {r : Record α} {known : List (String × Outline)} {a : α}

private theorem read_object_eq_ok_iff (loose : r.strict = false) (once : r.fields.names.Nodup)
    {m : Medium} {members : List (Option String × Tree)} {closed : Bool} :
    r.codec.read m (.object members closed) = .ok a ↔
      ∃ inside as, m.enter = .ok inside ∧ closed = true ∧
        (∀ p ∈ members, Passes inside.canSkip r.fields.names p) ∧
        r.fields.Get inside members as ∧ r.build as = a := by
  change (r.fields.read r.strict m (.object members closed)).map r.build = .ok a ↔ _
  rw [loose]
  constructor
  · intro read
    obtain ⟨as, read, built⟩ := exists_of_map_eq_ok read
    obtain ⟨inside, enter, closes, all, get⟩ := (Fields.read_object_eq_ok_iff once).1 read
    exact ⟨inside, as, enter, closes, all, get, built⟩
  · rintro ⟨inside, as, enter, closes, all, get, rfl⟩
    rw [(Fields.read_object_eq_ok_iff once).2 ⟨inside, enter, closes, all, get⟩]
    rfl

theorem steady (loose : r.strict = false) (once : r.fields.names.Nodup)
    (each : ∀ as, r.build as = a → r.fields.Each Steady known as) :
    Steady r.codec.read (.object known) a := by
  intro t u orderly change read
  obtain ⟨members, closed, rfl, inside⟩ := Tree.fits_object.1 orderly
  obtain ⟨others, rfl, keys⟩ := Tree.exists_of_change_object change
  obtain ⟨_, as, enter, closes, all, get, built⟩ := (read_object_eq_ok_iff loose once).1 read
  cases enter
  refine (read_object_eq_ok_iff loose once).2 ⟨.buffer, as, rfl, closes, fun p hp => ?_, ?_, built⟩
  · have known := keys (fun q hq => Option.isSome_iff_exists.2 ((all q hq).imp fun _ => And.left))
    obtain ⟨key, named⟩ := Option.isSome_iff_exists.1 (known p hp)
    exact ⟨key, named, fun _ => rfl⟩
  · exact Fields.Get.imp (fun f o a listed steady => .of_change listed steady orderly change)
      (each as built) get

theorem portable (loose : r.strict = false) (once : r.fields.names.Nodup)
    (each : ∀ as, r.build as = a → r.fields.Each Portable known as) :
    Portable r.codec.read (.object known) a where
  keep {depth t} orderly read := by
    obtain ⟨members, closed, rfl, -⟩ := Tree.fits_object.1 orderly
    obtain ⟨inside, as, enter, closes, all, get, built⟩ := (read_object_eq_ok_iff loose once).1 read
    obtain ⟨-, rfl⟩ := Medium.eq_of_enter_text enter
    refine (read_object_eq_ok_iff loose once).2
      ⟨.buffer, as, rfl, closes, fun p hp => ?_, ?_, built⟩
    · obtain ⟨key, named, -⟩ := all p hp
      exact ⟨key, named, fun _ => rfl⟩
    · refine Fields.Get.imp (fun f o a listed portable gets => gets.imp fun t ht read => ?_)
        (each as built) get
      exact portable.keep (Tree.fits_of_mem_underKey orderly listed ht) read
  restore {depth t} orderly named sound read := by
    obtain ⟨members, closed, rfl, -⟩ := Tree.fits_object.1 orderly
    obtain ⟨_, as, enter, closes, -, get, built⟩ := (read_object_eq_ok_iff loose once).1 read
    cases enter
    obtain ⟨room, inside⟩ := Medium.enter_of_isSound sound
    refine (read_object_eq_ok_iff loose once).2
      ⟨.text (depth + 1), as, room, closes, fun p hp => ?_, ?_, built⟩
    · obtain ⟨key, named, below⟩ := inside p hp
      exact ⟨key, named, fun _ => Tree.isComplete_of_isSound below⟩
    · refine Fields.Get.imp (fun f o a listed portable gets => gets.imp fun t ht read => ?_)
        (each as built) get
      obtain ⟨-, -, below⟩ := inside _ (Tree.mem_of_mem_underKey ht)
      exact portable.restore (Tree.fits_of_mem_underKey orderly listed ht)
        (Tree.fits_of_mem_underKey named listed ht) below read

end Record

end SyncAccounting.Json
