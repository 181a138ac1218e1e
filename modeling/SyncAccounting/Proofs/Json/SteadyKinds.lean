import SyncAccounting.Proofs.Json.Steadiness
import SyncAccounting.Proofs.Json.Tags

/-!
Values of several kinds stay the same. A value with the tag among its members is steady if it is so
as each kind, and it is portable as it is, because all that is beside the tag has been kept anyway.
A value with the tag beside it is read from a text in whatever order they come.
-/

set_option autoImplicit false

namespace SyncAccounting.Json

open Json.Tree (Change underKey)

theorem Variant.steady_of {α β : Type} {name : String} {c : Codec β} {wrap : β → α}
    {unwrap? : α → Option β} {o : Outline} {a : α}
    (steady : ∀ b, wrap b = a → Steady c.read o b) :
    Steady (Variant.of name c wrap unwrap?).read o a := by
  intro t u orderly change read
  obtain ⟨b, read, same⟩ := exists_of_map_eq_ok read
  have later := steady b same orderly change read
  exact (congrArg (Except.map wrap) later).trans (congrArg Except.ok same)

theorem Variant.portable_of {α β : Type} {name : String} {c : Codec β} {wrap : β → α}
    {unwrap? : α → Option β} {o : Outline} {a : α}
    (portable : ∀ b, wrap b = a → Portable c.read o b) :
    Portable (Variant.of name c wrap unwrap?).read o a where
  keep orderly read := by
    obtain ⟨b, read, same⟩ := exists_of_map_eq_ok read
    have kept := (portable b same).keep orderly read
    exact (congrArg (Except.map wrap) kept).trans (congrArg Except.ok same)
  restore orderly named sound read := by
    obtain ⟨b, read, same⟩ := exists_of_map_eq_ok read
    have restored := (portable b same).restore orderly named sound read
    exact (congrArg (Except.map wrap) restored).trans (congrArg Except.ok same)

/-! ### A tag among the members -/

namespace Codec

private theorem isWord_of_readTag {names : List String} {m : Medium} {t : Tree} {i : Nat}
    (read : readTag names m t = .ok i) : t.IsWord := by
  cases t with
  | array items closed => cases m <;> cases read
  | object members closed => cases m <;> cases read
  | _ => trivial

private theorem readTag_of_text {names : List String} {depth : Nat} {t : Tree} {i : Nat}
    (read : readTag names (.text depth) t = .ok i) : readTag names .buffer t = .ok i := by
  cases t with
  | string s =>
    cases s with
    | some name => exact read
    | none => cases read
  | number n => rcases n with _ | (_ | _ | _) <;> cases read
  | _ => cases read

private theorem readTag_of_isName {names : List String} {m n : Medium} {t : Tree} {i : Nat}
    (name : t.isName = true) (read : readTag names m t = .ok i) : readTag names n t = .ok i := by
  cases t with
  | string s =>
    cases s with
    | some name => exact read
    | none => cases read
  | _ => cases name

end Codec

namespace Tagged

variable {α : Type} {tag content : String} {variants : List (Variant α)}
  {known : List (String × Outline)} {a : α}

private theorem readVariant_eq_ok_iff {i : Nat} {m : Medium} {t : Tree} :
    readVariant variants i m t = .ok a ↔ ∃ v, variants[i]? = some v ∧ v.read m t = .ok a := by
  rw [readVariant]
  cases variants[i]? with
  | none =>
    constructor
    · intro read
      cases read
    · rintro ⟨_, found, -⟩
      cases found
  | some v =>
    constructor
    · exact fun read => ⟨v, rfl, read⟩
    · rintro ⟨_, same, read⟩
      cases same
      exact read

private theorem lookup_cons_of_ne {key : String} (apart : key ≠ tag) (o : Outline) :
    List.lookup key ((tag, o) :: known) = known.lookup key := by
  rw [List.lookup_cons, beq_eq_false_iff_ne.2 apart]

private theorem filter_of_change {members others : List (Option String × Tree)} {closed : Bool}
    (change : Change (.object ((tag, .tag) :: known)) (.object members closed)
      (.object others closed)) :
    others.filter (fun p => p.1 ≠ some tag) = members.filter (fun p => p.1 ≠ some tag) ∨
      Change (.object known) (.object (members.filter fun p => p.1 ≠ some tag) true)
        (.object (others.filter fun p => p.1 ≠ some tag) true) := by
  cases change with
  | reorder order => exact .inr (.reorder (order.filter _))
  | @insert _ key t _ _ unknown =>
    have apart : key ≠ tag := by
      rintro rfl
      rw [List.lookup_cons_self] at unknown
      cases unknown
    rw [lookup_cons_of_ne apart] at unknown
    rw [List.filter_cons_of_pos (by simpa using apart)]
    exact .inr (.insert unknown)
  | @member _ key t u rest _ change =>
    by_cases here : key = tag
    · rw [List.filter_cons_of_neg (by simpa using here),
        List.filter_cons_of_neg (by simpa using here)]
      exact .inl rfl
    · rw [Outline.under, lookup_cons_of_ne here] at change
      rw [List.filter_cons_of_pos (by simpa using here),
        List.filter_cons_of_pos (by simpa using here)]
      exact .inr (.member change)

private theorem isOrderly_filter {members : List (Option String × Tree)} {closed : Bool}
    (orderly : (Tree.object members closed).isOrderly (.object ((tag, .tag) :: known)) = true) :
    (Tree.object (members.filter fun p => p.1 ≠ some tag) true).isOrderly (.object known) =
      true := by
  obtain ⟨_, _, same, inside⟩ := Tree.fits_object.1 orderly
  cases same
  refine Tree.fits_object.2 ⟨_, _, rfl, fun p hp o found => ?_⟩
  obtain ⟨mem, apart⟩ := List.mem_filter.1 hp
  obtain ⟨key, named, listed⟩ := Option.bind_eq_some_iff.1 found
  have other : key ≠ tag := by
    rintro rfl
    simp [named] at apart
  refine inside p mem o (Option.bind_eq_some_iff.2 ⟨key, named, ?_⟩)
  rw [lookup_cons_of_ne other, listed]

theorem steady_among (kinds : ∀ v ∈ variants, Steady v.read (.object known) a) :
    Steady (among tag variants).read (.object ((tag, .tag) :: known)) a := by
  intro t u orderly change read
  obtain ⟨members, closed, rfl, inside⟩ := Tree.fits_object.1 orderly
  obtain ⟨others, rfl, keys⟩ := Tree.exists_of_change_object change
  obtain ⟨_, t, i, enter, closes, all, under, tagged, read⟩ := read_among_object_iff.1 read
  cases enter
  have tags : underKey tag others = [t] := by
    obtain same | ⟨w, u, rest, before, -, change⟩ :=
      Tree.underKey_of_change List.lookup_cons_self change
    · rw [under] at same
      exact (List.singleton_perm.1 same).symm
    · rw [under] at before
      cases before
      exact absurd change (Tree.not_change_of_isWord (Codec.isWord_of_readTag tagged))
  refine read_among_object_iff.2 ⟨.buffer, t, i, rfl, closes, fun p hp => ?_, tags, tagged, ?_⟩
  · have known := keys (fun q hq => Option.isSome_iff_exists.2 ((all q hq).imp fun _ => And.left))
    obtain ⟨key, named⟩ := Option.isSome_iff_exists.1 (known p hp)
    exact ⟨key, named, fun _ => rfl⟩
  · obtain ⟨v, listed, read⟩ := readVariant_eq_ok_iff.1 read
    refine readVariant_eq_ok_iff.2 ⟨v, listed, ?_⟩
    obtain same | change := filter_of_change change
    · rw [same]
      exact read
    · exact kinds v (List.mem_of_getElem? listed) (isOrderly_filter orderly) change read

/-- A tag that is a name is read where it stands, and all else has been kept anyway. -/
theorem portable_among :
    Portable (among tag variants).read (.object ((tag, .tag) :: known)) a where
  keep {depth t} orderly read := by
    obtain ⟨members, closed, rfl, -⟩ := Tree.fits_object.1 orderly
    obtain ⟨inside, t, i, enter, closes, all, under, tagged, read⟩ := read_among_object_iff.1 read
    obtain ⟨-, rfl⟩ := Medium.eq_of_enter_text enter
    refine read_among_object_iff.2 ⟨.buffer, t, i, rfl, closes, fun p hp => ?_, under,
      Codec.readTag_of_text tagged, read⟩
    obtain ⟨key, named, -⟩ := all p hp
    exact ⟨key, named, fun _ => rfl⟩
  restore {depth t} orderly named sound read := by
    obtain ⟨members, closed, rfl, -⟩ := Tree.fits_object.1 orderly
    obtain ⟨_, t, i, enter, closes, -, under, tagged, read⟩ := read_among_object_iff.1 read
    cases enter
    obtain ⟨room, inside⟩ := Medium.enter_of_isSound sound
    have name : t.isName = true := by
      have fits := Tree.fits_of_mem_underKey (o := .tag) named List.lookup_cons_self
        (under ▸ List.mem_cons_self)
      rwa [Tree.fits_tag] at fits
    refine read_among_object_iff.2 ⟨.text (depth + 1), t, i, room, closes, fun p hp => ?_, under,
      Codec.readTag_of_isName name tagged, read⟩
    obtain ⟨key, named, below⟩ := inside p hp
    exact ⟨key, named, fun _ => below⟩

/-! ### A tag beside the value -/

section Beside

/-- An object with one tag and one content, which is read as a value after it has been kept. -/
def Means (tag content : String) (variants : List (Variant α)) (m : Medium) (a : α)
    (t : Tree) : Prop :=
  ∃ members closed name body i, t = .object members closed ∧
    underKey tag members = [name] ∧ underKey content members = [body] ∧
    Codec.readName (variants.map (·.name)) m name = .ok i ∧
    readVariant variants i .buffer body = .ok a

variable {o : Outline} {m : Medium} {t u : Tree}

private theorem means_of_read (distinct : tag ≠ content) (listed : known.lookup content = some o)
    (portable : ∀ v ∈ variants, Portable v.read o a) {depth : Nat}
    (orderly : t.isOrderly (.object known) = true)
    (read : (beside tag content variants).read (.text depth) t = .ok a) :
    Means tag content variants (.text (depth + 1)) a t := by
  obtain ⟨members, closed, rfl, -⟩ := Tree.fits_object.1 orderly
  obtain ⟨inside, enter, read⟩ := exists_of_bind_eq_ok read
  obtain ⟨-, rfl⟩ := Medium.eq_of_enter_text enter
  obtain ⟨name, body, i, tags, contents, named, read⟩ := exists_of_readBeside_eq_ok distinct read
  refine ⟨members, closed, name, body, i, rfl, tags, contents, named, ?_⟩
  obtain read | kept := read
  · obtain ⟨v, kind, read⟩ := readVariant_eq_ok_iff.1 read
    have inside := Tree.fits_of_mem_underKey orderly listed (contents ▸ List.mem_cons_self)
    exact readVariant_eq_ok_iff.2
      ⟨v, kind, (portable v (List.mem_of_getElem? kind)).keep inside read⟩
  · exact kept

private theorem Means.of_change (free : known.lookup tag = some .free)
    (listed : known.lookup content = some o) (steady : ∀ v ∈ variants, Steady v.read o a)
    (orderly : t.isOrderly (.object known) = true) (change : Change (.object known) t u)
    (means : Means tag content variants m a t) : Means tag content variants m a u := by
  obtain ⟨members, closed, name, body, i, rfl, tags, contents, named, read⟩ := means
  obtain ⟨others, rfl, -⟩ := Tree.exists_of_change_object change
  have sameTag : underKey tag others = [name] := by
    obtain same | ⟨w, v, rest, before, after, change⟩ := Tree.underKey_of_change free change
    · rw [tags] at same
      exact (List.singleton_perm.1 same).symm
    · rw [tags] at before
      cases before
      rw [after, Codec.eq_of_change_of_readName named change]
  obtain same | ⟨w, v, rest, before, after, change⟩ := Tree.underKey_of_change listed change
  · rw [contents] at same
    exact ⟨others, closed, name, body, i, rfl, sameTag, (List.singleton_perm.1 same).symm, named,
      read⟩
  · rw [contents] at before
    cases before
    obtain ⟨kind, place, read⟩ := readVariant_eq_ok_iff.1 read
    have inside := Tree.fits_of_mem_underKey orderly listed (contents ▸ List.mem_cons_self)
    exact ⟨others, closed, name, v, i, rfl, sameTag, after, named, readVariant_eq_ok_iff.2
      ⟨kind, place, steady kind (List.mem_of_getElem? place) inside change read⟩⟩

private theorem Means.read (distinct : tag ≠ content) (listed : known.lookup content = some o)
    (portable : ∀ v ∈ variants, Portable v.read o a) {depth : Nat}
    (orderly : t.isOrderly (.object known) = true) (sound : t.isSound (maxDepth - depth) = true)
    (order : t.hasNamedTags (.object known) = true ∨ [some content, some tag].Sublist t.keys)
    (means : Means tag content variants (.text (depth + 1)) a t) :
    (beside tag content variants).read (.text depth) t = .ok a := by
  obtain ⟨members, closed, name, body, i, rfl, tags, contents, named, kept⟩ := means
  obtain ⟨room, inside⟩ := Medium.enter_of_isSound sound
  have under : body ∈ underKey content members := contents ▸ List.mem_cons_self
  obtain ⟨-, -, below⟩ := inside _ (Tree.mem_of_mem_underKey under)
  have closes : closed = true := by
    rw [Tree.isSound, Bool.and_eq_true] at sound
    exact sound.2
  subst closes
  change ((Medium.text depth).enter >>= fun inside =>
    readBeside tag content variants inside members true) = _
  rw [room]
  refine readBeside_eq_ok distinct (fun p hp => ?_) tags contents named below kept
    (order.imp_left fun names => ?_)
  · obtain ⟨key, named, below⟩ := inside p hp
    exact ⟨key, named, fun _ => Tree.isComplete_of_isSound below⟩
  · obtain ⟨v, kind, read⟩ := readVariant_eq_ok_iff.1 kept
    exact readVariant_eq_ok_iff.2 ⟨v, kind, (portable v (List.mem_of_getElem? kind)).restore
      (Tree.fits_of_mem_underKey orderly listed under)
      (Tree.fits_of_mem_underKey names listed under) below read⟩

/-- A value with its tag beside it is read from a text however its tree is rearranged. Tags inside
the value have to be names, or else the value stays in front of its own tag. -/
theorem read_beside_of_rearranged (distinct : tag ≠ content) (free : known.lookup tag = some .free)
    (listed : known.lookup content = some o) (steady : ∀ v ∈ variants, Steady v.read o a)
    (portable : ∀ v ∈ variants, Portable v.read o a) {depth : Nat}
    (orderly : t.isOrderly (.object known) = true)
    (rearranged : Tree.Rearranged (.object known) t u)
    (sound : u.isSound (maxDepth - depth) = true)
    (order : u.hasNamedTags (.object known) = true ∨ [some content, some tag].Sublist u.keys)
    (read : (beside tag content variants).read (.text depth) t = .ok a) :
    (beside tag content variants).read (.text depth) u = .ok a := by
  have means := means_of_read distinct listed portable orderly read
  have kept : u.isOrderly (.object known) = true ∧
      Means tag content variants (.text (depth + 1)) a u := by
    clear sound order
    induction rearranged with
    | refl => exact ⟨orderly, means⟩
    | tail _ change ih =>
      exact ⟨Tree.isOrderly_of_change ih.1 change, ih.2.of_change free listed steady ih.1 change⟩
  exact kept.2.read distinct listed portable kept.1 sound order

end Beside

end Tagged

end SyncAccounting.Json
