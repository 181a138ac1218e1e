import SyncAccounting.Proofs.Json.Members

/-!
Tags by their keys. A value of several kinds is read from an object by the one tree under its tag,
and, where the tag stands beside the value, by the one tree under the key of the value. Which of
these comes first decides whether the value is read where it stands or after it has been kept.
-/

set_option autoImplicit false

namespace SyncAccounting.Json

open Json.Tree (underKey underKey_cons_self underKey_cons_of_ne underKey_append
  underKey_eq_nil_iff)

/-! ### A tag among the members -/

namespace Tagged

variable {α : Type} {tag content : String} {names : List String} {variants : List (Variant α)}
  {m : Medium} {members : List (Option String × Tree)} {closed : Bool} {a : α}

section SplitTag

variable {key : String} {t : Tree} {i : Nat} {found : Option Nat}
  {others : List (Option String × Tree)}

private theorem splitTag_nil_eq_ok_iff :
    splitTag tag names m [] closed found = .ok (i, others) ↔
      closed = true ∧ others = [] ∧ found = some i := by
  cases closed with
  | false =>
    constructor
    · intro split
      cases split
    · rintro ⟨never, -⟩
      cases never
  | true =>
    cases found with
    | none =>
      constructor
      · intro split
        cases split
      · rintro ⟨-, -, never⟩
        cases never
    | some j =>
      constructor
      · intro split
        cases split
        exact ⟨rfl, rfl, rfl⟩
      · rintro ⟨-, rfl, same⟩
        cases same
        rfl

private theorem splitTag_cons_tag_eq_ok_iff :
    splitTag tag names m ((some tag, t) :: members) closed found = .ok (i, others) ↔
      found = none ∧ ∃ j, Codec.readTag names m t = .ok j ∧
        splitTag tag names m members closed (some j) = .ok (i, others) := by
  rw [splitTag.eq_def]
  dsimp only
  rw [if_pos rfl]
  cases found with
  | some j =>
    constructor
    · intro split
      cases split
    · rintro ⟨never, -⟩
      cases never
  | none =>
    constructor
    · exact fun split => ⟨rfl, exists_of_bind_eq_ok split⟩
    · rintro ⟨-, j, read, split⟩
      rw [read]
      exact split

private theorem splitTag_cons_other_eq_ok_iff (other : key ≠ tag) :
    splitTag tag names m ((some key, t) :: members) closed found = .ok (i, others) ↔
      m.canHold t = true ∧ ∃ rest, others = (some key, t) :: rest ∧
        splitTag tag names m members closed found = .ok (i, rest) := by
  rw [splitTag.eq_def]
  dsimp only
  rw [if_neg other]
  cases holds : m.canHold t with
  | false =>
    constructor
    · intro split
      cases split
    · rintro ⟨never, -⟩
      cases never
  | true =>
    rw [if_pos rfl]
    constructor
    · intro split
      obtain ⟨⟨j, rest⟩, later, same⟩ := exists_of_bind_eq_ok split
      cases same
      exact ⟨rfl, rest, rfl, later⟩
    · rintro ⟨-, rest, rfl, later⟩
      rw [later]
      rfl

/-- A tag is split off where it is the one tree under its key and all other members can be kept. -/
private theorem splitTag_eq_ok_iff :
    splitTag tag names m members closed found = .ok (i, others) ↔
      closed = true ∧ (∀ p ∈ members, Passes m.canHold [tag] p) ∧
        others = members.filter (fun p => p.1 ≠ some tag) ∧
        Fills (Codec.readTag names) m (underKey tag members) found (some i) := by
  induction members generalizing found others with
  | nil =>
    rw [splitTag_nil_eq_ok_iff, List.filter_nil]
    constructor
    · rintro ⟨closes, rfl, rfl⟩
      exact ⟨closes, fun _ mem => absurd mem List.not_mem_nil, rfl, rfl⟩
    · rintro ⟨closes, -, rfl, same⟩
      exact ⟨closes, rfl, Eq.symm same⟩
  | cons p members ih =>
    obtain ⟨_ | key, t⟩ := p
    · constructor
      · intro split
        cases split
      · rintro ⟨-, all, -⟩
        obtain ⟨_, named, -⟩ := all _ List.mem_cons_self
        cases named
    rw [List.forall_mem_cons]
    by_cases here : key = tag
    · subst here
      have passes : Passes m.canHold [key] (some key, t) :=
        ⟨key, rfl, fun other => absurd (List.mem_singleton_self key) other⟩
      rw [splitTag_cons_tag_eq_ok_iff, underKey_cons_self, List.filter_cons_of_neg (by simp)]
      constructor
      · rintro ⟨rfl, j, read, split⟩
        obtain ⟨closes, all, same, fill⟩ := ih.1 split
        exact ⟨closes, ⟨passes, all⟩, same, fills_cons.2 ⟨j, read, fill⟩⟩
      · rintro ⟨closes, ⟨-, all⟩, same, fill⟩
        cases found with
        | some j => cases (fills_some.1 fill).1
        | none =>
          obtain ⟨j, read, fill⟩ := fills_cons.1 fill
          exact ⟨rfl, j, read, ih.2 ⟨closes, all, same, fill⟩⟩
    · have apart : (some key : Option String) ≠ some tag := fun same => here (Option.some.inj same)
      rw [splitTag_cons_other_eq_ok_iff here, underKey_cons_of_ne apart,
        List.filter_cons_of_pos (by simpa using here)]
      constructor
      · rintro ⟨holds, rest, rfl, split⟩
        obtain ⟨closes, all, rfl, fill⟩ := ih.1 split
        exact ⟨closes, ⟨⟨key, rfl, fun _ => holds⟩, all⟩, rfl, fill⟩
      · rintro ⟨closes, ⟨⟨_, named, holds⟩, all⟩, rfl, fill⟩
        cases named
        exact ⟨holds (by simpa using here), _, rfl, ih.2 ⟨closes, all, rfl, fill⟩⟩

end SplitTag

theorem read_among_object_iff :
    (among tag variants).read m (.object members closed) = .ok a ↔
      ∃ inside t i, m.enter = .ok inside ∧ closed = true ∧
        (∀ p ∈ members, Passes inside.canHold [tag] p) ∧ underKey tag members = [t] ∧
        Codec.readTag (variants.map (·.name)) inside t = .ok i ∧
        readVariant variants i .buffer
          (.object (members.filter fun p => p.1 ≠ some tag) true) = .ok a := by
  constructor
  · intro read
    obtain ⟨inside, enter, read⟩ := exists_of_bind_eq_ok read
    obtain ⟨⟨i, others⟩, split, read⟩ := exists_of_bind_eq_ok read
    obtain ⟨closes, all, rfl, fill⟩ := splitTag_eq_ok_iff.1 split
    obtain ⟨t, under, tagged⟩ := fills_none_some.1 fill
    exact ⟨inside, t, i, enter, closes, all, under, tagged, read⟩
  · rintro ⟨inside, t, i, enter, closes, all, under, tagged, read⟩
    have split := splitTag_eq_ok_iff.2 ⟨closes, all, rfl, fills_none_some.2 ⟨t, under, tagged⟩⟩
    change (m.enter >>= fun inside =>
      splitTag tag (variants.map (·.name)) inside members closed none >>= fun p =>
        readVariant variants p.1 .buffer (.object p.2 true)) = _
    rw [enter]
    change (splitTag tag (variants.map (·.name)) inside members closed none >>= fun p =>
      readVariant variants p.1 .buffer (.object p.2 true)) = _
    rw [split]
    exact read

/-! ### A tag beside the value -/

end Tagged

namespace Tree

variable {members : List (Option String × Tree)}

private theorem underKey_two {first second : String} (distinct : first ≠ second) {t u : Tree}
    {before between after : List (Option String × Tree)} (noFirst : underKey first before = [])
    (noSecond : underKey second before = []) (noFirst' : underKey first between = [])
    (noSecond' : underKey second between = []) (noFirst'' : underKey first after = [])
    (noSecond'' : underKey second after = []) :
    underKey first (before ++ (some first, t) :: (between ++ (some second, u) :: after)) = [t] ∧
      underKey second (before ++ (some first, t) :: (between ++ (some second, u) :: after)) =
        [u] := by
  have apart : (some first : Option String) ≠ some second :=
    fun same => distinct (Option.some.inj same)
  constructor
  · rw [underKey_append, underKey_cons_self, underKey_append, underKey_cons_of_ne apart.symm,
      noFirst, noFirst', noFirst'']
    rfl
  · rw [underKey_append, underKey_cons_of_ne apart, underKey_append, underKey_cons_self,
      noSecond, noSecond', noSecond'']
    rfl

private theorem exists_of_underKey_eq_singletons {first second : String} (distinct : first ≠ second)
    {t u : Tree} (one : underKey first members = [t]) (other : underKey second members = [u]) :
    ∃ before between after, underKey first before = [] ∧ underKey second before = [] ∧
      underKey first between = [] ∧ underKey second between = [] ∧
      underKey first after = [] ∧ underKey second after = [] ∧
      (members = before ++ (some first, t) :: (between ++ (some second, u) :: after) ∨
        members = before ++ (some second, u) :: (between ++ (some first, t) :: after)) := by
  have apart : (some first : Option String) ≠ some second :=
    fun same => distinct (Option.some.inj same)
  obtain ⟨before, after, rfl, noFirst, noMore⟩ := exists_of_underKey_eq_cons one
  rw [underKey_append, underKey_cons_of_ne apart] at other
  rcases List.append_eq_singleton_iff.1 other with ⟨notBefore, later⟩ | ⟨sooner, notAfter⟩
  · obtain ⟨between, rest, rfl, noSecond, nothing⟩ := exists_of_underKey_eq_cons later
    rw [underKey_append, underKey_cons_of_ne apart.symm, List.append_eq_nil_iff] at noMore
    exact ⟨before, between, rest, noFirst, notBefore, noMore.1, noSecond, noMore.2, nothing,
      .inl rfl⟩
  · obtain ⟨start, between, rfl, noSecond, nothing⟩ := exists_of_underKey_eq_cons sooner
    rw [underKey_append, underKey_cons_of_ne apart.symm, List.append_eq_nil_iff] at noFirst
    refine ⟨start, between, after, noFirst.1, noSecond, noFirst.2, nothing, noMore, notAfter,
      .inr ?_⟩
    rw [List.append_assoc, List.cons_append]

private theorem not_sublist_keys {first second : String} (distinct : first ≠ second) {t : Tree}
    {before after : List (Option String × Tree)} (noSecond : underKey second before = [])
    (noFirst : underKey first after = []) :
    ¬[some second, some first].Sublist ((before ++ (some first, t) :: after).map Prod.fst) := by
  have absent : ∀ (key : String) (members : List (Option String × Tree)),
      underKey key members = [] → some key ∉ members.map Prod.fst := by
    intro key members noTree mem
    obtain ⟨p, hp, same⟩ := List.mem_map.1 mem
    exact underKey_eq_nil_iff.1 noTree p hp same
  have apart : (some second : Option String) ≠ some first :=
    fun same => distinct (Option.some.inj same).symm
  intro sublist
  rw [List.map_append, List.map_cons, List.sublist_append_iff] at sublist
  obtain ⟨_ | ⟨key, front⟩, back, same, early, late⟩ := sublist
  · cases same
    have later := List.Sublist.of_cons_of_ne apart late
    exact absent first after noFirst (later.subset (List.mem_cons_of_mem _ List.mem_cons_self))
  · rw [List.cons_append, List.cons.injEq] at same
    rw [← same.1] at early
    exact absent second before noSecond (early.subset List.mem_cons_self)

end Tree

namespace Tagged

variable {α : Type} {tag content : String} {variants : List (Variant α)} {m : Medium}
  {members : List (Option String × Tree)} {closed : Bool} {a : α}

private theorem nextRelevant_cons_of_skip {key : String} {t : Tree} (notTag : key ≠ tag)
    (notContent : key ≠ content) (skip : m.canSkip t = true) :
    nextRelevant tag content m ((some key, t) :: members) closed =
      nextRelevant tag content m members closed := by
  rw [nextRelevant, if_neg notTag, if_neg notContent, if_pos skip]

private theorem nextRelevant_append {before : List (Option String × Tree)}
    (all : ∀ p ∈ before, Passes m.canSkip [tag, content] p) (noTag : underKey tag before = [])
    (noContent : underKey content before = []) :
    nextRelevant tag content m (before ++ members) closed =
      nextRelevant tag content m members closed := by
  induction before with
  | nil => rfl
  | cons p before ih =>
    rw [underKey_eq_nil_iff, List.forall_mem_cons] at noTag noContent
    obtain ⟨⟨key, named, skip⟩, others⟩ := List.forall_mem_cons.1 all
    obtain ⟨_, t⟩ := p
    cases named
    have notTag : key ≠ tag := fun same => noTag.1 (congrArg some same)
    have notContent : key ≠ content := fun same => noContent.1 (congrArg some same)
    rw [List.cons_append, nextRelevant_cons_of_skip notTag notContent
      (skip (by simp [notTag, notContent]))]
    exact ih others (underKey_eq_nil_iff.2 noTag.2) (underKey_eq_nil_iff.2 noContent.2)

private theorem exists_of_nextRelevant_eq_ok
    {next : Option (Bool × Tree × List (Option String × Tree))}
    (read : nextRelevant tag content m members closed = .ok next) :
    ∃ before after, members = before ++ after ∧
      (∀ p ∈ before, Passes m.canSkip [tag, content] p) ∧
      underKey tag before = [] ∧ underKey content before = [] ∧
      (next = none ∧ after = [] ∧ closed = true ∨ ∃ isTag t rest, next = some (isTag, t, rest) ∧
        after = (some (if isTag then tag else content), t) :: rest) := by
  induction members with
  | nil =>
    rw [nextRelevant] at read
    split at read
    · next closes =>
      cases read
      exact ⟨[], [], rfl, fun _ mem => absurd mem List.not_mem_nil, rfl, rfl,
        .inl ⟨rfl, rfl, closes⟩⟩
    · cases read
  | cons p members ih =>
    obtain ⟨_ | key, t⟩ := p
    · cases read
    · by_cases isTag : key = tag
      · rw [nextRelevant, if_pos isTag] at read
        cases read
        exact ⟨[], _, rfl, fun _ mem => absurd mem List.not_mem_nil, rfl, rfl,
          .inr ⟨true, t, members, rfl, by rw [isTag]; rfl⟩⟩
      · by_cases isContent : key = content
        · rw [nextRelevant, if_neg isTag, if_pos isContent] at read
          cases read
          exact ⟨[], _, rfl, fun _ mem => absurd mem List.not_mem_nil, rfl, rfl,
            .inr ⟨false, t, members, rfl, by rw [isContent]; rfl⟩⟩
        · by_cases skip : m.canSkip t = true
          · rw [nextRelevant_cons_of_skip isTag isContent skip] at read
            obtain ⟨before, after, rfl, all, noTag, noContent, ends⟩ := ih read
            refine ⟨(some key, t) :: before, after, rfl, ?_, ?_, ?_, ends⟩
            · exact List.forall_mem_cons.2 ⟨⟨key, rfl, fun _ => skip⟩, all⟩
            · exact (underKey_cons_of_ne (fun same => isTag (Option.some.inj same)) _).trans noTag
            · exact (underKey_cons_of_ne (fun same => isContent (Option.some.inj same)) _).trans
                noContent
          · rw [nextRelevant, if_neg isTag, if_neg isContent, if_neg skip] at read
            cases read

private theorem noneRelevant_eq_ok_iff :
    noneRelevant tag content m members closed = .ok () ↔
      closed = true ∧ (∀ p ∈ members, Passes m.canSkip [tag, content] p) ∧
        underKey tag members = [] ∧ underKey content members = [] := by
  constructor
  · intro noMore
    obtain ⟨next, read, done⟩ := exists_of_bind_eq_ok noMore
    obtain ⟨before, after, rfl, all, noTag, noContent, ends⟩ := exists_of_nextRelevant_eq_ok read
    rcases ends with ⟨rfl, rfl, closes⟩ | ⟨isTag, t, rest, rfl, -⟩
    · rw [List.append_nil]
      exact ⟨closes, all, noTag, noContent⟩
    · cases isTag <;> cases done
  · rintro ⟨rfl, all, noTag, noContent⟩
    have whole : nextRelevant tag content m (members ++ []) true = .ok none :=
      nextRelevant_append all noTag noContent
    rw [List.append_nil] at whole
    rw [noneRelevant, whole]
    rfl

theorem exists_of_readBeside_eq_ok (distinct : tag ≠ content)
    (whole : readBeside tag content variants m members closed = .ok a) :
    ∃ t body i, underKey tag members = [t] ∧ underKey content members = [body] ∧
      Codec.readName (variants.map (·.name)) m t = .ok i ∧
      (readVariant variants i m body = .ok a ∨ readVariant variants i .buffer body = .ok a) := by
  obtain ⟨next, first, read⟩ := exists_of_bind_eq_ok whole
  obtain ⟨before, rest, rfl, -, noTag, noContent, ends⟩ := exists_of_nextRelevant_eq_ok first
  rcases ends with ⟨rfl, -, -⟩ | ⟨_ | _, x, others, rfl, rfl⟩
  · cases read
  · -- The content comes first: it is kept, and read once the kind is known.
    cases holds : m.canHold x with
    | false =>
      dsimp only at read
      rw [holds] at read
      cases read
    | true =>
      dsimp only at read
      rw [holds] at read
      obtain ⟨next, second, later⟩ := exists_of_bind_eq_ok read
      obtain ⟨between, rest, rfl, -, noTag', noContent', ends⟩ :=
        exists_of_nextRelevant_eq_ok second
      rcases ends with ⟨rfl, -, -⟩ | ⟨_ | _, t, after, rfl, rfl⟩
      · cases later
      · cases later
      · obtain ⟨i, named, later⟩ := exists_of_bind_eq_ok later
        obtain ⟨b, value, done⟩ := exists_of_bind_eq_ok later
        obtain ⟨⟨⟩, noMore, same⟩ := exists_of_bind_eq_ok done
        cases same
        obtain ⟨-, -, noTag'', noContent''⟩ := noneRelevant_eq_ok_iff.1 noMore
        obtain ⟨contents, tags⟩ := Tree.underKey_two distinct.symm (t := x) (u := t) noContent noTag
          noContent' noTag' noContent'' noTag''
        exact ⟨t, x, i, tags, contents, named, .inr value⟩
  · -- The tag comes first, and the content is read where it stands.
    obtain ⟨i, named, read⟩ := exists_of_bind_eq_ok read
    obtain ⟨next, second, later⟩ := exists_of_bind_eq_ok read
    obtain ⟨between, rest, rfl, -, noTag', noContent', ends⟩ := exists_of_nextRelevant_eq_ok second
    rcases ends with ⟨rfl, -, -⟩ | ⟨_ | _, body, after, rfl, rfl⟩
    · cases later
    · obtain ⟨b, value, done⟩ := exists_of_bind_eq_ok later
      obtain ⟨⟨⟩, noMore, same⟩ := exists_of_bind_eq_ok done
      cases same
      obtain ⟨-, -, noTag'', noContent''⟩ := noneRelevant_eq_ok_iff.1 noMore
      obtain ⟨tags, contents⟩ := Tree.underKey_two distinct (t := x) (u := body) noTag noContent
        noTag' noContent' noTag'' noContent''
      exact ⟨x, body, i, tags, contents, named, .inl value⟩
    · cases later

private theorem nextRelevant_append_tag (closed : Bool) {before : List (Option String × Tree)}
    (all : ∀ p ∈ before, Passes m.canSkip [tag, content] p) (noTag : underKey tag before = [])
    (noContent : underKey content before = []) (t : Tree) (rest : List (Option String × Tree)) :
    nextRelevant tag content m (before ++ (some tag, t) :: rest) closed =
      .ok (some (true, t, rest)) :=
  (nextRelevant_append all noTag noContent).trans (if_pos rfl)

private theorem nextRelevant_append_content (closed : Bool) (distinct : tag ≠ content)
    {before : List (Option String × Tree)}
    (all : ∀ p ∈ before, Passes m.canSkip [tag, content] p) (noTag : underKey tag before = [])
    (noContent : underKey content before = []) (t : Tree) (rest : List (Option String × Tree)) :
    nextRelevant tag content m (before ++ (some content, t) :: rest) closed =
      .ok (some (false, t, rest)) :=
  (nextRelevant_append all noTag noContent).trans ((if_neg distinct.symm).trans (if_pos rfl))

/-- An object is read if it has one tag and one content, and the content can be read where it stands
as well as after it has been kept. Where it comes before the tag, the latter is enough. -/
theorem readBeside_eq_ok (distinct : tag ≠ content)
    (all : ∀ p ∈ members, Passes m.canSkip [tag, content] p) {t body : Tree} {i : Nat}
    (tags : underKey tag members = [t]) (contents : underKey content members = [body])
    (named : Codec.readName (variants.map (·.name)) m t = .ok i) (holds : m.canHold body = true)
    (kept : readVariant variants i .buffer body = .ok a)
    (order : readVariant variants i m body = .ok a ∨
      [some content, some tag].Sublist (members.map Prod.fst)) :
    readBeside tag content variants m members true = .ok a := by
  obtain ⟨before, between, after, noTag, noContent, noTag', noContent', noTag'', noContent'',
    rfl | rfl⟩ := Tree.exists_of_underKey_eq_singletons distinct tags contents
  · simp only [List.forall_mem_append, List.forall_mem_cons] at all
    obtain ⟨allBefore, -, allBetween, -, allAfter⟩ := all
    have first := nextRelevant_append_tag true allBefore noTag noContent t
      (between ++ (some content, body) :: after)
    have second := nextRelevant_append_content true distinct allBetween noTag'
      noContent' body after
    have third := noneRelevant_eq_ok_iff.2 ⟨rfl, allAfter, noTag'', noContent''⟩
    have noMore : underKey tag (between ++ (some content, body) :: after) = [] := by
      rw [underKey_append, underKey_cons_of_ne (fun same => distinct (Option.some.inj same).symm),
        noTag', noTag'']
      rfl
    have read := order.resolve_right (Tree.not_sublist_keys distinct noContent noMore)
    simp only [readBeside, first, second, third, named, read, bind, Except.bind, pure, Except.pure]
  · simp only [List.forall_mem_append, List.forall_mem_cons] at all
    obtain ⟨allBefore, -, allBetween, -, allAfter⟩ := all
    have first := nextRelevant_append_content true distinct allBefore noTag noContent
      body (between ++ (some tag, t) :: after)
    have second := nextRelevant_append_tag true allBetween noTag' noContent' t after
    have third := noneRelevant_eq_ok_iff.2 ⟨rfl, allAfter, noTag'', noContent''⟩
    simp only [readBeside, first, second, third, named, kept, holds, bind, Except.bind, pure,
      Except.pure, Bool.not_true, Bool.false_eq_true, if_false]

end Tagged

end SyncAccounting.Json
