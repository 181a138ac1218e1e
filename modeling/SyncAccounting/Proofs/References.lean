import Mathlib.Data.List.Infix
import Mathlib.Data.List.TakeWhile
import SyncAccounting.Proofs.Text.Bytes
import SyncAccounting.Settings.Source

/-!
References in a text. Every text is cut in exactly one way into references and the text between
them, in which there is no reference: one reference never reaches into another, nor does the text
beside it make a new one of it. Values take the place of the references and are not looked through
again; where variables are not set, all of them are named.
-/

set_option autoImplicit false

namespace SyncAccounting

namespace Template

/-- A letter or underscore, then letters, digits and underscores, all of them ASCII. -/
def IsName : List Char → Prop
  | [] => False
  | c :: rest => (c.isAlpha ∨ c = '_') ∧ ∀ d ∈ rest, d.isAlphanum ∨ d = '_'

def written (name : List Char) : List Char := '$' :: '{' :: (name ++ ['}'])

def IsPlain (text : List Char) : Prop := ∀ name, IsName name → ¬written name <:+: text

/-- A text cut at its references: what comes before them, and each name with what comes after it. -/
structure Cut where
  lead : List Char
  references : List (List Char × List Char)
  isPlain_lead : IsPlain lead
  sound : ∀ r ∈ references, IsName r.1 ∧ IsPlain r.2

namespace Cut

def text (c : Cut) : List Char := c.lead ++ c.references.flatMap fun r => written r.1 ++ r.2

def names (c : Cut) : List String := c.references.map fun r => .ofList r.1

def fill (c : Cut) (value : String → String) : List Char :=
  c.lead ++ c.references.flatMap fun r => (value (.ofList r.1)).toList ++ r.2

def pieces (c : Cut) : List Piece :=
  c.lead.map .char ++ c.references.flatMap fun r => .reference r.1 :: r.2.map .char

end Cut

/-! ### Names and references -/

private theorem isNameStart_iff (c : Char) : isNameStart c ↔ c.isAlpha ∨ c = '_' := by
  have upper : c.isUpper = decide ('A' ≤ c ∧ c ≤ 'Z') := rfl
  have lower : c.isLower = (decide ('a' ≤ c) && decide (c ≤ 'z')) := rfl
  have letter : c.isAlpha = (c.isUpper || c.isLower) := rfl
  simp only [isNameStart, letter, upper, lower, decide_eq_true_eq, Bool.or_eq_true,
    Bool.and_eq_true]
  tauto

private theorem isNameChar_iff (c : Char) : isNameChar c ↔ c.isAlphanum ∨ c = '_' := by
  simp only [isNameChar, decide_eq_true_eq, isNameStart_iff, Char.isAlphanum, Char.isDigit,
    Char.le_def, Bool.or_eq_true, Bool.and_eq_true, UInt32.le_iff_toNat_le]
  tauto

private theorem isNameChar_of_isNameStart {c : Char} (start : isNameStart c) : isNameChar c := by
  simp [isNameChar, start]

private theorem isName_cons_iff (c : Char) (rest : List Char) :
    IsName (c :: rest) ↔ isNameStart c ∧ ∀ d ∈ rest, isNameChar d := by
  simp only [IsName, isNameStart_iff, isNameChar_iff]

private theorem isNameChar_of_mem {name : List Char} (isName : IsName name) :
    ∀ c ∈ name, isNameChar c := by
  cases name with
  | nil => exact isName.elim
  | cons c rest =>
    obtain ⟨start, chars⟩ := (isName_cons_iff c rest).1 isName
    intro d mem
    rcases List.mem_cons.1 mem with rfl | later
    · exact isNameChar_of_isNameStart start
    · exact chars d later

private theorem reference?_written {name : List Char} (isName : IsName name) (rest : List Char) :
    reference? (written name ++ rest) = some (name, rest) := by
  cases name with
  | nil => exact isName.elim
  | cons c name =>
    obtain ⟨start, chars⟩ := (isName_cons_iff c name).1 isName
    have stop : ¬isNameChar '}' := by decide
    have taken : (name ++ '}' :: rest).takeWhile isNameChar = name := by
      rw [List.takeWhile_append_of_pos chars, List.takeWhile_cons_of_neg stop, List.append_nil]
    have left : (name ++ '}' :: rest).dropWhile isNameChar = '}' :: rest := by
      rw [List.dropWhile_append_of_pos chars, List.dropWhile_cons_of_neg stop]
    have shape : written (c :: name) ++ rest = '$' :: '{' :: c :: (name ++ '}' :: rest) := by
      simp [written]
    rw [shape, reference?, if_pos start, left, taken]
    rfl

private theorem reference?_eq_some_iff {cs name rest : List Char} :
    reference? cs = some (name, rest) ↔ IsName name ∧ cs = written name ++ rest := by
  constructor
  · intro found
    unfold reference? at found
    split at found
    case h_2 => cases found
    case h_1 c tail =>
      split at found
      case isFalse => cases found
      case isTrue start =>
        split at found
        case h_2 => cases found
        case h_1 after stops =>
          cases found
          refine ⟨(isName_cons_iff _ _).2 ⟨start, fun d mem => List.mem_takeWhile_imp mem⟩, ?_⟩
          have parts := List.takeWhile_append_dropWhile (p := isNameChar) (l := tail)
          rw [stops] at parts
          simp only [written, List.cons_append, List.append_assoc, List.nil_append]
          rw [parts]
  · rintro ⟨isName, rfl⟩
    exact reference?_written isName rest

private theorem pieces_cons_of_none {c : Char} {cs : List Char}
    (noReference : reference? (c :: cs) = none) :
    pieces (c :: cs) = .char c :: pieces cs := by
  rw [pieces]
  split
  · next found =>
    rw [noReference] at found
    cases found
  · rfl

private theorem pieces_written {name : List Char} (isName : IsName name) (rest : List Char) :
    pieces (written name ++ rest) = .reference name :: pieces rest := by
  have found := reference?_written isName rest
  rw [written, List.cons_append] at found ⊢
  rw [pieces]
  split
  · next other =>
    rw [found] at other
    cases other
    rfl
  · next missed =>
    rw [found] at missed
    cases missed

/-! ### The pieces of a cut -/

private theorem isPlain_nil : IsPlain [] := by
  intro name _ inside
  cases List.eq_nil_of_infix_nil inside

private theorem IsPlain.of_cons {c : Char} {text : List Char} (plain : IsPlain (c :: text)) :
    IsPlain text := by
  intro name isName inside
  exact plain name isName (List.infix_cons inside)

private theorem dollar_notMem {name : List Char} (isName : IsName name) :
    '$' ∉ '{' :: (name ++ ['}']) := by
  intro mem
  rcases List.mem_cons.1 mem with brace | mem
  · cases brace
  rcases List.mem_append.1 mem with inName | brace
  · exact absurd (isNameChar_of_mem isName _ inName) (by decide)
  · cases List.mem_singleton.1 brace

/-- No reference starts in a plain text that ends where a reference starts, or the whole does. -/
private theorem reference?_eq_none_of_isPlain {c : Char} {text after : List Char}
    (plain : IsPlain (c :: text)) (opens : ∀ d ∈ after.head?, d = '$') :
    reference? (c :: text ++ after) = none := by
  rw [Option.eq_none_iff_forall_ne_some]
  rintro ⟨name, rest⟩ found
  obtain ⟨isName, same⟩ := reference?_eq_some_iff.1 found
  rcases List.append_eq_append_iff.1 same with ⟨more, longer, ends⟩ | ⟨more, shorter, -⟩
  · cases more with
    | nil =>
      rw [List.append_nil] at longer
      exact plain name isName (longer ▸ List.infix_rfl)
    | cons d more =>
      -- the reference would reach the dollar sign after the text
      have dollar : d = '$' := opens d (by rw [ends]; rfl)
      rw [written, List.cons_append] at longer
      have inside : d ∈ '{' :: (name ++ ['}']) := by
        rw [(List.cons.inj longer).2]
        simp
      exact dollar_notMem isName (dollar ▸ inside)
  · refine plain name isName ?_
    rw [shorter]
    exact (List.prefix_append _ _).isInfix

private theorem pieces_append_of_isPlain {text after : List Char} (plain : IsPlain text)
    (opens : ∀ d ∈ after.head?, d = '$') :
    pieces (text ++ after) = text.map .char ++ pieces after := by
  induction text with
  | nil => rfl
  | cons c text ih =>
    have noReference := reference?_eq_none_of_isPlain plain opens
    rw [List.cons_append] at noReference ⊢
    rw [pieces_cons_of_none noReference, ih plain.of_cons]
    rfl

private theorem head?_flatMap_written (references : List (List Char × List Char)) :
    ∀ d ∈ (references.flatMap fun r => written r.1 ++ r.2).head?, d = '$' := by
  intro d first
  cases references with
  | nil => cases first
  | cons r references => exact (Option.some.inj first).symm

private theorem pieces_flatMap_written {references : List (List Char × List Char)}
    (sound : ∀ r ∈ references, IsName r.1 ∧ IsPlain r.2) :
    pieces (references.flatMap fun r => written r.1 ++ r.2) =
      references.flatMap fun r => .reference r.1 :: r.2.map .char := by
  induction references with
  | nil => rw [List.flatMap_nil, pieces, List.flatMap_nil]
  | cons r references ih =>
    obtain ⟨first, later⟩ := List.forall_mem_cons.1 sound
    rw [List.flatMap_cons, List.append_assoc, pieces_written first.1,
      pieces_append_of_isPlain first.2 (head?_flatMap_written references), ih later]
    rfl

private theorem pieces_text (c : Cut) : pieces c.text = c.pieces := by
  rw [Cut.text, pieces_append_of_isPlain c.isPlain_lead (head?_flatMap_written c.references),
    pieces_flatMap_written c.sound]
  rfl

/-! ### Every text has one cut -/

def gather : List Piece → List Char × List (List Char × List Char)
  | [] => ([], [])
  | .char c :: ps => (c :: (gather ps).1, (gather ps).2)
  | .reference name :: ps => ([], (name, (gather ps).1) :: (gather ps).2)

private theorem gather_map_char_append (text : List Char) (ps : List Piece) :
    gather (text.map .char ++ ps) = (text ++ (gather ps).1, (gather ps).2) := by
  induction text with
  | nil => rfl
  | cons c text ih =>
    rw [List.map_cons, List.cons_append, gather, ih]
    rfl

private theorem gather_pieces (c : Cut) : gather c.pieces = (c.lead, c.references) := by
  have after (references : List (List Char × List Char)) :
      gather (references.flatMap fun r => .reference r.1 :: r.2.map .char) = ([], references) := by
    induction references with
    | nil => rfl
    | cons r references ih =>
      rw [List.flatMap_cons, List.cons_append, gather, gather_map_char_append, ih, List.append_nil]
  rw [Cut.pieces, gather_map_char_append, after, List.append_nil]

private theorem Cut.text_injective {c d : Cut} (same : c.text = d.text) : c = d := by
  have parts : gather c.pieces = gather d.pieces := by
    rw [← pieces_text, ← pieces_text, same]
  rw [gather_pieces, gather_pieces] at parts
  obtain ⟨lead, references, _, _⟩ := c
  obtain ⟨lead', references', _, _⟩ := d
  obtain ⟨rfl, rfl⟩ := Prod.mk.inj parts
  rfl

private theorem exists_cut (text : List Char) : ∃ c : Cut, c.text = text := by
  induction text using pieces.induct with
  | case1 => exact ⟨⟨[], [], isPlain_nil, fun _ mem => absurd mem List.not_mem_nil⟩, rfl⟩
  | case2 c cs name rest found ih =>
    obtain ⟨d, rfl⟩ := ih
    obtain ⟨isName, same⟩ := reference?_eq_some_iff.1 found
    refine ⟨⟨[], (name, d.lead) :: d.references, isPlain_nil,
      List.forall_mem_cons.2 ⟨⟨isName, d.isPlain_lead⟩, d.sound⟩⟩, ?_⟩
    rw [same]
    simp [Cut.text]
  | case3 c cs noReference ih =>
    obtain ⟨d, rfl⟩ := ih
    refine ⟨⟨c :: d.lead, d.references, ?_, d.sound⟩, rfl⟩
    intro name isName inside
    rcases List.infix_cons_iff.1 inside with ⟨more, first⟩ | later
    · -- it would be found at the start of the whole text
      have start : c :: d.text = written name ++ (more ++ d.references.flatMap fun r =>
          written r.1 ++ r.2) := by
        rw [← List.append_assoc, first]
        rfl
      rw [start, reference?_written isName] at noReference
      cases noReference
    · exact d.isPlain_lead name isName later

private theorem isPlain_of_pieces {text : List Char} (chars : pieces text = text.map .char) :
    IsPlain text := by
  obtain ⟨c, same⟩ := exists_cut text
  have parts := gather_pieces c
  rw [← pieces_text, same, chars, ← List.append_nil (text.map _), gather_map_char_append] at parts
  have lead : text = c.lead := by simpa [gather] using congrArg Prod.fst parts
  exact lead ▸ c.isPlain_lead

end Template

namespace Environment

open Template

/-- A variable is set to a text. -/
def HasText (env : Environment) (name : String) : Prop :=
  ∃ text : String, env.bytes? name = some text.toUTF8

variable (env : Environment)

private theorem value?_eq_some_iff (name text : String) :
    env.value? name = some text ↔ env.bytes? name = some text.toUTF8 := by
  rw [value?, Option.bind_eq_some_iff]
  constructor
  · rintro ⟨bytes, set, valid⟩
    rw [set, (Text.fromUTF8?_eq_some_iff bytes text).1 valid]
  · exact fun set => ⟨_, set, (Text.fromUTF8?_eq_some_iff _ text).2 rfl⟩

private theorem hasText_iff (name : String) : env.HasText name ↔ (env.value? name).isSome := by
  rw [Option.isSome_iff_exists]
  exact exists_congr fun text => (env.value?_eq_some_iff name text).symm

instance (name : String) : Decidable (env.HasText name) :=
  decidable_of_iff _ (env.hasText_iff name).symm

private theorem missing_append (ps qs : List Piece) :
    env.missing (ps ++ qs) = env.missing ps ++ env.missing qs := List.filterMap_append

private theorem fill_append (ps qs : List Piece) :
    env.fill (ps ++ qs) = env.fill ps ++ env.fill qs := List.flatMap_append

private theorem missing_map_char (text : List Char) : env.missing (text.map .char) = [] := by
  rw [missing, List.filterMap_map]
  exact List.filterMap_eq_nil_iff.2 fun _ _ => rfl

private theorem fill_map_char (text : List Char) : env.fill (text.map .char) = text := by
  rw [fill, List.flatMap_map]
  exact List.flatMap_singleton' text

private theorem missing_reference_cons (name : List Char) (ps : List Piece) :
    env.missing (.reference name :: ps) =
      (if ¬env.HasText (.ofList name) then [.ofList name] else []) ++ env.missing ps := by
  simp only [missing, List.filterMap_cons, hasText_iff]
  cases env.value? (.ofList name) <;> rfl

private theorem fill_reference_cons {name : List Char} {value : String}
    (set : env.bytes? (.ofList name) = some value.toUTF8) (ps : List Piece) :
    env.fill (.reference name :: ps) = value.toList ++ env.fill ps := by
  simp only [fill, List.flatMap_cons, (env.value?_eq_some_iff _ _).2 set]
  rfl

private theorem missing_pieces (c : Cut) :
    env.missing c.pieces = c.names.filter fun name => ¬env.HasText name := by
  rw [Cut.pieces, missing_append, missing_map_char, List.nil_append, Cut.names]
  induction c.references with
  | nil => rfl
  | cons r references ih =>
    rw [List.flatMap_cons, List.cons_append, missing_reference_cons, missing_append,
      missing_map_char, List.nil_append, ih, List.map_cons, List.filter_cons]
    by_cases text : env.HasText (.ofList r.1) <;> simp [text]

private theorem fill_pieces (c : Cut) {value : String → String}
    (set : ∀ name ∈ c.names, env.bytes? name = some (value name).toUTF8) :
    env.fill c.pieces = c.fill value := by
  rw [Cut.names] at set
  rw [Cut.pieces, Cut.fill, fill_append, fill_map_char]
  refine congrArg (c.lead ++ ·) ?_
  generalize c.references = references at set ⊢
  induction references with
  | nil => rfl
  | cons r references ih =>
    rw [List.map_cons] at set
    obtain ⟨first, later⟩ := List.forall_mem_cons.1 set
    rw [List.flatMap_cons, List.cons_append, fill_reference_cons env first, fill_append,
      fill_map_char, ih later, List.flatMap_cons, List.append_assoc]

example : substitute [("A", "$\x7bB\x7d".toUTF8), ("B", "x".toUTF8)]
    "$\x7b$\x7bA\x7d\x7d $$\x7bA\x7d $\x7bA$\x7bB\x7d $\x7b1A\x7d" =
    .ok "$\x7b$\x7bB\x7d\x7d $$\x7bB\x7d $\x7bAx $\x7b1A\x7d" := by cbv

end Environment

end SyncAccounting
