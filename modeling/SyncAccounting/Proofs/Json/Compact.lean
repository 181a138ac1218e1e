import SyncAccounting.Json.Tree
import SyncAccounting.Json.Printer
import SyncAccounting.Proofs.Json.Scanning

/-!
The compact text of a value says all about it. Its words are read back one by one, and the words put
the tree of the value together again, so that two values with one text are the same.
-/

set_option autoImplicit false

namespace SyncAccounting.Json

namespace Value

mutual

def numbers : Value → List Number
  | number n => [n]
  | array items => itemNumbers items
  | object members => memberNumbers members
  | _ => []

def itemNumbers : List Value → List Number
  | [] => []
  | v :: rest => numbers v ++ itemNumbers rest

def memberNumbers : List (String × Value) → List Number
  | [] => []
  | (_, v) :: rest => numbers v ++ memberNumbers rest

end

def IsWhole (v : Value) : Prop := ∀ n ∈ v.numbers, n.IsWhole

/-- A value all of whose numbers are read back as they are written. -/
def IsLegible (v : Value) : Prop := ∀ n ∈ v.numbers, n.IsLegible

theorem itemTokens_cons_cons (v w : Value) (more : List Value) :
    itemTokens (v :: w :: more) = v.tokens ++ .comma :: itemTokens (w :: more) := rfl

theorem memberTokens_cons_cons (key : String) (v : Value) (m : String × Value)
    (more : List (String × Value)) :
    memberTokens ((key, v) :: m :: more) =
      .string (some key) :: .colon :: (v.tokens ++ .comma :: memberTokens (m :: more)) := rfl

theorem IsWhole.isLegible {v : Value} (whole : v.IsWhole) : v.IsLegible :=
  fun n hn => Number.isLegible_of_isWhole (whole n hn)

end Value

/-! ### Words -/

namespace Token

def join (words : List Token) : List Char := words.flatMap text

private theorem join_nil : join [] = [] := rfl

private theorem join_cons (t : Token) (words : List Token) :
    join (t :: words) = t.text ++ join words :=
  List.flatMap_cons

private theorem join_append (words more : List Token) :
    join (words ++ more) = join words ++ join more :=
  List.flatMap_append

def IsMark : Token → Prop
  | openArray | closeArray | openObject | closeObject | comma | colon => True
  | _ => False

theorem scan_mark {t : Token} (mark : t.IsMark) (rest : List Char) :
    scan (t.text ++ rest) = t :: scan rest := by
  cases t
  case openArray => exact scan_eq_cons rfl (by simp)
  case closeArray => exact scan_eq_cons rfl (by simp)
  case openObject => exact scan_eq_cons rfl (by simp)
  case closeObject => exact scan_eq_cons rfl (by simp)
  case comma => exact scan_eq_cons rfl (by simp)
  case colon => exact scan_eq_cons rfl (by simp)
  all_goals exact mark.elim

private theorem scan_name (s : String) (rest : List Char) :
    scan ((string (some s)).text ++ rest) = string (some s) :: scan rest :=
  scan_quoted s rest

end Token

open Token (join join_nil join_cons join_append scan_mark scan_name EndsNumber)

mutual

/-- The words of a value are read back from its text. -/
theorem scan_tokens (v : Value) (legible : ∀ n ∈ v.numbers, n.IsLegible) (rest : List Char)
    (ends : EndsNumber rest) :
    Token.scan (join v.tokens ++ rest) = v.tokens ++ Token.scan rest := by
  match v with
  | .null => exact Token.scan_eq_cons rfl (by simp)
  | .bool true => exact Token.scan_eq_cons rfl (by simp)
  | .bool false => exact Token.scan_eq_cons rfl (by simp)
  | .number n =>
    have alone : join (Value.number n).tokens = Token.numberText n := List.append_nil _
    rw [alone]
    exact (legible n List.mem_cons_self).scan ends
  | .string s =>
    have alone : join (Value.string s).tokens = Token.quoted s := List.append_nil _
    rw [alone]
    exact Token.scan_quoted s rest
  | .array items =>
    have inside := scan_itemTokens items legible (Token.closeArray.text ++ rest)
      (Token.endsNumber_cons rest (by decide))
    simp only [Value.tokens, join_cons, join_append, join_nil, List.append_assoc, List.nil_append,
      List.cons_append, scan_mark (t := .openArray) trivial, inside,
      scan_mark (t := .closeArray) trivial]
  | .object members =>
    have inside := scan_memberTokens members legible (Token.closeObject.text ++ rest)
      (Token.endsNumber_cons rest (by decide))
    simp only [Value.tokens, join_cons, join_append, join_nil, List.append_assoc, List.nil_append,
      List.cons_append, scan_mark (t := .openObject) trivial, inside,
      scan_mark (t := .closeObject) trivial]

private theorem scan_itemTokens (items : List Value)
    (legible : ∀ n ∈ Value.itemNumbers items, n.IsLegible) (rest : List Char)
    (ends : EndsNumber rest) :
    Token.scan (join (Value.itemTokens items) ++ rest) =
      Value.itemTokens items ++ Token.scan rest := by
  match items with
  | [] => rfl
  | [v] => exact scan_tokens v (fun n hn => legible n (List.mem_append_left _ hn)) rest ends
  | v :: w :: more =>
    have first := scan_tokens v (fun n hn => legible n (List.mem_append_left _ hn))
      (Token.comma.text ++ (join (Value.itemTokens (w :: more)) ++ rest))
      (Token.endsNumber_cons _ (by decide))
    have others := scan_itemTokens (w :: more) (fun n hn => legible n (List.mem_append_right _ hn))
      rest ends
    simp only [Value.itemTokens, join_append, join_cons, List.append_assoc, first,
      scan_mark (t := .comma) trivial, others, List.cons_append]

private theorem scan_memberTokens (members : List (String × Value))
    (legible : ∀ n ∈ Value.memberNumbers members, n.IsLegible) (rest : List Char)
    (ends : EndsNumber rest) :
    Token.scan (join (Value.memberTokens members) ++ rest) =
      Value.memberTokens members ++ Token.scan rest := by
  match members with
  | [] => rfl
  | [(key, v)] =>
    have value := scan_tokens v (fun n hn => legible n (List.mem_append_left _ hn)) rest ends
    simp only [Value.memberTokens, join_cons, List.append_assoc, scan_name,
      scan_mark (t := .colon) trivial, value, List.cons_append]
  | (key, v) :: m :: more =>
    have first := scan_tokens v (fun n hn => legible n (List.mem_append_left _ hn))
      (Token.comma.text ++ (join (Value.memberTokens (m :: more)) ++ rest))
      (Token.endsNumber_cons _ (by decide))
    have others := scan_memberTokens (m :: more)
      (fun n hn => legible n (List.mem_append_right _ hn)) rest ends
    simp only [Value.memberTokens, join_append, join_cons, List.append_assoc, scan_name,
      scan_mark (t := .colon) trivial, first, scan_mark (t := .comma) trivial, others,
      List.cons_append]

end

/-! ### Trees -/

mutual

private theorem foldl_tokens (v : Value) (stack : List Opened) {e : Expected}
    (ready : e = .value ∨ e = .firstItem) :
    v.tokens.foldl Assembly.step (.unfinished stack e) = Assembly.put (Tree.ofValue v) stack := by
  match v with
  | .null | .bool _ | .number _ | .string _ => rcases ready with rfl | rfl <;> rfl
  | .array items =>
    have inside := foldl_itemTokens items [] stack (.inl rfl)
    rcases ready with rfl | rfl <;> exact inside
  | .object members =>
    have inside := foldl_memberTokens members [] stack (.inl rfl)
    rcases ready with rfl | rfl <;> exact inside

private theorem foldl_itemTokens (items : List Value) (done : List Tree) (stack : List Opened)
    {e : Expected} (ready : e = .firstItem ∨ e = .value ∧ items ≠ []) :
    (Value.itemTokens items ++ [Token.closeArray]).foldl Assembly.step
        (.unfinished (.array done :: stack) e) =
      Assembly.put (.array (done.reverse ++ Tree.ofValues items) true) stack := by
  match items with
  | [] =>
    obtain rfl | ⟨-, nonempty⟩ := ready
    · simp [Value.itemTokens, Tree.ofValues, Assembly.step]
    · exact absurd rfl nonempty
  | [v] =>
    have first := foldl_tokens v (.array done :: stack) (ready.symm.imp And.left id)
    rw [List.foldl_append, Value.itemTokens, first, Tree.ofValues, Tree.ofValues,
      ← List.reverse_cons]
    rfl
  | v :: w :: more =>
    have first := foldl_tokens v (.array done :: stack) (ready.symm.imp And.left id)
    have others := foldl_itemTokens (w :: more) (Tree.ofValue v :: done) stack
      (.inr ⟨rfl, List.cons_ne_nil _ _⟩)
    rw [Value.itemTokens_cons_cons, List.append_assoc, List.foldl_append, first, List.cons_append,
      List.foldl_cons]
    refine others.trans ?_
    rw [List.reverse_cons, List.append_assoc]
    rfl

private theorem foldl_memberTokens (members : List (String × Value))
    (done : List (Option String × Tree)) (stack : List Opened) {e : Expected}
    (ready : e = .firstKey ∨ e = .key ∧ members ≠ []) :
    (Value.memberTokens members ++ [Token.closeObject]).foldl Assembly.step
        (.unfinished (.object done :: stack) e) =
      Assembly.put (.object (done.reverse ++ Tree.ofMembers members) true) stack := by
  match members with
  | [] =>
    obtain rfl | ⟨-, nonempty⟩ := ready
    · simp [Value.memberTokens, Tree.ofMembers, Assembly.step]
    · exact absurd rfl nonempty
  | [(key, v)] =>
    have named : (Value.memberTokens [(key, v)]).foldl Assembly.step
          (.unfinished (.object done :: stack) e) =
        v.tokens.foldl Assembly.step (.unfinished (.member done (some key) :: stack) .value) := by
      obtain rfl | ⟨rfl, -⟩ := ready <;> rfl
    rw [List.foldl_append, named, foldl_tokens v _ (.inl rfl), Tree.ofMembers, Tree.ofMembers,
      ← List.reverse_cons]
    rfl
  | (key, v) :: m :: more =>
    have named : (Value.memberTokens ((key, v) :: m :: more) ++ [Token.closeObject]).foldl
          Assembly.step (.unfinished (.object done :: stack) e) =
        (v.tokens ++ Token.comma :: (Value.memberTokens (m :: more) ++ [Token.closeObject])).foldl
          Assembly.step (.unfinished (.member done (some key) :: stack) .value) := by
      rw [Value.memberTokens_cons_cons, List.cons_append, List.cons_append, List.append_assoc]
      obtain rfl | ⟨rfl, -⟩ := ready <;> rfl
    have others := foldl_memberTokens (m :: more) ((some key, Tree.ofValue v) :: done) stack
      (.inr ⟨rfl, List.cons_ne_nil _ _⟩)
    rw [named, List.foldl_append, foldl_tokens v _ (.inl rfl), List.foldl_cons]
    refine others.trans ?_
    rw [List.reverse_cons, List.append_assoc]
    rfl

end

mutual

private theorem Tree.ofValue_injective : ∀ {v w : Value}, Tree.ofValue v = Tree.ofValue w → v = w
  | .null, w, same => by cases w <;> cases same; rfl
  | .bool _, w, same => by cases w <;> cases same; rfl
  | .number _, w, same => by cases w <;> cases same; rfl
  | .string _, w, same => by cases w <;> cases same; rfl
  | .array items, w, same => by
    cases w <;> try cases same
    rw [ofValue, ofValue, Tree.array.injEq] at same
    rw [ofValues_injective same.1]
  | .object members, w, same => by
    cases w <;> try cases same
    rw [ofValue, ofValue, Tree.object.injEq] at same
    rw [ofMembers_injective same.1]

private theorem Tree.ofValues_injective :
    ∀ {vs ws : List Value}, Tree.ofValues vs = Tree.ofValues ws → vs = ws
  | [], [], _ => rfl
  | v :: vs, w :: ws, same => by
    rw [ofValues, ofValues, List.cons.injEq] at same
    rw [ofValue_injective same.1, ofValues_injective same.2]

private theorem Tree.ofMembers_injective :
    ∀ {vs ws : List (String × Value)}, Tree.ofMembers vs = Tree.ofMembers ws → vs = ws
  | [], [], _ => rfl
  | (key, v) :: vs, (key', w) :: ws, same => by
    rw [ofMembers, ofMembers, List.cons.injEq, Prod.mk.injEq, Option.some.injEq] at same
    rw [same.1.1, ofValue_injective same.1.2, ofMembers_injective same.2]

end

/-- The text of a value is read as the tree of the value, with nothing after it. -/
theorem Document.ofText_compact {v : Value} (legible : v.IsLegible) :
    Document.ofText v.compact = ⟨Tree.ofValue v, false⟩ := by
  have words := scan_tokens v legible [] Token.endsNumber_nil
  rw [List.append_nil, Token.scan, List.append_nil] at words
  have text : v.compact.toList = join v.tokens := String.toList_ofList
  rw [Document.ofText, text, words, Document.ofTokens, Assembly.start,
    foldl_tokens v [] (.inl rfl)]
  rfl

theorem Value.compact_inj {v w : Value} (hv : v.IsLegible) (hw : w.IsLegible) :
    v.compact = w.compact ↔ v = w := by
  refine ⟨fun same => ?_, fun same => by rw [same]⟩
  have trees := Document.ofText_compact hv
  rw [same, Document.ofText_compact hw, Document.mk.injEq] at trees
  exact (Tree.ofValue_injective trees.1).symm

end SyncAccounting.Json
