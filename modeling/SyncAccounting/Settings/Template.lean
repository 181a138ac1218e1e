/-!
Texts with references to variables, such as `${NAME}`. A name is a letter or underscore and then
letters, digits and underscores, all of them ASCII. Values are put in as they are and not looked
through again.
-/

set_option autoImplicit false

namespace SyncAccounting

/-- The variables that are set, and the bytes of their values. -/
abbrev Environment := List (String × ByteArray)

inductive Piece where
  | char (c : Char)
  | reference (name : List Char)
  deriving DecidableEq

namespace Template

def isNameStart (c : Char) : Bool := ('a' ≤ c ∧ c ≤ 'z') ∨ ('A' ≤ c ∧ c ≤ 'Z') ∨ c = '_'

def isNameChar (c : Char) : Bool := isNameStart c ∨ ('0' ≤ c ∧ c ≤ '9')

def reference? : List Char → Option (List Char × List Char)
  | '$' :: '{' :: c :: rest =>
    if isNameStart c then
      match rest.dropWhile isNameChar with
      | '}' :: after => some (c :: rest.takeWhile isNameChar, after)
      | _ => none
    else none
  | _ => none

theorem reference?_shorter {cs name rest : List Char} (h : reference? cs = some (name, rest)) :
    rest.length < cs.length := by
  unfold reference? at h
  split at h
  · rename_i c tail
    split at h
    · split at h
      · rename_i after heq
        simp only [Option.some.injEq, Prod.mk.injEq] at h
        have hl := congrArg List.length heq
        have hs := (List.dropWhile_suffix isNameChar (l := tail)).length_le
        simp only [List.length_cons] at hl ⊢
        rw [← h.2]
        omega
      · simp at h
    · simp at h
  · simp at h

def pieces : List Char → List Piece
  | [] => []
  | c :: cs =>
    match _ : reference? (c :: cs) with
    | some (name, rest) => .reference name :: pieces rest
    | none => .char c :: pieces cs
termination_by cs => cs.length
decreasing_by
  · exact reference?_shorter ‹_›
  · simp

end Template

namespace Environment

def bytes? (env : Environment) (name : String) : Option ByteArray := env.lookup name

/-- The value of a variable, where it is set to a text. -/
def value? (env : Environment) (name : String) : Option String :=
  (env.bytes? name).bind String.fromUTF8?

/-- The names that are referred to and have no value, in order, each as often as it occurs. -/
def missing (env : Environment) (ps : List Piece) : List String :=
  ps.filterMap fun
    | .char _ => none
    | .reference name =>
      if (env.value? (String.ofList name)).isSome then none else some (String.ofList name)

def fill (env : Environment) (ps : List Piece) : List Char :=
  ps.flatMap fun
    | .char c => [c]
    | .reference name => (env.value? (String.ofList name)).elim [] String.toList

/-- A text with the values of its variables, or the names that have none. -/
def substitute (env : Environment) (text : String) : Except (List String) String :=
  let ps := Template.pieces text.toList
  if (env.missing ps).isEmpty then .ok (String.ofList (env.fill ps)) else .error (env.missing ps)

end Environment

end SyncAccounting
