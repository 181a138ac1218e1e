import SyncAccounting.Json.Tree

/-!
Why a tree is not of the type that is asked for.
-/

set_option autoImplicit false

namespace SyncAccounting.Json

inductive ReadError where
  /-- The text is not of the format. -/
  | malformed
  | missingField (name : String)
  | duplicateField (name : String)
  | unknownField (name : String) (known : List String)
  | unknownVariant (name : String) (known : List String)
  | wrongType
  /-- A number of the right kind that does not fit. -/
  | outOfRange
  /-- A list that ends too early or too late. -/
  | wrongLength
  deriving DecidableEq

namespace ReadError

def mark (name : String) : String := "`" ++ name ++ "`"

def choices : List String → String
  | [a] => mark a
  | [a, b] => mark a ++ " or " ++ mark b
  | names => "one of " ++ String.intercalate ", " (names.map mark)

def message : ReadError → String
  | malformed => "malformed text"
  | missingField name => "missing field " ++ mark name
  | duplicateField name => "duplicate field " ++ mark name
  | unknownField name known => "unknown field " ++ mark name ++ ", expected " ++ choices known
  | unknownVariant name known => "unknown variant " ++ mark name ++ ", expected " ++ choices known
  | wrongType => "invalid type"
  | outOfRange => "invalid value"
  | wrongLength => "invalid length"

end ReadError

/-- Where the tree that is read comes from. -/
inductive Medium where
  /-- The text itself, inside so many arrays and objects. -/
  | text (depth : Nat)
  /-- A part of a message that is kept until it is known what it is. -/
  | buffer
  /-- A value in normal form. -/
  | parsed
  deriving DecidableEq

namespace Medium

def enter : Medium → Except ReadError Medium
  | text depth => if depth < maxDepth then .ok (.text (depth + 1)) else .error .malformed
  | m => .ok m

def canHold (m : Medium) (t : Tree) : Bool :=
  match m with
  | text depth => t.isSound (maxDepth - depth)
  | _ => true

def canSkip (m : Medium) (t : Tree) : Bool :=
  match m with
  | text _ => t.isComplete
  | _ => true

def tooLong : Medium → ReadError
  | text _ => .malformed
  | _ => .wrongLength

end Medium

/-- The error for a tree that is not of the kind asked for: a word is read before it is refused,
and an array or object is refused at its start. -/
def Tree.mismatch : Tree → ReadError
  | .broken | .number none | .string none => .malformed
  | _ => .wrongType

abbrev Reader (α : Type) := Medium → Tree → Except ReadError α

end SyncAccounting.Json
