import SyncAccounting.Json.Codec

/-!
Records: objects with known members, or the list of the values of these members in their order.
-/

set_option autoImplicit false

namespace SyncAccounting.Json

structure Member (α : Type) where
  name : String
  codec : Codec α
  /-- The value that stands for a member that an object does not have. -/
  absent : Option α
  /-- The value that stands for a member that a list ends before. -/
  short : Option α
  /-- Whether a value is left out where the record is written. -/
  hidden : α → Bool

namespace Member

def required {α : Type} (name : String) (codec : Codec α) : Member α :=
  ⟨name, codec, none, none, fun _ => false⟩

/-- A member that may be missing, and is left out where it has no value. -/
def skipped {α : Type} (name : String) (codec : Codec α) : Member (Option α) :=
  ⟨name, codec.optional, some none, some none, Option.isNone⟩

/-- A member that may be missing from an object, and is always written. -/
def nullable {α : Type} (name : String) (codec : Codec α) : Member (Option α) :=
  ⟨name, codec.optional, some none, none, fun _ => false⟩

/-- A member that may be missing, with a value to take for it. -/
def preset {α : Type} (name : String) (codec : Codec α) (value : α) : Member α :=
  ⟨name, codec, some value, some value, fun _ => false⟩

end Member

inductive Fields : List Type → Type 1 where
  | nil : Fields []
  | cons {α : Type} {αs : List Type} (m : Member α) (rest : Fields αs) : Fields (α :: αs)

def Tuple : List Type → Type
  | [] => Unit
  | α :: αs => α × Tuple αs

def Slots : List Type → Type
  | [] => Unit
  | α :: αs => Option α × Slots αs

namespace Fields

def names {αs : List Type} : Fields αs → List String
  | .nil => []
  | .cons m rest => m.name :: rest.names

def noneYet {αs : List Type} : Fields αs → Slots αs
  | .nil => ()
  | .cons _ rest => (none, rest.noneYet)

def place {αs : List Type} (m : Medium) (key : String) (t : Tree) :
    Fields αs → Slots αs → Option (Except ReadError (Slots αs))
  | .nil, _ => none
  | .cons f rest, (slot, slots) =>
    if key = f.name then
      match slot with
      | some _ => some (.error (.duplicateField key))
      | none => some ((f.codec.read m t).map fun a => (some a, slots))
    else (rest.place m key t slots).map fun r => r.map fun slots => (slot, slots)

def collect {αs : List Type} : Fields αs → Slots αs → Except ReadError (Tuple αs)
  | .nil, _ => .ok ()
  | .cons f rest, (slot, slots) => do
    let a ← match slot, f.absent with
      | some a, _ => .ok a
      | none, some a => .ok a
      | none, none => .error (.missingField f.name)
    let as ← rest.collect slots
    return (a, as)

/-- The members of an object in the order of the text. Without strictness other members are
skipped. -/
def readMembers {αs : List Type} (fields : Fields αs) (strict : Bool) (m : Medium) :
    List (Option String × Tree) → Bool → Slots αs → Except ReadError (Slots αs)
  | [], closed, slots => if closed then .ok slots else .error .malformed
  | (none, _) :: _, _, _ => .error .malformed
  | (some key, t) :: rest, closed, slots =>
    match fields.place m key t slots with
    | some r => do
      let slots ← r
      readMembers fields strict m rest closed slots
    | none =>
      if strict then .error (.unknownField key fields.names)
      else if m.canSkip t then readMembers fields strict m rest closed slots
      else .error .malformed

def readItems {αs : List Type} (m : Medium) :
    Fields αs → List Tree → Bool → Except ReadError (Tuple αs)
  | .nil, [], closed => if closed then .ok () else .error .malformed
  | .nil, _ :: _, _ => .error m.tooLong
  | .cons f rest, items, closed => do
    let a ← match items, f.short with
      | t :: _, _ => f.codec.read m t
      | [], short =>
        if closed then
          match short with
          | some a => .ok a
          | none => .error .wrongLength
        else .error .malformed
    let as ← rest.readItems m items.tail closed
    return (a, as)

def read {αs : List Type} (fields : Fields αs) (strict : Bool) : Reader (Tuple αs)
  | m, .object members closed => do
    let inside ← m.enter
    let slots ← fields.readMembers strict inside members closed fields.noneYet
    fields.collect slots
  | m, .array items closed => do
    let inside ← m.enter
    fields.readItems inside items closed
  | _, t => .error t.mismatch

def write {αs : List Type} : Fields αs → Tuple αs → List (String × Value)
  | .nil, _ => []
  | .cons f rest, (a, as) =>
    if f.hidden a then rest.write as else (f.name, f.codec.write a) :: rest.write as

end Fields

structure Record (α : Type) where
  {types : List Type}
  fields : Fields types
  strict : Bool
  build : Tuple types → α
  parts : α → Tuple types

namespace Record

def read {α : Type} (r : Record α) : Reader α := fun m t =>
  (r.fields.read r.strict m t).map r.build

def members {α : Type} (r : Record α) (a : α) : List (String × Value) :=
  r.fields.write (r.parts a)

def codec {α : Type} (r : Record α) : Codec α where
  read := r.read
  write a := .object (r.members a)

end Record

end SyncAccounting.Json
