import SyncAccounting.Json.Record

/-!
Values of one of several kinds. The name of the kind is a tag: a member among the members of the
value, or a member beside the one that holds the value. The tag may come after what it is the tag
of, which is kept until then.
-/

set_option autoImplicit false

namespace SyncAccounting.Json

/-- One kind of a type: its name, how it is read, and how a value of this kind is written without
its tag. -/
structure Variant (α : Type) where
  name : String
  read : Reader α
  body? : α → Option Value

def Variant.of {α β : Type} (name : String) (c : Codec β) (wrap : β → α) (unwrap? : α → Option β) :
    Variant α where
  name := name
  read m t := (c.read m t).map wrap
  body? a := (unwrap? a).map c.write

namespace Tagged

def readVariant {α : Type} (variants : List (Variant α)) (i : Nat) : Reader α := fun m t =>
  match variants[i]? with
  | some v => v.read m t
  | none => .error .outOfRange

def untagged? {α : Type} (a : α) : List (Variant α) → Option (String × Value)
  | [] => none
  | v :: rest =>
    match v.body? a with
    | some body => some (v.name, body)
    | none => untagged? a rest

/-! ### A tag among the members -/

def splitTag (tag : String) (names : List String) (m : Medium) :
    List (Option String × Tree) → Bool → Option Nat →
      Except ReadError (Nat × List (Option String × Tree))
  | [], closed, found =>
    if closed then
      match found with
      | some i => .ok (i, [])
      | none => .error (.missingField tag)
    else .error .malformed
  | (none, _) :: _, _, _ => .error .malformed
  | (some key, t) :: rest, closed, found =>
    if key = tag then
      match found with
      | some _ => .error (.duplicateField tag)
      | none => do
        let i ← Codec.readTag names m t
        splitTag tag names m rest closed (some i)
    else if m.canHold t then do
      let (i, others) ← splitTag tag names m rest closed found
      return (i, (some key, t) :: others)
    else .error .malformed

/-- Values with the tag among their members. As a list the tag comes first. -/
def among {α : Type} (tag : String) (variants : List (Variant α)) : Codec α where
  read
    | m, .object members closed => do
      let inside ← m.enter
      let (i, others) ← splitTag tag (variants.map (·.name)) inside members closed none
      readVariant variants i .buffer (.object others true)
    | m, .array items closed => do
      let inside ← m.enter
      match items with
      | [] => if closed then throw (.missingField tag) else throw .malformed
      | t :: rest =>
        let i ← Codec.readTag (variants.map (·.name)) inside t
        if rest.all inside.canHold && closed then
          readVariant variants i .buffer (.array rest true)
        else throw .malformed
    | _, t => .error t.mismatch
  write a :=
    match untagged? a variants with
    | some (name, .object members) => .object ((tag, .string name) :: members)
    | _ => .null

/-! ### A tag beside the value -/

/-- The next member that is the tag or the content, and what follows it; others are skipped. -/
def nextRelevant (tag content : String) (m : Medium) :
    List (Option String × Tree) → Bool →
      Except ReadError (Option (Bool × Tree × List (Option String × Tree)))
  | [], closed => if closed then .ok none else .error .malformed
  | (none, _) :: _, _ => .error .malformed
  | (some key, t) :: rest, closed =>
    if key = tag then .ok (some (true, t, rest))
    else if key = content then .ok (some (false, t, rest))
    else if m.canSkip t then nextRelevant tag content m rest closed
    else .error .malformed

def noneRelevant (tag content : String) (m : Medium) (members : List (Option String × Tree))
    (closed : Bool) : Except ReadError Unit := do
  match ← nextRelevant tag content m members closed with
  | none => return ()
  | some (true, _, _) => throw (.duplicateField tag)
  | some (false, _, _) => throw (.duplicateField content)

def readBeside {α : Type} (tag content : String) (variants : List (Variant α)) (m : Medium)
    (members : List (Option String × Tree)) (closed : Bool) : Except ReadError α := do
  let names := variants.map (·.name)
  match ← nextRelevant tag content m members closed with
  | none => throw (.missingField tag)
  | some (true, t, rest) =>
    let i ← Codec.readName names m t
    match ← nextRelevant tag content m rest closed with
    | none => throw (.missingField content)
    | some (true, _, _) => throw (.duplicateField tag)
    | some (false, body, rest) =>
      let a ← readVariant variants i m body
      noneRelevant tag content m rest closed
      return a
  | some (false, body, rest) =>
    if !m.canHold body then throw .malformed
    match ← nextRelevant tag content m rest closed with
    | none => throw (.missingField tag)
    | some (false, _, _) => throw (.duplicateField content)
    | some (true, t, rest) =>
      let i ← Codec.readName names m t
      let a ← readVariant variants i .buffer body
      noneRelevant tag content m rest closed
      return a

/-- Values with the tag in one member and the rest of the value in another. As a list the tag comes
first, and is the name itself. -/
def beside {α : Type} (tag content : String) (variants : List (Variant α)) : Codec α where
  read
    | m, .object members closed => do
      let inside ← m.enter
      readBeside tag content variants inside members closed
    | m, .array items closed => do
      let inside ← m.enter
      match items with
      | [] => if closed then throw .wrongLength else throw .malformed
      | t :: rest =>
        let i ← Codec.readTag (variants.map (·.name)) inside t
        match rest with
        | [] => if closed then throw .wrongLength else throw .malformed
        | t :: rest =>
          let a ← readVariant variants i inside t
          match rest with
          | [] => if closed then return a else throw .malformed
          | _ :: _ => throw inside.tooLong
    | _, t => .error t.mismatch
  write a :=
    match untagged? a variants with
    | some (name, body) => .object [(tag, .string name), (content, body)]
    | none => .null

end Tagged

end SyncAccounting.Json
