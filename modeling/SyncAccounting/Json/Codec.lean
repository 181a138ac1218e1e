import SyncAccounting.Json.ReadError
import SyncAccounting.Json.Printer

/-!
Typed data: how values of a type are read from trees and written as values, for words, numbers,
names, optional values, free values and lists.
-/

set_option autoImplicit false

namespace SyncAccounting.Json

/-- A way to read and to write the values of a type. -/
structure Codec (α : Type) where
  read : Reader α
  write : α → Value

def nameIndex (names : List String) (name : String) : Except ReadError Nat :=
  match names.idxOf? name with
  | some i => .ok i
  | none => .error (.unknownVariant name names)

def readAll {α : Type} (read : Reader α) (m : Medium) :
    List Tree → Bool → Except ReadError (List α)
  | [], closed => if closed then .ok [] else .error .malformed
  | t :: rest, closed => do
    let a ← read m t
    let as ← readAll read m rest closed
    return a :: as

namespace Codec

def text {α : Type} (c : Codec α) (a : α) : String := (c.write a).compact

def ofText {α : Type} (c : Codec α) (text : String) : Except ReadError α := do
  let document := Document.ofText text
  let a ← c.read (.text 0) document.tree
  if document.trailing then throw .malformed
  return a

def ofValue {α : Type} (c : Codec α) (v : Value) : Except ReadError α :=
  c.read .parsed (.ofValue v)

def map {α β : Type} (c : Codec α) (wrap : α → β) (unwrap : β → α) : Codec β where
  read m t := (c.read m t).map wrap
  write b := c.write (unwrap b)

def string : Codec String where
  read
    | _, .string (some s) => .ok s
    | _, t => .error t.mismatch
  write := .string

def bool : Codec Bool where
  read
    | _, .bool b => .ok b
    | _, t => .error t.mismatch
  write := .bool

def count : Codec Count where
  read
    | _, .number (some (.natural n)) => .ok n
    | _, .number (some (.negative _ _)) => .error .outOfRange
    | _, t => .error t.mismatch
  write := .count

def word : Codec UInt32 where
  read
    | _, .number (some (.natural n)) =>
      if n.toNat < 0x1_0000_0000 then .ok (.ofNat n.toNat) else .error .outOfRange
    | _, .number (some (.negative _ _)) => .error .outOfRange
    | _, t => .error t.mismatch
  write n := .number (.ofInt n.toNat)

def integer : Codec Int64 where
  read
    | _, .number (some (.natural n)) =>
      if n.toNat < 0x8000_0000_0000_0000 then .ok (.ofNat n.toNat) else .error .outOfRange
    | _, .number (some (.negative n _)) => .ok (.ofInt n)
    | _, t => .error t.mismatch
  write n := .number (.ofInt n.toInt)

def real : Codec Binary64 where
  read
    | _, .number (some n) => .ok n.toBinary64
    | _, t => .error t.mismatch
  write x := .number (.real x)

def free : Codec Value where
  read m t := if m.canHold t then .ok t.toValue else .error .malformed
  write v := v

def optional {α : Type} (c : Codec α) : Codec (Option α) where
  read
    | _, .null => .ok none
    | m, t => (c.read m t).map some
  write
    | none => .null
    | some a => c.write a

def list {α : Type} (c : Codec α) : Codec (List α) where
  read
    | m, .array items closed => do
      let inside ← m.enter
      readAll c.read inside items closed
    | _, t => .error t.mismatch
  write as := .array (as.map c.write)

def isUnit : Medium → Tree → Except ReadError Unit
  | _, .null => .ok ()
  | .buffer, .object [] true => .ok ()
  | _, t => .error t.mismatch

/-- One of several names, by its position: the name itself, or an object with the name as its only
key and nothing under it. -/
def readName (names : List String) : Reader Nat
  | _, .string (some s) => nameIndex names s
  | .text depth, .object members closed => do
    let inside ← (Medium.text depth).enter
    match members with
    | (some key, t) :: rest =>
      let i ← nameIndex names key
      isUnit inside t
      if rest.isEmpty && closed then return i else throw .malformed
    | _ => throw .malformed
  | .text _, _ => .error .malformed
  | m, .object [(some key, t)] _ => do
    let i ← nameIndex names key
    isUnit m t
    return i
  | _, .object _ _ => .error .outOfRange
  | _, t => .error t.mismatch

/-- A tag that is the name itself, as it is among the members of an object or first in a list. A tag
that has been kept for later may be the position of the name. -/
def readTag (names : List String) : Reader Nat
  | _, .string (some s) => nameIndex names s
  | .buffer, .number (some (.natural n)) =>
    if n.toNat < names.length then .ok n.toNat else .error .outOfRange
  | _, t => .error t.mismatch

/-- A value of a type with finitely many named values, all of which are in the list. -/
def named {α : Type} [DecidableEq α] [Inhabited α] (names : List (String × α)) : Codec α where
  read m t := (readName (names.map Prod.fst) m t).map fun i => (names.map Prod.snd).getD i default
  write a := .string ((names.find? fun p => p.2 = a).elim "" Prod.fst)

end Codec

end SyncAccounting.Json
