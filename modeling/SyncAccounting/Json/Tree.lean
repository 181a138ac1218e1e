import SyncAccounting.Json.Token

/-!
Trees of texts. A text is read as a tree as far as it goes: an array or object that breaks off has
the items before the break, and says that it was not closed. So a reader of typed data finds its
own errors and the faults of the text in the order in which they stand in the text.
-/

set_option autoImplicit false

namespace SyncAccounting.Json

inductive Tree where
  /-- Where a value should stand and none does. -/
  | broken
  | null
  | bool (b : Bool)
  | number (n : Option Number)
  | string (s : Option String)
  | array (items : List Tree) (closed : Bool)
  | object (members : List (Option String × Tree)) (closed : Bool)

instance : Inhabited Tree := ⟨.broken⟩

/-- An array or object whose end has not been read, with its items from last to first. -/
inductive Opened where
  | array (items : List Tree)
  | object (members : List (Option String × Tree))
  /-- An object that waits for the value of a member. -/
  | member (members : List (Option String × Tree)) (key : Option String)

inductive Expected where
  | value
  /-- The first item of an array, or its end. -/
  | firstItem
  /-- The first key of an object, or its end. -/
  | firstKey
  | key
  | colon
  /-- A comma or the end of what is open. -/
  | separator
  deriving DecidableEq

/-- The tree of a text, and whether more follows its end than space. -/
structure Document where
  tree : Tree
  trailing : Bool

inductive Assembly where
  | unfinished (stack : List Opened) (expected : Expected)
  | finished (document : Document)

namespace Assembly

def start : Assembly := .unfinished [] .value

def breakOff : List Opened → Tree → Tree
  | [], t => t
  | .array items :: stack, t => breakOff stack (.array (t :: items).reverse false)
  | .object members :: stack, _ => breakOff stack (.object members.reverse false)
  | .member members key :: stack, t => breakOff stack (.object ((key, t) :: members).reverse false)

/-- The text breaks off where a value should start or where something else should stand. -/
def fail (stack : List Opened) (expected : Expected) : Assembly :=
  let tree := match expected, stack with
    | .value, stack => breakOff stack .broken
    | .colon, stack => breakOff stack .broken
    | _, .array items :: stack => breakOff stack (.array items.reverse false)
    | _, stack => breakOff stack .broken
  .finished ⟨tree, false⟩

def put (tree : Tree) : List Opened → Assembly
  | [] => .finished ⟨tree, false⟩
  | .array items :: stack => .unfinished (.array (tree :: items) :: stack) .separator
  | .member members key :: stack =>
    .unfinished (.object ((key, tree) :: members) :: stack) .separator
  | .object members :: stack => .unfinished (.object members :: stack) .separator

def step : Assembly → Token → Assembly
  | .finished document, _ => .finished { document with trailing := true }
  | .unfinished stack expected, token =>
    match token, expected, stack with
    | .null, .value, _ | .null, .firstItem, _ => put .null stack
    | .bool b, .value, _ | .bool b, .firstItem, _ => put (.bool b) stack
    | .number n, .value, _ | .number n, .firstItem, _ => put (.number n) stack
    | .string s, .value, _ | .string s, .firstItem, _ => put (.string s) stack
    | .openArray, .value, _ | .openArray, .firstItem, _ =>
      .unfinished (.array [] :: stack) .firstItem
    | .openObject, .value, _ | .openObject, .firstItem, _ =>
      .unfinished (.object [] :: stack) .firstKey
    | .closeArray, .firstItem, .array items :: outer
    | .closeArray, .separator, .array items :: outer => put (.array items.reverse true) outer
    | .closeObject, .firstKey, .object members :: outer
    | .closeObject, .separator, .object members :: outer => put (.object members.reverse true) outer
    | .string key, .firstKey, .object members :: outer
    | .string key, .key, .object members :: outer =>
      .unfinished (.member members key :: outer) .colon
    | .colon, .colon, _ => .unfinished stack .value
    | .comma, .separator, .array _ :: _ => .unfinished stack .value
    | .comma, .separator, .object _ :: _ => .unfinished stack .key
    | _, _, _ => fail stack expected

def finish : Assembly → Document
  | .finished document => document
  | .unfinished stack expected =>
    match fail stack expected with
    | .finished document => document
    | .unfinished _ _ => ⟨.broken, false⟩

end Assembly

namespace Document

def ofTokens (tokens : List Token) : Document := (tokens.foldl Assembly.step .start).finish

def ofText (text : String) : Document := ofTokens (Token.scan text.toList)

end Document

def maxDepth : Nat := 127

namespace Tree

mutual

/-- The whole text of a tree can be read as values, with at most so many levels of nesting. -/
def isSound (levels : Nat) : Tree → Bool
  | broken => false
  | null => true
  | bool _ => true
  | number n => n.isSome
  | string s => s.isSome
  | array items closed => 0 < levels && allSound (levels - 1) items && closed
  | object members closed => 0 < levels && membersSound (levels - 1) members && closed

def allSound (levels : Nat) : List Tree → Bool
  | [] => true
  | t :: rest => isSound levels t && allSound levels rest

def membersSound (levels : Nat) : List (Option String × Tree) → Bool
  | [] => true
  | (key, t) :: rest => key.isSome && isSound levels t && membersSound levels rest

end

mutual

def isComplete : Tree → Bool
  | broken => false
  | array items closed => allComplete items && closed
  | object members closed => membersComplete members && closed
  | _ => true

def allComplete : List Tree → Bool
  | [] => true
  | t :: rest => isComplete t && allComplete rest

def membersComplete : List (Option String × Tree) → Bool
  | [] => true
  | (_, t) :: rest => isComplete t && membersComplete rest

end

mutual

def toValue : Tree → Value
  | broken => .null
  | null => .null
  | bool b => .bool b
  | number n => .number (n.getD (.natural 0))
  | string s => .string (s.getD "")
  | array items _ => .array (toValues items)
  | object members _ => .object (SortedList.ofList (toMembers members))

def toValues : List Tree → List Value
  | [] => []
  | t :: rest => toValue t :: toValues rest

def toMembers : List (Option String × Tree) → List (String × Value)
  | [] => []
  | (key, t) :: rest => (key.getD "", toValue t) :: toMembers rest

end

mutual

def ofValue : Value → Tree
  | .null => null
  | .bool b => bool b
  | .number n => number (some n)
  | .string s => string (some s)
  | .array items => array (ofValues items) true
  | .object members => object (ofMembers members) true

def ofValues : List Value → List Tree
  | [] => []
  | v :: rest => ofValue v :: ofValues rest

def ofMembers : List (String × Value) → List (Option String × Tree)
  | [] => []
  | (key, v) :: rest => (some key, ofValue v) :: ofMembers rest

end

end Tree

end SyncAccounting.Json
