import SyncAccounting.Json.Token

/-!
Texts of values: without any space, or with a line for each item. Members of objects keep the order
that they have in the value.
-/

set_option autoImplicit false

namespace SyncAccounting.Json.Value

mutual

def tokens : Value → List Token
  | null => [.null]
  | bool b => [.bool b]
  | number n => [.number (some n)]
  | string s => [.string (some s)]
  | array items => .openArray :: (itemTokens items ++ [.closeArray])
  | object members => .openObject :: (memberTokens members ++ [.closeObject])

def itemTokens : List Value → List Token
  | [] => []
  | [v] => tokens v
  | v :: rest => tokens v ++ .comma :: itemTokens rest

def memberTokens : List (String × Value) → List Token
  | [] => []
  | [(key, v)] => .string (some key) :: .colon :: tokens v
  | (key, v) :: rest => .string (some key) :: .colon :: (tokens v ++ .comma :: memberTokens rest)

end

def compact (v : Value) : String := String.ofList (v.tokens.flatMap Token.text)

/-- The size of a value is the length of its text in bytes. -/
def byteSize (v : Value) : Count := .ofNat v.compact.utf8ByteSize

def newline (level : Nat) : List Char := '\n' :: List.replicate (2 * level) ' '

mutual

/-- The text of a value with a line for each item, inside so many arrays and objects. -/
def lines (level : Nat) : Value → List Char
  | array [] => ['[', ']']
  | array items => '[' :: (itemLines (level + 1) items ++ newline level ++ [']'])
  | object [] => ['{', '}']
  | object members => '{' :: (memberLines (level + 1) members ++ newline level ++ ['}'])
  | v => v.tokens.flatMap Token.text

def itemLines (level : Nat) : List Value → List Char
  | [] => []
  | [v] => newline level ++ lines level v
  | v :: rest => newline level ++ lines level v ++ ',' :: itemLines level rest

def memberLines (level : Nat) : List (String × Value) → List Char
  | [] => []
  | [(key, v)] => newline level ++ Token.quoted key ++ [':', ' '] ++ lines level v
  | (key, v) :: rest =>
    newline level ++ Token.quoted key ++ [':', ' '] ++ lines level v ++
      ',' :: memberLines level rest

end

def pretty (v : Value) : String := String.ofList (v.lines 0)

end SyncAccounting.Json.Value
