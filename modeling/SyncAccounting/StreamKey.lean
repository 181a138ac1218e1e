/-!
The name of a stream of records, and the order in which streams are listed.
-/

set_option autoImplicit false

namespace SyncAccounting

/-- A stream is named within a space of names, or outside any. -/
structure StreamKey where
  name : String
  space : Option String
  deriving DecidableEq, Inhabited

namespace StreamKey

def text (key : StreamKey) : String :=
  match key.space with
  | some space => space ++ "." ++ key.name
  | none => key.name

/-- By name, then without a space before within one, then by space. -/
def before (a b : StreamKey) : Bool :=
  if a.name = b.name then
    match a.space, b.space with
    | none, some _ => true
    | some x, some y => x < y
    | _, none => false
  else a.name < b.name

instance : LT StreamKey := ⟨fun a b => before a b = true⟩
instance (a b : StreamKey) : Decidable (a < b) := inferInstanceAs (Decidable (before a b = true))

end StreamKey

end SyncAccounting
