import SyncAccounting.Settings.Mapping
import SyncAccounting.Settings.Template
import SyncAccounting.Text.Blank
import SyncAccounting.Wire.Settings

/-!
Settings from a text: references to variables are replaced, and the result is a mapping document.
-/

set_option autoImplicit false

namespace SyncAccounting

inductive SettingsError where
  /-- There is no such file, or it is not text. -/
  | unreadable (path : String)
  | missingVariables (names : List String)
  /-- The text is not a mapping of settings. -/
  | unfit
  deriving DecidableEq

def SettingsError.message : SettingsError → String
  | unreadable path => "Failed to read tracker config file: " ++ path
  | missingVariables names =>
    "Missing environment variable(s): " ++ String.intercalate ", " names
  | unfit => "Failed to parse tracker config YAML"

namespace Mapping

def digitsValue? (base : Nat) (digits : List Char) : Option Nat :=
  if digits.isEmpty then none
  else digits.foldlM (fun n c => do
    let d ← Json.Token.hexValue? c
    if d < base then some (base * n + d) else none) 0

/-- A number in one of four bases, with a plus sign or none. Zeros do not stand before other digits
of a decimal number. -/
def natural? (text : List Char) : Option Nat :=
  let unsigned := match text with
    | '+' :: rest => rest
    | rest => rest
  match unsigned with
  | '0' :: 'x' :: rest => digitsValue? 16 rest
  | '0' :: 'o' :: rest => digitsValue? 8 rest
  | '0' :: 'b' :: rest => digitsValue? 2 rest
  | '0' :: _ :: _ => none
  | digits => digitsValue? 10 digits

/-- What a scalar stands for: text in quotes for itself, plain text for a truth value or a number
where it can. -/
def Scalar.tree (s : Scalar) : Json.Tree :=
  if s.quoted then .string (some s.text)
  else if s.text ∈ ["true", "True", "TRUE"] then .bool true
  else if s.text ∈ ["false", "False", "FALSE"] then .bool false
  else
    match (natural? s.text.toList).bind Count.ofNat? with
    | some n => .number (some (.natural n))
    | none => .string (some s.text)

def tree (entries : List Entry) : Json.Tree :=
  .object (entries.map fun e => (some e.1.text, e.2.tree)) true

end Mapping

namespace Settings

/-- Settings from a text without references. A blank text has none, and so the defaults. -/
def ofDocument (text : String) : Except SettingsError Settings :=
  if Text.isBlank text then .ok default
  else
    match (Mapping.ofText? text).map fun entries => codec.read .parsed (Mapping.tree entries) with
    | some (.ok s) => .ok s
    | _ => .error .unfit

def ofText (env : Environment) (text : String) : Except SettingsError Settings :=
  match env.substitute text with
  | .error names => .error (.missingVariables names)
  | .ok text => ofDocument text

def ofFile (env : Environment) (path : String) (content : Option ByteArray) :
    Except SettingsError Settings :=
  match content.bind String.fromUTF8? with
  | some text => ofText env text
  | none => .error (.unreadable path)

end Settings

end SyncAccounting
