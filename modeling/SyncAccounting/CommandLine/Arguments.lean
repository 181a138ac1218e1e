/-!
The arguments of the command line.
-/

set_option autoImplicit false

namespace SyncAccounting.CommandLine

structure ReplayOptions where
  transcript : String
  config : Option String
  attempt : UInt32
  stateOut : Option String
  deriving DecidableEq

inductive Command where
  | replay (options : ReplayOptions)
  /-- Checks a file of settings. -/
  | config (path : String)
  deriving DecidableEq

inductive Request where
  | run (command : Command)
  | version
  | help
  | misuse
  deriving DecidableEq

/-- The commands, and the state before one of them has been named. -/
inductive Mode where
  | top
  | replay
  | config
  deriving DecidableEq

def commandMode? : String → Option Mode
  | "replay" => some .replay
  | "config" => some .config
  | _ => none

def helpName : String := "help"

def helpRequest : List String → Request
  | [] => .help
  | [name] => if name = helpName ∨ (commandMode? name).isSome then .help else .misuse
  | _ => .misuse

inductive OptionName where
  | logLevel
  | config
  | attempt
  | stateOut
  deriving DecidableEq

def optionName? (mode : Mode) (name : String) : Option OptionName :=
  match mode, name with
  | _, "log-level" => some .logLevel
  | .replay, "config" => some .config
  | .replay, "attempt" => some .attempt
  | .replay, "state-out" => some .stateOut
  | _, _ => none

/-- What has been read of the arguments. The level of the log may be given once before and once
after the command. -/
structure Parsed where
  mode : Mode
  onlyValues : Bool
  values : List String
  options : List (OptionName × String)
  /-- Whether an option was given twice before the command. This is refused when all arguments have
  been read, so that a request for help by or after a command is still met. -/
  repeated : Bool

def word? (text : String) : Option UInt32 :=
  let digits? (cs : List Char) : Option Nat :=
    if cs.isEmpty ∨ cs.any (fun c => ¬('0' ≤ c ∧ c ≤ '9')) then none
    else some (cs.foldl (fun n c => 10 * n + (c.toNat - 48)) 0)
  let n? := match text.toList with
    | '+' :: rest => digits? rest
    | '-' :: rest => (digits? rest).filter (· = 0)
    | cs => digits? cs
  (n?.filter (· < 0x1_0000_0000)).map UInt32.ofNat

def acceptsValue : OptionName → String → Bool
  | .logLevel, _ => true
  | .attempt, value => (word? value).isSome
  | .config, value | .stateOut, value => !value.isEmpty

namespace Parsed

def start : Parsed := ⟨.top, false, [], [], false⟩

/-- An option with its value, in one argument or in two. It has to be the first of its name; before
the command one in two arguments is refused late. -/
def withOption (p : Parsed) (name : OptionName) (value : String) (joined : Bool) : Option Parsed :=
  if !acceptsValue name value then none
  else if p.options.all (·.1 ≠ name) then some { p with options := p.options ++ [(name, value)] }
  else if p.mode = .top ∧ !joined then some { p with repeated := true }
  else none

def withValue (p : Parsed) (value : String) : Option Parsed :=
  match p.mode with
  | .top =>
    match commandMode? value with
    | some mode => if p.onlyValues then none else some { p with mode := mode, options := [] }
    | none => none
  | _ => if p.values.isEmpty ∧ !value.isEmpty then some { p with values := [value] } else none

def request (p : Parsed) : Request :=
  if p.repeated then .misuse
  else
    match p.mode, p.values with
    | .replay, [transcript] =>
      .run (.replay
        { transcript := transcript
          config := p.options.lookup .config
          attempt := ((p.options.lookup .attempt).bind word?).getD 1
          stateOut := p.options.lookup .stateOut })
    | .config, [path] => .run (.config path)
    | _, _ => .misuse

end Parsed

def isValue (argument : String) : Bool :=
  match argument.toList with
  | '-' :: _ :: _ => false
  | _ => true

def splitOption (characters : List Char) : String × Option String :=
  let name := String.ofList (characters.takeWhile (· ≠ '='))
  match characters.dropWhile (· ≠ '=') with
  | _ :: value => (name, some (String.ofList value))
  | [] => (name, none)

def requestFrom (p : Parsed) : List String → Request
  | [] => p.request
  | argument :: rest =>
    if p.mode = .top ∧ !p.onlyValues ∧ argument = helpName then helpRequest rest
    else if p.onlyValues ∨ isValue argument then
      match p.withValue argument with
      | some p => requestFrom p rest
      | none => .misuse
    else if p.mode = .top ∧ p.repeated then .misuse
    else
      match argument.toList with
      | ['-', '-'] => requestFrom { p with onlyValues := true } rest
      | '-' :: '-' :: characters =>
        match splitOption characters with
        | ("help", none) => .help
        | ("version", none) => if p.mode = .top then .version else .misuse
        | (name, value?) =>
          match optionName? p.mode name, value?, rest with
          | some name, some value, rest =>
            match p.withOption name value true with
            | some p => requestFrom p rest
            | none => .misuse
          | some name, none, value :: rest =>
            if isValue value then
              match p.withOption name value false with
              | some p => requestFrom p rest
              | none => .misuse
            else .misuse
          | _, _, _ => .misuse
      | _ :: 'h' :: _ => .help
      | _ :: 'V' :: _ => if p.mode = .top then .version else .misuse
      | _ => .misuse

def request (arguments : List String) : Request := requestFrom .start arguments

end SyncAccounting.CommandLine
