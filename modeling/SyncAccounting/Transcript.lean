import SyncAccounting.Attempt
import SyncAccounting.Text.Blank

/-!
Transcripts: the messages of a sync, one in each line, with the side that sent it. A replay gives
them to an attempt in order and stops at the first line that is not an entry. Blank lines are not
entries, but they count where lines are numbered.
-/

set_option autoImplicit false

namespace SyncAccounting

open Json

namespace Transcript

structure Entry where
  origin : Side
  message : Message

namespace Entry

def record : Record Entry where
  fields := .cons (.required "origin" Side.codec) (.cons (.required "message" Message.codec) .nil)
  strict := false
  build | (origin, message, _) => ⟨origin, message⟩
  parts e := (e.origin, e.message, ())

def codec : Codec Entry := record.codec

end Entry

def chopReturn (line : List UInt8) : List UInt8 :=
  if line.getLast? = some 13 then line.dropLast else line

/-- The lines of a file, from what has been read of the first one, in reverse. The last line need
not be ended. -/
def linesFrom : List UInt8 → List UInt8 → List (List UInt8)
  | [], [] => []
  | line, [] => [line.reverse]
  | line, b :: rest =>
    if b = 10 then chopReturn line.reverse :: linesFrom [] rest else linesFrom (b :: line) rest

def lines (content : List UInt8) : List (List UInt8) := linesFrom [] content

/-- Why a line cannot be replayed, with the number of the line. -/
inductive Fault where
  /-- The line is not text. -/
  | unreadable (line : Nat)
  /-- The line is not an entry. -/
  | invalid (line : Nat) (cause : ReadError)
  deriving DecidableEq

def Fault.message : Fault → String
  | unreadable line => "Failed to read transcript line " ++ line.repr
  | invalid line _ => "Invalid transcript line " ++ line.repr

def entry? (number : Nat) (line : List UInt8) : Except Fault (Option Entry) :=
  match String.fromUTF8? ⟨line.toArray⟩ with
  | none => .error (.unreadable number)
  | some text =>
    if Text.isBlank text then .ok none
    else
      match Entry.codec.ofText text with
      | .ok e => .ok (some e)
      | .error cause => .error (.invalid number cause)

end Transcript

/-- How far a replay has come: how many lines it has read, how many messages of the source were
refused, and the line that it stopped at. -/
structure Replay where
  attempt : Attempt
  lines : Nat
  rejected : Count
  fault : Option Transcript.Fault

namespace Replay

def start (a : Attempt) : Replay := ⟨a, 0, 0, none⟩

def apply (r : Replay) (now : Instant) (e : Transcript.Entry) : Replay :=
  let outcome := r.attempt.step now (.message e.origin e.message)
  { r with
    attempt := outcome.attempt
    rejected := match outcome.answer with
      | .ok () => r.rejected
      | .error _ => r.rejected.succ }

def feed (r : Replay) (now : Instant) (line : List UInt8) : Replay :=
  if r.fault.isSome then r
  else
    match Transcript.entry? (r.lines + 1) line with
    | .error fault => { r with fault := some fault }
    | .ok none => { r with lines := r.lines + 1 }
    | .ok (some e) => { r.apply now e with lines := r.lines + 1 }

def feedAll (r : Replay) (clock : Nat → Instant) (lines : List (List UInt8)) : Replay :=
  lines.foldl (fun r line => r.feed (clock (r.lines + 1)) line) r

end Replay

end SyncAccounting
