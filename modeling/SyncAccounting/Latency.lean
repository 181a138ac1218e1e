import SyncAccounting.Backlog
import SyncAccounting.Event
import SyncAccounting.Summary

/-!
How long checkpoints take. A gap is the time from one checkpoint of the source to the next, or from
the first record to the first checkpoint. A delay is the time from a checkpoint to the
acknowledgement that covers it. The times of checkpoints that wait for theirs take memory; past its
limit delays are given up for the rest of the attempt.
-/

set_option autoImplicit false

namespace SyncAccounting

/-- Nanoseconds since a start that is the same for all times. -/
abbrev Instant := Nat

abbrev Span := Nat

namespace Span

def nanosPerSecond : Nat := 1000000000

/-- The longest span: sums stay there. -/
def limit : Span := 0x1_0000_0000_0000_0000 * nanosPerSecond - 1

def between (since now : Instant) : Span := min (now - since) limit

def seconds (s : Span) : Count := .ofNat (s / nanosPerSecond)

end Span

/-- Some spans: the longest, the sum, and how many they are. The number has 32 bits and stays at the
largest one. -/
structure SpanStats where
  longest : Span
  total : Span
  count : Nat
  deriving DecidableEq

namespace SpanStats

def empty : SpanStats := ⟨0, 0, 0⟩

def observe (s : SpanStats) (span : Span) : SpanStats where
  longest := max s.longest span
  total := min (s.total + span) Span.limit
  count := min (s.count + 1) 0xFFFF_FFFF

def longest? (s : SpanStats) : Option Count :=
  if 0 < s.count then some s.longest.seconds else none

def mean? (s : SpanStats) : Option Count :=
  if 0 < s.count then some (Span.seconds (s.total / s.count)) else none

end SpanStats

structure Latency where
  capacity : Count
  firstRecord : Option Instant
  lastCheckpoint : Option Instant
  /-- The times of the checkpoints that wait for an acknowledgement, until delays are given up. -/
  outstanding : Option (Backlog Instant)
  gaps : SpanStats
  delays : SpanStats
  deriving DecidableEq

namespace Latency

def ofCapacity (capacity : Count) : Latency := ⟨capacity, none, none, some .empty, .empty, .empty⟩

def timesCost (n : Nat) : Count := Count.ofNat n * 24

def record (l : Latency) (now : Instant) : Latency :=
  { l with firstRecord := l.firstRecord.or (some now) }

def closeGap (l : Latency) (now : Instant) : Latency :=
  { l with
    gaps := (l.lastCheckpoint.or l.firstRecord).elim l.gaps fun since =>
      l.gaps.observe (Span.between since now)
    lastCheckpoint := some now }

def emitted (l : Latency) (index : CheckpointIndex) (now : Instant) : Latency × List Event :=
  let l := l.closeGap now
  match l.outstanding with
  | none => (l, [])
  | some waiting =>
    if l.capacity < timesCost (waiting.size + 1) then
      ({ l with outstanding := none }, [.delaysAbandoned index waiting.size])
    else ({ l with outstanding := some (waiting.insert index now) }, [])

/-- The delays of the checkpoints below the index after the acknowledged one. -/
def committed (l : Latency) (index : CheckpointIndex) (now : Instant) : Latency :=
  match l.outstanding with
  | none => l
  | some waiting =>
    let ready := (waiting.takeBelow index.succ).map Prod.snd
    { l with
      outstanding := some (waiting.dropBelow index.succ)
      delays := ready.foldl (fun s since => s.observe (Span.between since now)) l.delays }

def timing (l : Latency) : CheckpointTiming where
  longestGap := l.gaps.longest?
  meanGap := l.gaps.mean?
  longestDelay := l.outstanding.bind fun _ => l.delays.longest?
  meanDelay := l.outstanding.bind fun _ => l.delays.mean?

end Latency

end SyncAccounting
