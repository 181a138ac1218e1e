import SyncAccounting.Message

/-!
The first error that each side of a sync reports, and the reason for which an attempt failed.
-/

set_option autoImplicit false

namespace SyncAccounting

structure CapturedError where
  error : TraceError
  emittedAt : Binary64
  deriving DecidableEq

structure FailureReason where
  origin : Side
  failureType : FailureType
  externalMessage : String
  internalMessage : Option String
  stackTrace : Option String
  timestamp : Int64
  emittedAt : Binary64
  attemptNumber : UInt32
  deriving DecidableEq

namespace FailureReason

def ofError (origin : Side) (e : CapturedError) (timestamp : Int64) (attempt : UInt32) :
    FailureReason where
  origin := origin
  failureType := e.error.failureType
  externalMessage := e.error.message
  internalMessage := e.error.internalMessage
  stackTrace := e.error.stackTrace
  timestamp := timestamp
  emittedAt := e.emittedAt
  attemptNumber := attempt

def text (r : FailureReason) : String :=
  r.origin.text ++ " failure (attempt " ++ r.attemptNumber.toNat.repr ++ "): " ++ r.externalMessage

end FailureReason

structure FirstErrors where
  source : Option CapturedError
  destination : Option CapturedError
  deriving DecidableEq

namespace FirstErrors

def empty : FirstErrors := ⟨none, none⟩

def of (errors : FirstErrors) : Side → Option CapturedError
  | .source => errors.source
  | .destination => errors.destination

/-- Keeps an error where its side has not reported one before. -/
def report (errors : FirstErrors) (side : Side) (e : CapturedError) : FirstErrors :=
  match side with
  | .source => { errors with source := errors.source.or (some e) }
  | .destination => { errors with destination := errors.destination.or (some e) }

/-- The reason is the error of the source, or else that of the destination. -/
def reason (errors : FirstErrors) (timestamp : Int64) (attempt : UInt32) : Option FailureReason :=
  match errors.source, errors.destination with
  | some e, _ => some (.ofError .source e timestamp attempt)
  | none, some e => some (.ofError .destination e timestamp attempt)
  | none, none => none

end FirstErrors

end SyncAccounting
