import SyncAccounting.Json.Record
import SyncAccounting.Settings

/-!
How settings are written as data. A member that is missing has its default, and no other member is
allowed.
-/

set_option autoImplicit false

namespace SyncAccounting.Settings

open Json

def record : Record Settings where
  fields := .cons (.preset "max_pending_state_bytes" .count default.maxPendingStateBytes)
    (.cons (.preset "commit_tracking_enabled" .bool default.commitTrackingEnabled)
    (.cons (.preset "log_checkpoints" .bool default.logCheckpoints) .nil))
  strict := true
  build | (bytes, tracking, log, _) => ⟨bytes, tracking, log⟩
  parts s := (s.maxPendingStateBytes, s.commitTrackingEnabled, s.logCheckpoints, ())

def codec : Codec Settings := record.codec

end SyncAccounting.Settings
