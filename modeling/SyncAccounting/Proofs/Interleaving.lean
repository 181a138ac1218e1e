import SyncAccounting.Proofs.History

/-!
The two sides of a sync send at their own pace, so that the order of two messages from different
sides is up to chance. A history says the same of one side, whatever the other one sends in between.
-/

set_option autoImplicit false

namespace SyncAccounting

/-- The histories in which some messages of the source and some of the destination come, those of
each side in their order, and nothing else. -/
inductive Interleaves : List Message → List Message → History → Prop
  | nil : Interleaves [] [] []
  | source {S D : List Message} {h : History} (now : Instant) (m : Message)
      (rest : Interleaves S D h) : Interleaves (m :: S) D ((now, .message .source m) :: h)
  | destination {S D : List Message} {h : History} (now : Instant) (m : Message)
      (rest : Interleaves S D h) : Interleaves S (m :: D) ((now, .message .destination m) :: h)

namespace History

def alone (side : Side) (messages : List Message) : History :=
  messages.map fun m => (0, .message side m)

end History

namespace Interleaves

variable {S D : List Message} {h : History}

theorem checkpoints_eq (interleaves : Interleaves S D h) :
    h.checkpoints = (History.alone .source S).checkpoints := by
  induction interleaves with
  | nil => rfl
  | source now m rest ih =>
    cases m with
    | checkpoint c => exact congrArg (c :: ·) ih
    | record r => exact ih
    | estimate e => exact ih
    | trace t => exact ih
  | destination now m rest ih => cases m <;> exact ih

theorem acknowledgements_eq (interleaves : Interleaves S D h) :
    h.acknowledgements = (History.alone .destination D).acknowledgements := by
  induction interleaves with
  | nil => rfl
  | source now m rest ih => cases m <;> exact ih
  | destination now m rest ih =>
    cases m with
    | checkpoint c => exact congrArg (c :: ·) ih
    | record r => exact ih
    | estimate e => exact ih
    | trace t => exact ih

private theorem numbered_eq (interleaves : Interleaves S D h) (n : Nat) :
    h.numbered n = (History.alone .source S).numbered n := by
  induction interleaves generalizing n with
  | nil => rfl
  | source now m rest ih =>
    cases m with
    | record r => exact congrArg ((n, r) :: ·) (ih n)
    | checkpoint c => exact ih (n + 1)
    | estimate e => exact ih n
    | trace t => exact ih n
  | destination now m rest ih => cases m <;> exact ih n

theorem named_eq (interleaves : Interleaves S D h) :
    h.filterMap (·.2.stream?) = (History.alone .source S).filterMap (·.2.stream?) := by
  induction interleaves with
  | nil => rfl
  | source now m rest ih =>
    rw [History.alone, List.map_cons, List.filterMap_cons, List.filterMap_cons, ih]
    rfl
  | destination now m rest ih => cases m <;> exact ih

private theorem streams_eq (interleaves : Interleaves S D h) :
    h.streams = (History.alone .source S).streams := by
  rw [History.streams, interleaves.named_eq, History.streams]

private theorem row_eq (interleaves : Interleaves S D h) (k : Nat) :
    h.row k = (History.alone .source S).row k := by
  rw [History.row, History.window, interleaves.streams_eq, interleaves.numbered_eq]
  rfl

theorem snapshot_eq (interleaves : Interleaves S D h) (k : Nat) :
    h.snapshot k = (History.alone .source S).snapshot k := by
  rw [History.snapshot, interleaves.row_eq, interleaves.checkpoints_eq]
  rfl

end Interleaves

end SyncAccounting
