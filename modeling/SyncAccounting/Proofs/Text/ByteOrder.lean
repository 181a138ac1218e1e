import SyncAccounting.Proofs.SortedList
import SyncAccounting.Proofs.Text.Bytes

/-!
Texts, and with them streams, are in the order of their bytes. The bytes of a character that comes
later are larger where they first differ, and the bytes of no character are the beginning of those
of another one.
-/

set_option autoImplicit false

namespace SyncAccounting

namespace Transcript

private theorem utf8EncodeChar_append_lt {c d : Char} (less : c < d) (xs ys : List UInt8) :
    String.utf8EncodeChar c ++ xs < String.utf8EncodeChar d ++ ys := by
  have codes : c.val.toNat < d.val.toNat := less
  have bound : d.val.toNat < 0x110000 := by
    rcases d.valid with low | high
    · exact Nat.lt_trans low (by decide)
    · exact high.2
  -- One case for each pair of lengths, from one byte to four.
  fun_cases String.utf8EncodeChar c <;> fun_cases String.utf8EncodeChar d
  all_goals simp only [List.cons_append, List.nil_append, List.cons_lt_cons_iff,
    UInt8.lt_iff_toNat_lt, ← UInt8.toNat_inj, UInt8.toNat_ofNat']
  all_goals simp (disch := omega) only [Nat.mod_eq_of_lt]
  all_goals omega

private theorem flatMap_utf8EncodeChar_lt {xs ys : List Char} (less : xs < ys) :
    xs.flatMap String.utf8EncodeChar < ys.flatMap String.utf8EncodeChar := by
  induction xs generalizing ys with
  | nil =>
    cases ys with
    | nil => exact absurd less (List.lt_irrefl _)
    | cons d ys =>
      obtain ⟨b, bs, starts⟩ := List.exists_cons_of_ne_nil (String.utf8EncodeChar_ne_nil (c := d))
      rw [List.flatMap_cons, starts]
      exact List.nil_lt_cons b _
  | cons c xs ih =>
    cases ys with
    | nil => exact absurd less (List.not_lt_nil _)
    | cons d ys =>
      rw [List.flatMap_cons, List.flatMap_cons]
      rcases List.cons_lt_cons_iff.1 less with first | ⟨rfl, rest⟩
      · exact utf8EncodeChar_append_lt first _ _
      · exact List.append_left_lt (ih rest)

private theorem bytes_lt_iff (s t : String) : bytes s < bytes t ↔ s < t := by
  have up {s t : String} (less : s < t) : bytes s < bytes t := by
    rw [bytes_eq_flatMap, bytes_eq_flatMap]
    exact flatMap_utf8EncodeChar_lt less
  refine ⟨fun less => ?_, up⟩
  by_contra notLess
  by_cases more : t < s
  · exact List.lt_asymm less (up more)
  · cases String.le_antisymm (String.not_lt.1 more) (String.not_lt.1 notLess)
    exact List.lt_irrefl _ less

end Transcript

namespace StreamKey

open Transcript

/-- By the bytes of the name, then without a space before within one, then by the bytes of the
space. -/
def BytesBefore (a b : StreamKey) : Prop :=
  bytes a.name < bytes b.name ∨ a.name = b.name ∧
    match a.space, b.space with
    | none, some _ => True
    | some x, some y => bytes x < bytes y
    | _, none => False

theorem bytesBefore_iff (a b : StreamKey) : a.BytesBefore b ↔ a < b := by
  have spaces : (match a.space, b.space with
      | none, some _ => True
      | some x, some y => bytes x < bytes y
      | _, none => False) ↔ a.space < b.space := by
    cases a.space with
    | none => cases b.space <;> simp
    | some x =>
      cases b.space with
      | none => simp
      | some y => exact (bytes_lt_iff x y).trans Option.some_lt_some.symm
  rw [BytesBefore, spaces, bytes_lt_iff, lt_iff]

end StreamKey

end SyncAccounting
