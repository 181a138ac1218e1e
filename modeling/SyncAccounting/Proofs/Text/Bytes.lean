import Mathlib.Data.List.Infix

/-!
The bytes of texts, in UTF-8. Which bytes are a text, and how a carriage return at the end of a text
is written.
-/

set_option autoImplicit false

namespace SyncAccounting

theorem Text.fromUTF8?_eq_some_iff (bytes : ByteArray) (text : String) :
    String.fromUTF8? bytes = some text ↔ text.toUTF8 = bytes := by
  unfold String.fromUTF8?
  split
  · next valid =>
    rw [Option.some.injEq]
    constructor
    · rintro rfl
      rfl
    · rintro rfl
      rfl
  · next invalid =>
    refine iff_of_false nofun ?_
    rintro rfl
    exact invalid text.isValidUTF8

namespace Transcript

def bytes (text : String) : List UInt8 := text.toUTF8.data.toList

theorem bytes_eq_flatMap (text : String) :
    bytes text = text.toList.flatMap String.utf8EncodeChar := by
  have encoded : text.toList.utf8Encode = text.toByteArray := String.utf8Encode_toList
  rw [bytes, String.toUTF8, ← encoded]
  simp [List.utf8Encode]

theorem fromUTF8?_eq_some_iff (line : List UInt8) (text : String) :
    String.fromUTF8? ⟨line.toArray⟩ = some text ↔ bytes text = line := by
  rw [Text.fromUTF8?_eq_some_iff, bytes]
  constructor
  · intro same
    rw [same]
  · rintro rfl
    rfl

/-- A carriage return at the end of a character is the whole character: other bytes that a character
ends with are large. -/
private theorem eq_return_of_getLast? {c : Char}
    (last : (String.utf8EncodeChar c).getLast? = some 13) : c = '\r' := by
  have large : ∀ n : Nat, UInt8.ofNat (n % 64 + 128) ≠ 13 := by
    intro n same
    have value := congrArg UInt8.toNat same
    rw [UInt8.toNat_ofNat'] at value
    have : (13 : UInt8).toNat = 13 := rfl
    omega
  have value : c.val.toNat = 13 := by
    unfold String.utf8EncodeChar at last
    dsimp only at last
    split_ifs at last with single
    · have same : (UInt8.ofNat c.val.toNat).toNat = 13 :=
        congrArg UInt8.toNat (Option.some.inj last)
      rwa [UInt8.toNat_ofNat', Nat.mod_eq_of_lt (by omega)] at same
    all_goals exact absurd (Option.some.inj last) (large _)
  exact Char.ext (UInt32.toNat_inj.1 value)

theorem bytes_append_return (text : String) : bytes (text ++ "\r") = bytes text ++ [13] := by
  rw [bytes_eq_flatMap, bytes_eq_flatMap, String.toList_append, List.flatMap_append]
  rfl

theorem exists_of_bytes_eq_append_return {text : String} {line : List UInt8}
    (same : bytes text = line ++ [13]) : ∃ front, bytes front = line ∧ text = front ++ "\r" := by
  rw [bytes_eq_flatMap] at same
  rcases List.eq_nil_or_concat text.toList with empty | ⟨front, c, whole⟩
  · rw [empty] at same
    exact absurd (congrArg List.length same) (by simp)
  rw [whole, List.concat_eq_append, List.flatMap_append, List.flatMap_singleton] at same
  have last : (String.utf8EncodeChar c).getLast? = some 13 := by
    have ends := congrArg List.getLast? same
    rwa [List.getLast?_append_of_ne_nil _ String.utf8EncodeChar_ne_nil,
      List.getLast?_concat] at ends
  rw [eq_return_of_getLast? last] at same whole
  refine ⟨String.ofList front, ?_, String.toList_injective ?_⟩
  · rw [bytes_eq_flatMap, String.toList_ofList]
    exact List.append_cancel_right same
  · rw [whole, String.toList_append, String.toList_ofList, List.concat_eq_append]
    rfl

end Transcript

end SyncAccounting
