import Mathlib.Data.List.Forall2
import Mathlib.Data.List.ReduceOption
import Mathlib.Logic.Relation
import SyncAccounting.Proofs.Json.TrailingSpace
import SyncAccounting.Proofs.Text.Bytes
import SyncAccounting.Transcript

/-!
What the lines of a file say, and which changes to the layout of the file leave it alone: blank
lines, the end of the last line, and how lines are ended.
-/

set_option autoImplicit false

namespace SyncAccounting.Transcript

open Json

/-! ### What a line says -/

/-- A line that can be replayed, and what it says: nothing, where it is blank, or an entry. -/
inductive Says (line : List UInt8) : Option Entry → Prop
  | blank {text : String} (utf8 : String.fromUTF8? ⟨line.toArray⟩ = some text)
      (blank : Text.isBlank text = true) : Says line none
  | entry {text : String} {e : Entry} (utf8 : String.fromUTF8? ⟨line.toArray⟩ = some text)
      (solid : Text.isBlank text = false) (read : Entry.codec.ofText text = .ok e) :
      Says line (some e)

/-- What is wrong with a line that cannot be replayed, and its number. -/
inductive Blames (number : Nat) (line : List UInt8) : Fault → Prop
  | unreadable (utf8 : String.fromUTF8? ⟨line.toArray⟩ = none) :
      Blames number line (.unreadable number)
  | invalid {text : String} {cause : ReadError}
      (utf8 : String.fromUTF8? ⟨line.toArray⟩ = some text) (solid : Text.isBlank text = false)
      (unread : Entry.codec.ofText text = .error cause) : Blames number line (.invalid number cause)

theorem entry?_eq_ok_iff (number : Nat) (line : List UInt8) (said : Option Entry) :
    entry? number line = .ok said ↔ Says line said := by
  constructor
  · intro told
    unfold entry? at told
    split at told
    · cases told
    · next text utf8 =>
      split at told
      · next blank =>
        cases told
        exact .blank utf8 blank
      · next solid =>
        split at told
        · next e read =>
          cases told
          exact .entry utf8 (Bool.eq_false_iff.2 solid) read
        · cases told
  · intro told
    cases told with
    | blank utf8 blank => simp only [ entry?, utf8, if_pos blank]
    | entry utf8 solid read => simp only [ entry?, utf8, solid, read, Bool.false_eq_true, if_false]

theorem entry?_eq_error_iff (number : Nat) (line : List UInt8) (fault : Fault) :
    entry? number line = .error fault ↔ Blames number line fault := by
  constructor
  · intro told
    unfold entry? at told
    split at told
    · next utf8 =>
      cases told
      exact .unreadable utf8
    · next text utf8 =>
      split at told
      · cases told
      · next solid =>
        split at told
        · cases told
        · next cause unread =>
          cases told
          exact .invalid utf8 (Bool.eq_false_iff.2 solid) unread
  · intro blames
    cases blames with
    | unreadable utf8 => simp only [ entry?, utf8]
    | invalid utf8 solid unread =>
      simp only [ entry?, utf8, solid, unread, Bool.false_eq_true, if_false]

private theorem isBlank_append_return (text : String) :
    Text.isBlank (text ++ "\r") = Text.isBlank text := by
  have blank : Text.isBlankChar '\r' = true := by decide
  rw [Text.isBlank, Text.isBlank, String.toList_append, List.all_append]
  simp [blank]

private theorem ofText_append_return (text : String) :
    Entry.codec.ofText (text ++ "\r") = Entry.codec.ofText text := by
  have words : Token.scan (text ++ "\r").toList = Token.scan text.toList := by
    rw [String.toList_append]
    exact Token.scan_append_space (by decide) text.toList
  have same : Document.ofText (text ++ "\r") = Document.ofText text := by
    rw [Document.ofText, words, Document.ofText]
  rw [Codec.ofText, same, Codec.ofText]

private theorem says_append_return (line : List UInt8) (said : Option Entry) :
    Says (line ++ [13]) said ↔ Says line said := by
  constructor
  · intro told
    cases told with
    | blank utf8 blank =>
      obtain ⟨front, same, rfl⟩ :=
        exists_of_bytes_eq_append_return ((fromUTF8?_eq_some_iff _ _).1 utf8)
      rw [isBlank_append_return] at blank
      exact .blank ((fromUTF8?_eq_some_iff _ _).2 same) blank
    | entry utf8 solid read =>
      obtain ⟨front, same, rfl⟩ :=
        exists_of_bytes_eq_append_return ((fromUTF8?_eq_some_iff _ _).1 utf8)
      rw [isBlank_append_return] at solid
      rw [ofText_append_return] at read
      exact .entry ((fromUTF8?_eq_some_iff _ _).2 same) solid read
  · have longer : ∀ {text : String}, String.fromUTF8? ⟨line.toArray⟩ = some text →
        String.fromUTF8? ⟨(line ++ [13]).toArray⟩ = some (text ++ "\r") := by
      intro text utf8
      rw [fromUTF8?_eq_some_iff] at utf8 ⊢
      rw [bytes_append_return, utf8]
    intro told
    cases told with
    | blank utf8 blank => exact .blank (longer utf8) ((isBlank_append_return _).trans blank)
    | entry utf8 solid read =>
      exact .entry (longer utf8) ((isBlank_append_return _).trans solid)
        ((ofText_append_return _).trans read)

private theorem says_chopReturn (line : List UInt8) (said : Option Entry) :
    Says (chopReturn line) said ↔ Says line said := by
  unfold chopReturn
  split
  · next last =>
    obtain ⟨front, rfl⟩ := List.getLast?_eq_some_iff.1 last
    rw [List.dropLast_concat, says_append_return]
  · rfl

private theorem says_nil : Says [] none := by
  refine .blank ((fromUTF8?_eq_some_iff [] "").2 rfl) rfl

/-! ### What lines say -/

def Reads (lines : List (List UInt8)) (entries : List Entry) : Prop :=
  ∃ said, List.Forall₂ Says lines said ∧ said.reduceOption = entries

theorem reduceOption_cons (said : Option Entry) (rest : List (Option Entry)) :
    (said :: rest).reduceOption = said.toList ++ rest.reduceOption := by
  cases said <;> rfl

private theorem reads_cons (x : List UInt8) (xs : List (List UInt8)) (entries : List Entry) :
    Reads (x :: xs) entries ↔
      ∃ said rest, Says x said ∧ Reads xs rest ∧ entries = said.toList ++ rest := by
  constructor
  · rintro ⟨_, _ | ⟨first, others⟩, rfl⟩
    exact ⟨_, _, first, ⟨_, others, rfl⟩, reduceOption_cons _ _⟩
  · rintro ⟨said, _, first, ⟨more, others, rfl⟩, rfl⟩
    exact ⟨said :: more, .cons first others, reduceOption_cons said more⟩

def SameSaid (xs ys : List (List UInt8)) : Prop := ∀ entries, Reads xs entries ↔ Reads ys entries

private theorem SameSaid.refl (xs : List (List UInt8)) : SameSaid xs xs := fun _ => Iff.rfl

private theorem SameSaid.cons {x y : List UInt8} {xs ys : List (List UInt8)}
    (first : ∀ said, Says x said ↔ Says y said) (rest : SameSaid xs ys) :
    SameSaid (x :: xs) (y :: ys) := by
  intro entries
  rw [reads_cons, reads_cons]
  refine exists_congr fun said => exists_congr fun others => ?_
  rw [first said, rest others]

private theorem SameSaid.append_left {xs ys : List (List UInt8)} (same : SameSaid xs ys)
    (front : List (List UInt8)) : SameSaid (front ++ xs) (front ++ ys) := by
  induction front with
  | nil => exact same
  | cons x front ih => exact ih.cons fun _ => Iff.rfl

private theorem Says.unique {x : List UInt8} {said other : Option Entry} (first : Says x said)
    (second : Says x other) : said = other := by
  have told := (entry?_eq_ok_iff 0 x said).2 first
  rw [(entry?_eq_ok_iff 0 x other).2 second] at told
  exact (Except.ok.inj told).symm

private theorem sameSaid_cons_of_blank {x : List UInt8} (blank : Says x none)
    (xs : List (List UInt8)) :
    SameSaid (x :: xs) xs := by
  intro entries
  rw [reads_cons]
  constructor
  · rintro ⟨said, rest, first, others, rfl⟩
    rw [first.unique blank]
    exact others
  · intro others
    exact ⟨none, entries, blank, others, rfl⟩

/-! ### Layouts -/

private theorem linesFrom_newline (line rest : List UInt8) :
    linesFrom line (10 :: rest) = chopReturn line.reverse :: lines rest := by
  rw [linesFrom, if_pos rfl, lines]

private theorem linesFrom_cons {b : UInt8} (inside : b ≠ 10) (line rest : List UInt8) :
    linesFrom line (b :: rest) = linesFrom (b :: line) rest := by
  rw [linesFrom, if_neg inside]

private theorem linesFrom_append (line front rest : List UInt8) :
    linesFrom line (front ++ 10 :: rest) = linesFrom line (front ++ [10]) ++ lines rest := by
  induction front generalizing line with
  | nil =>
    rw [List.nil_append, List.nil_append, linesFrom_newline, linesFrom_newline]
    rfl
  | cons b front ih =>
    rw [List.cons_append, List.cons_append]
    by_cases ends : b = 10
    · subst ends
      rw [linesFrom_newline, linesFrom_newline, List.cons_append]
      exact congrArg _ (ih [])
    · rw [linesFrom_cons ends, linesFrom_cons ends, ih]

private theorem linesFrom_of_not_mem {front : List UInt8} (inside : 10 ∉ front)
    (line rest : List UInt8) :
    linesFrom line (front ++ 10 :: rest) = chopReturn (line.reverse ++ front) :: lines rest := by
  induction front generalizing line with
  | nil => rw [List.nil_append, linesFrom_newline, List.append_nil]
  | cons b front ih =>
    have first : b ≠ 10 := fun same => inside (same ▸ List.mem_cons_self)
    have others : 10 ∉ front := fun mem => inside (List.mem_cons_of_mem b mem)
    rw [List.cons_append, linesFrom_cons first, ih others, List.reverse_cons, List.append_assoc,
      List.singleton_append]

private theorem sameSaid_linesFrom_newline (line content : List UInt8) :
    SameSaid (linesFrom line (content ++ [10])) (linesFrom line content) := by
  induction content generalizing line with
  | nil =>
    rw [List.nil_append, linesFrom_newline]
    cases line with
    | nil => exact sameSaid_cons_of_blank says_nil []
    | cons b line => exact (SameSaid.refl _).cons (says_chopReturn _)
  | cons b content ih =>
    rw [List.cons_append]
    by_cases ends : b = 10
    · subst ends
      rw [linesFrom_newline, linesFrom_newline]
      exact (ih []).cons fun _ => Iff.rfl
    · rw [linesFrom_cons ends, linesFrom_cons ends]
      exact ih _

private theorem sameSaid_linesFrom_return (line front rest : List UInt8) :
    SameSaid (linesFrom line (front ++ 10 :: rest))
      (linesFrom line (front ++ 13 :: 10 :: rest)) := by
  induction front generalizing line with
  | nil =>
    rw [List.nil_append, List.nil_append, linesFrom_cons (b := 13) (by decide), linesFrom_newline,
      linesFrom_newline, List.reverse_cons]
    refine (SameSaid.refl _).cons fun said => ?_
    rw [says_chopReturn, says_chopReturn, says_append_return]
  | cons b front ih =>
    rw [List.cons_append, List.cons_append]
    by_cases ends : b = 10
    · subst ends
      rw [linesFrom_newline, linesFrom_newline]
      exact (ih []).cons fun _ => Iff.rfl
    · rw [linesFrom_cons ends, linesFrom_cons ends]
      exact ih _

/-- A change to the layout of a file. -/
inductive Relayout : List UInt8 → List UInt8 → Prop
  /-- One more blank line, at the start of a line. -/
  | blankLine {front blank : List UInt8} (rest : List UInt8)
      (starts : front = [] ∨ front.getLast? = some 10) (single : 10 ∉ blank)
      (white : Says blank none) : Relayout (front ++ rest) (front ++ (blank ++ 10 :: rest))
  /-- An end to the last line. -/
  | finalNewline (content : List UInt8) : Relayout content (content ++ [10])
  /-- A carriage return before the end of a line. -/
  | carriageReturn (front rest : List UInt8) :
      Relayout (front ++ 10 :: rest) (front ++ 13 :: 10 :: rest)

/-- No change to the layout changes what the lines say. -/
theorem Relayout.sameSaid {content after : List UInt8} (changed : Relayout content after) :
    SameSaid (lines content) (lines after) := by
  cases changed with
  | blankLine rest starts single white =>
    rename_i front blank
    have one : SameSaid (lines rest) (lines (blank ++ 10 :: rest)) := by
      rw [lines, lines, linesFrom_of_not_mem single]
      exact fun entries =>
        (sameSaid_cons_of_blank ((says_chopReturn _ _).2 white) (lines rest) entries).symm
    rcases starts with rfl | last
    · exact one
    · obtain ⟨before, rfl⟩ := List.getLast?_eq_some_iff.1 last
      rw [List.append_assoc, List.append_assoc, lines, lines, List.singleton_append,
        List.singleton_append, linesFrom_append, linesFrom_append [] before (blank ++ 10 :: rest)]
      exact one.append_left _
  | finalNewline => exact fun entries => (sameSaid_linesFrom_newline [] content entries).symm
  | carriageReturn front rest => exact sameSaid_linesFrom_return [] front rest

theorem sameSaid_of_eqvGen {content after : List UInt8}
    (changed : Relation.EqvGen Relayout content after) :
    SameSaid (lines content) (lines after) := by
  induction changed with
  | rel _ _ once => exact once.sameSaid
  | refl content => exact SameSaid.refl _
  | symm _ _ _ ih => exact fun entries => (ih entries).symm
  | trans _ _ _ _ _ ih₁ ih₂ => exact fun entries => (ih₁ entries).trans (ih₂ entries)

end SyncAccounting.Transcript
