import Mathlib.Tactic.IntervalCases
import SyncAccounting.Json.Token

/-!
Words are read back as they are written. A number goes on as long as digits, points or exponents
follow, so what comes after its text must not start with one of these; every other word ends by
itself.
-/

set_option autoImplicit false

namespace SyncAccounting.Json

namespace Token

def EndsNumber (rest : List Char) : Prop :=
  ∀ c ∈ rest.head?, isDigit c = false ∧ c ≠ '.' ∧ c ≠ 'e' ∧ c ≠ 'E'

theorem endsNumber_nil : EndsNumber [] := by simp [EndsNumber]

theorem endsNumber_cons {c : Char} (rest : List Char)
    (ends : isDigit c = false ∧ c ≠ '.' ∧ c ≠ 'e' ∧ c ≠ 'E') : EndsNumber (c :: rest) := by
  intro d hd
  cases hd
  exact ends

/-! ### Digits -/

private theorem isDigit_eq (c : Char) : isDigit c = c.isDigit := by
  simp [isDigit, Char.isDigit, Char.le_def]

private theorem digitsValue_toDigits (n : Nat) : digitsValue (Nat.toDigits 10 n) = n := by
  have value : Nat.ofDigitChars 10 (Nat.toDigits 10 n) 0 = n := Nat.ofDigitChars_ten_toDigits
  rw [Nat.ofDigitChars_eq_foldl] at value
  exact value

private theorem head?_toDigits {n : Nat} (positive : 0 < n) :
    (Nat.toDigits 10 n).head? ≠ some '0' := by
  induction n using Nat.strongRecOn with
  | ind n ih =>
    rw [Nat.toDigits_eq_if (by decide)]
    split
    · next small => interval_cases n <;> decide
    · next large =>
      have shorter := ih (n / 10) (by omega) (by omega)
      have digits : Nat.toDigits 10 (n / 10) ≠ [] := Nat.toDigits_ne_nil
      obtain ⟨c, cs, same⟩ := List.exists_cons_of_ne_nil digits
      rw [same] at shorter ⊢
      exact shorter

private theorem digits?_toDigits (n : Nat) {rest : List Char}
    (ends : ∀ c ∈ rest.head?, isDigit c = false) :
    digits? (Nat.toDigits 10 n ++ rest) = some (Nat.toDigits 10 n, rest) := by
  have all : ∀ c ∈ Nat.toDigits 10 n, isDigit c = true := by
    intro c hc
    rw [isDigit_eq]
    exact Nat.isDigit_of_mem_toDigits (by decide) (by decide) hc
  have stop : rest.takeWhile isDigit = [] ∧ rest.dropWhile isDigit = rest := by
    cases rest with
    | nil => exact ⟨rfl, rfl⟩
    | cons c rest => simp [ends c rfl]
  rw [digits?, List.takeWhile_append_of_pos all, List.dropWhile_append_of_pos all, stop.1, stop.2,
    List.append_nil]
  split
  · next empty => exact absurd empty Nat.toDigits_ne_nil
  · next digits => rw [digits]

private theorem fractionPart_of_ends {rest : List Char} (ends : EndsNumber rest) :
    fractionPart rest = some ([], rest) := by
  unfold fractionPart
  split
  · exact absurd rfl (ends '.' rfl).2.1
  · rfl

private theorem exponentPart_of_ends {rest : List Char} (ends : EndsNumber rest) :
    exponentPart rest = some (none, rest) := by
  unfold exponentPart
  split
  · next c rest =>
    have mark := (ends c rfl).2.2
    rw [if_neg (by simpa using mark)]
  · rfl

theorem unsigned?_of_digits (negative : Bool) {cs digits rest : List Char}
    (read : digits? cs = some (digits, rest)) (plain : ∀ c more, digits ≠ '0' :: c :: more) :
    unsigned? negative cs = (fractionPart rest).bind fun f => (exponentPart f.2).map fun e =>
      (numberOfParts negative digits f.1 e.1, e.2) := by
  unfold unsigned?
  split
  · next noDigits =>
    rw [noDigits] at read
    cases read
  · next c more after zeros =>
    rw [zeros, Option.some.injEq, Prod.mk.injEq] at read
    exact absurd read.1.symm (plain c more)
  · next whole after _ found =>
    rw [found, Option.some.injEq, Prod.mk.injEq] at read
    obtain ⟨rfl, rfl⟩ := read
    cases fractionPart after with
    | none => rfl
    | some f => cases h : exponentPart f.2 <;> simp [h]

private theorem toDigits_ne_zeros (n : Nat) (c : Char) (more : List Char) :
    Nat.toDigits 10 n ≠ '0' :: c :: more := by
  intro same
  rcases Nat.eq_zero_or_pos n with rfl | positive
  · cases same
  · exact head?_toDigits positive (by rw [same]; rfl)

private theorem unsigned?_toDigits (negative : Bool) (n : Nat) {rest : List Char}
    (ends : EndsNumber rest) :
    unsigned? negative (Nat.toDigits 10 n ++ rest) =
      some (numberOfParts negative (Nat.toDigits 10 n) [] none, rest) := by
  have digits := digits?_toDigits n fun c hc => (ends c hc).1
  rw [unsigned?_of_digits negative digits (toDigits_ne_zeros n), fractionPart_of_ends ends,
    Option.bind_some, exponentPart_of_ends ends, Option.map_some]

private theorem unsigned?_point (negative : Bool) (n k : Nat) {rest : List Char}
    (ends : EndsNumber rest) :
    unsigned? negative (Nat.toDigits 10 n ++ '.' :: (Nat.toDigits 10 k ++ rest)) =
      some (numberOfParts negative (Nat.toDigits 10 n) (Nat.toDigits 10 k) none, rest) := by
  have whole : digits? (Nat.toDigits 10 n ++ '.' :: (Nat.toDigits 10 k ++ rest)) =
      some (Nat.toDigits 10 n, '.' :: (Nat.toDigits 10 k ++ rest)) := by
    refine digits?_toDigits n fun c hc => ?_
    cases hc
    decide
  have fraction : fractionPart ('.' :: (Nat.toDigits 10 k ++ rest)) =
      some (Nat.toDigits 10 k, rest) := digits?_toDigits k fun c hc => (ends c hc).1
  rw [unsigned?_of_digits negative whole (toDigits_ne_zeros n), fraction,
    Option.bind_some, exponentPart_of_ends ends, Option.map_some]

private theorem next_of_isDigit {c : Char} (digit : isDigit c = true) (cs : List Char) :
    next (c :: cs) =
      match unsigned? false (c :: cs) with
      | some (n, rest) => (number n, rest)
      | none => (fault, []) := by
  unfold next
  split
  case h_12 => rfl
  all_goals
    rename_i same
    obtain ⟨rfl, -⟩ := List.cons_eq_cons.1 same
    exact absurd digit (by decide)

theorem cases_of_isSpace {c : Char} (space : isSpace c = true) :
    c = ' ' ∨ c = '\n' ∨ c = '\r' ∨ c = '\t' := by
  simpa [isSpace] using space

private theorem next_of_isSpace {c : Char} (space : isSpace c = true) (cs : List Char) :
    next (c :: cs) = (fault, []) := by
  rcases cases_of_isSpace space with rfl | rfl | rfl | rfl <;> rfl

/-- A word at the start of a text is the first word of the text. -/
theorem scan_eq_cons {t : Token} {cs rest : List Char} (first : next cs = (t, rest))
    (sound : t ≠ fault) : scan cs = t :: scan rest := by
  cases cs with
  | nil =>
    cases first
    exact absurd rfl sound
  | cons c cs =>
    have solid : ¬isSpace c = true := by
      intro space
      rw [next_of_isSpace space] at first
      cases first
      exact sound rfl
    rw [scan, if_neg solid, first]
    exact if_neg sound

theorem scan_of_isSpace {c : Char} (space : isSpace c = true) (cs : List Char) :
    scan (c :: cs) = scan cs := by
  rw [scan, if_pos space]

end Token

/-! ### Numbers -/

namespace Number

def IsLegible (n : Number) : Prop :=
  ∀ rest, Token.EndsNumber rest → Token.next (Token.numberText n ++ rest) = (.number n, rest)

def IsWhole : Number → Prop
  | natural _ => True
  | negative _ _ => True
  | real _ => False

theorem ofInt_toNat (n : Count) : ofInt n.toNat = .natural n := by
  have fits := n.toNat_lt
  rw [ofInt, dif_pos (by omega)]
  rfl

theorem ofInt_of_negative (n : Int) (range : -0x8000_0000_0000_0000 ≤ n ∧ n < 0) :
    ofInt n = .negative n range := by
  rw [ofInt, dif_neg (by omega), dif_pos range]

private theorem numberOfParts_natural (n : Count) :
    Token.numberOfParts false (Nat.toDigits 10 n.toNat) [] none = some (.natural n) := by
  have fits := n.toNat_lt
  have value := Token.digitsValue_toDigits n.toNat
  have range : -0x8000_0000_0000_0000 ≤ (n.toNat : Int) ∧
      (n.toNat : Int) < 0x1_0000_0000_0000_0000 := by omega
  simp [Token.numberOfParts, value, range, ofInt_toNat]

private theorem numberOfParts_negative (n : Int)
    (range : -0x8000_0000_0000_0000 ≤ n ∧ n < 0) :
    Token.numberOfParts true (Nat.toDigits 10 n.natAbs) [] none = some (.negative n range) := by
  have value : -(Token.digitsValue (Nat.toDigits 10 n.natAbs) : Int) = n := by
    rw [Token.digitsValue_toDigits]
    omega
  have above : n < 0x1_0000_0000_0000_0000 := by omega
  have nonzero : n ≠ 0 := by omega
  simp [Token.numberOfParts, value, range.1, above, nonzero, ofInt_of_negative n range]

private theorem exists_digit_cons (n : Nat) :
    ∃ c cs, Nat.toDigits 10 n = c :: cs ∧ Token.isDigit c = true := by
  have digits : Nat.toDigits 10 n ≠ [] := Nat.toDigits_ne_nil
  obtain ⟨c, cs, same⟩ := List.exists_cons_of_ne_nil digits
  refine ⟨c, cs, same, ?_⟩
  rw [Token.isDigit_eq]
  exact Nat.isDigit_of_mem_toDigits (b := 10) (n := n) (by decide) (by decide)
    (by rw [same]; exact List.mem_cons_self)

/-- A number with a point is read back where its text has the digits of a decimal nearest to it. -/
theorem isLegible_of_point {x : Binary64} {n k : Nat}
    (text : Token.numberText (.real x) = Nat.toDigits 10 n ++ '.' :: Nat.toDigits 10 k)
    (value : Token.numberOfParts false (Nat.toDigits 10 n) (Nat.toDigits 10 k) none =
      some (.real x)) : (real x).IsLegible := by
  intro rest ends
  have read := Token.unsigned?_point false n k ends
  obtain ⟨c, cs, same, digit⟩ := exists_digit_cons n
  rw [value, same, List.cons_append] at read
  rw [text, List.append_assoc, same, List.cons_append, List.cons_append,
    Token.next_of_isDigit digit, read]

theorem isLegible_of_isWhole {n : Number} (whole : n.IsWhole) : n.IsLegible := by
  intro rest ends
  cases n with
  | real x => exact whole.elim
  | natural n =>
    have read := Token.unsigned?_toDigits false n.toNat ends
    obtain ⟨c, cs, same, digit⟩ := exists_digit_cons n.toNat
    rw [numberOfParts_natural, same, List.cons_append] at read
    rw [Token.numberText, same, List.cons_append, Token.next_of_isDigit digit, read]
  | negative n range =>
    have read := Token.unsigned?_toDigits true n.natAbs ends
    rw [numberOfParts_negative n range] at read
    rw [Token.numberText, List.cons_append, Token.next, read]

end Number

/-! ### Strings -/

namespace Token

theorem stringParts_slash {e : Char} (named : e ≠ 'u') (cs : List Char) :
    stringParts ('\\' :: e :: cs) =
      (escapedChar? e).bind fun c => (stringParts cs).map fun p => (.char c :: p.1, p.2) := by
  rw [stringParts.eq_def]
  split
  · next same => cases same
  · next same => exact absurd (List.cons_eq_cons.1 same).1 (by decide)
  · next same =>
    cases same
    exact absurd rfl named
  · next same =>
    cases same
    cases escapedChar? e with
    | none => rfl
    | some c => cases stringParts cs <;> rfl
  · next escape same =>
    cases same
    exact (escape e cs rfl rfl).elim

private theorem stringParts_escape {e c : Char} (known : escapedChar? e = some c) (cs : List Char) :
    stringParts ('\\' :: e :: cs) = (stringParts cs).map fun p => (.char c :: p.1, p.2) := by
  have named : e ≠ 'u' := by
    rintro rfl
    cases known
  rw [stringParts_slash named, known, Option.bind_some]

theorem stringParts_plain {c : Char} (quote : c ≠ '"') (slash : c ≠ '\\')
    (large : ¬c.toNat < 32) (cs : List Char) :
    stringParts (c :: cs) = (stringParts cs).map fun p => (.char c :: p.1, p.2) := by
  rw [stringParts.eq_def]
  split
  · next same => cases same
  · next same =>
    cases same
    exact absurd rfl quote
  · next same =>
    cases same
    exact absurd rfl slash
  · next same =>
    cases same
    exact absurd rfl slash
  · next same =>
    cases same
    rw [if_neg (by simp [large, slash])]
    cases stringParts cs <;> rfl

private theorem stringParts_unit {c : Char} (small : c.toNat < 32) (cs : List Char) :
    stringParts
        ('\\' :: 'u' :: '0' :: '0' :: hexDigit (c.toNat / 16) :: hexDigit (c.toNat % 16) :: cs) =
      (stringParts cs).map fun p => (.char c :: p.1, p.2) := by
  have unit : unit? '0' '0' (hexDigit (c.toNat / 16)) (hexDigit (c.toNat % 16)) =
      some c.toNat := by
    have all : ∀ n < 32, unit? '0' '0' (hexDigit (n / 16)) (hexDigit (n % 16)) = some n := by decide
    exact all _ small
  have part : Part.ofUnit c.toNat = .char c := by
    rw [Part.ofUnit, if_neg (by omega), if_neg (by omega), Char.ofNat_toNat]
  rw [stringParts, unit]
  simp only [bind, Option.bind_some, part]
  cases stringParts cs <;> rfl

private theorem stringParts_escaped (c : Char) (cs : List Char) :
    stringParts (escaped c ++ cs) =
      (stringParts cs).map fun p => (.char c :: p.1, p.2) := by
  unfold escaped
  split_ifs with quote slash newline ret tab back form small
  · subst quote; exact stringParts_escape rfl cs
  · subst slash; exact stringParts_escape rfl cs
  · subst newline; exact stringParts_escape rfl cs
  · subst ret; exact stringParts_escape rfl cs
  · subst tab; exact stringParts_escape rfl cs
  · subst back; exact stringParts_escape rfl cs
  · subst form; exact stringParts_escape rfl cs
  · exact stringParts_unit small cs
  · exact stringParts_plain quote slash small cs

private theorem stringParts_quoted (cs rest : List Char) :
    stringParts (cs.flatMap escaped ++ '"' :: rest) = some (cs.map .char, rest) := by
  induction cs with
  | nil => rfl
  | cons c cs ih =>
    rw [List.flatMap_cons, List.append_assoc, stringParts_escaped, ih]
    rfl

private theorem joinParts_char (cs : List Char) : joinParts (cs.map .char) = some cs := by
  induction cs with
  | nil => rfl
  | cons c cs ih => rw [List.map_cons, joinParts, ih, Option.map_some]

private theorem next_quoted (s : String) (rest : List Char) :
    next (quoted s ++ rest) = (string (some s), rest) := by
  have body : s.toList.flatMap escaped ++ ['"'] ++ rest =
      s.toList.flatMap escaped ++ '"' :: rest := by simp
  rw [quoted, List.cons_append, body, next, stringParts_quoted]
  simp only [joinParts_char, Option.map_some, String.ofList_toList]

theorem scan_quoted (s : String) (rest : List Char) :
    scan (quoted s ++ rest) = string (some s) :: scan rest :=
  scan_eq_cons (next_quoted s rest) (by simp)

end Token

theorem Number.IsLegible.scan {n : Number} (legible : n.IsLegible) {rest : List Char}
    (ends : Token.EndsNumber rest) :
    Token.scan (Token.numberText n ++ rest) = .number n :: Token.scan rest :=
  Token.scan_eq_cons (legible rest ends) (by simp)

end SyncAccounting.Json
