import SyncAccounting.Proofs.Json.Scanning

/-!
Space at the end of a text is not read. Whatever is read up to there is read alike, and what is not
a word does not become one because of the space.
-/

set_option autoImplicit false

namespace SyncAccounting.Json.Token

private theorem stringParts_control {c : Char} (small : c.toNat < 32) (cs : List Char) :
    stringParts (c :: cs) = none := by
  rw [stringParts.eq_def]
  split
  · next same => cases same
  · next same =>
    cases same
    exact absurd small (by decide)
  · next same =>
    cases same
    exact absurd small (by decide)
  · next same =>
    cases same
    exact absurd small (by decide)
  · next same =>
    cases same
    rw [if_pos (.inl small)]

private theorem unit?_of_last {a b c d : Char} (noDigit : hexValue? d = none) :
    unit? a b c d = .none := by
  rw [unit?, noDigit]
  cases hexValue? a <;> cases hexValue? b <;> cases hexValue? c <;> rfl

def followed {α : Type} (r : Char) (p : α × List Char) : α × List Char := (p.1, p.2 ++ [r])

variable {r : Char} (space : isSpace r = true)

include space

private theorem hexValue?_of_isSpace : hexValue? r = none := by
  rcases cases_of_isSpace space with rfl | rfl | rfl | rfl <;> decide

private theorem digits?_append_space (cs : List Char) :
    digits? (cs ++ [r]) = (digits? cs).map (followed r) := by
  have stop : isDigit r = false := by
    rcases cases_of_isSpace space with rfl | rfl | rfl | rfl <;> decide
  have parts : (cs ++ [r]).takeWhile isDigit = cs.takeWhile isDigit ∧
      (cs ++ [r]).dropWhile isDigit = cs.dropWhile isDigit ++ [r] := by
    induction cs with
    | nil => simp [stop]
    | cons c cs ih => by_cases digit : isDigit c = true <;> simp [digit, ih]
  rw [digits?, parts.1, parts.2, digits?]
  cases cs.takeWhile isDigit <;> rfl

private theorem fractionPart_append_space (cs : List Char) :
    fractionPart (cs ++ [r]) = (fractionPart cs).map (followed r) := by
  have point : r ≠ '.' := by
    rintro rfl
    cases space
  unfold fractionPart
  split
  · next rest same =>
    cases cs with
    | nil => exact absurd (List.cons_eq_cons.1 same).1 point
    | cons c cs =>
      obtain ⟨rfl, rfl⟩ := List.cons_eq_cons.1 same
      exact digits?_append_space space cs
  · next other =>
    split
    · next rest => exact (other (rest ++ [r]) rfl).elim
    · rfl

private theorem signPart_append_space (cs : List Char) :
    signPart (cs ++ [r]) = followed r (signPart cs) := by
  cases cs with
  | nil =>
    rcases cases_of_isSpace space with rfl | rfl | rfl | rfl <;> rfl
  | cons c cs =>
    by_cases plus : c = '+'
    · subst plus; rfl
    by_cases minus : c = '-'
    · subst minus; rfl
    rw [List.cons_append]
    simp [signPart, plus, minus, followed]

private theorem exponentPart_append_space (cs : List Char) :
    exponentPart (cs ++ [r]) = (exponentPart cs).map (followed r) := by
  cases cs with
  | nil =>
    rcases cases_of_isSpace space with rfl | rfl | rfl | rfl <;> rfl
  | cons c cs =>
    rw [List.cons_append, exponentPart, exponentPart, signPart_append_space space]
    split
    · have digits := digits?_append_space space (signPart cs).2
      rw [followed, digits, Option.map_map, Option.map_map]
      rfl
    · rfl

private theorem unsigned?_append_space (negative : Bool) (cs : List Char) :
    unsigned? negative (cs ++ [r]) = (unsigned? negative cs).map (followed r) := by
  have longer := digits?_append_space space cs
  rcases read : digits? cs with _ | ⟨digits, rest⟩
  · rw [read] at longer
    rw [unsigned?, longer, unsigned?, read]
    rfl
  rw [read, Option.map_some, followed] at longer
  by_cases leading : ∃ c more, digits = '0' :: c :: more
  · obtain ⟨c, more, rfl⟩ := leading
    rw [unsigned?, longer, unsigned?, read]
    rfl
  have plain : ∀ c more, digits ≠ '0' :: c :: more := fun c more same => leading ⟨c, more, same⟩
  rw [unsigned?_of_digits negative longer plain, unsigned?_of_digits negative read plain,
    fractionPart_append_space space]
  cases fractionPart rest with
  | none => rfl
  | some f =>
    simp only [Option.map_some, Option.bind_some, followed, exponentPart_append_space space,
      Option.map_map]
    rfl

private theorem stringParts_append_space (cs : List Char) :
    stringParts (cs ++ [r]) = (stringParts cs).map (followed r) := by
  fun_induction stringParts cs with
  | case1 => rcases cases_of_isSpace space with rfl | rfl | rfl | rfl <;> rfl
  | case2 => rfl
  | case3 a b c d tail ih =>
    simp only [List.cons_append, stringParts, ih]
    cases unit? a b c d with
    | none => rfl
    | some n => cases stringParts tail <;> rfl
  | case4 e tail short ih =>
    by_cases named : e = 'u'
    · subst named
      -- The space may stand for the last of four digits, which it is not.
      have cut : stringParts ('\\' :: 'u' :: (tail ++ [r])) = none := by
        rcases tail with _ | ⟨a, _ | ⟨b, _ | ⟨c, _ | ⟨d, rest⟩⟩⟩⟩
        · rfl
        · rfl
        · rfl
        · have bad : unit? a b c r = none := unit?_of_last (hexValue?_of_isSpace space)
          simp only [List.cons_append, List.nil_append, stringParts, bad]
          rfl
        · exact (short a b c d rest rfl rfl).elim
      exact cut
    · rw [List.cons_append, List.cons_append, stringParts_slash named, ih]
      cases escapedChar? e with
      | none => rfl
      | some c => cases stringParts tail <;> rfl
  | case5 c tail quote _ escape ends =>
    rcases ends with small | rfl
    · exact stringParts_control small _
    · cases tail with
      | nil => rcases cases_of_isSpace space with rfl | rfl | rfl | rfl <;> rfl
      | cons e rest => exact (escape e rest rfl rfl).elim
  | case6 c tail quote _ _ plain ih =>
    obtain ⟨large, slash⟩ := not_or.1 plain
    rw [List.cons_append, stringParts_plain quote slash large, ih]
    cases stringParts tail <;> rfl

/-- A text does not start with a word because of the space after it. -/
private theorem unstarted_append_space {cs : List Char} (w : List Char)
    (solid : w.any isSpace = false) (other : ∀ rest, cs = w ++ rest → False) :
    ∀ rest, cs ++ [r] = w ++ rest → False := by
  intro rest same
  rcases List.append_eq_append_iff.1 same with ⟨more, longer, single⟩ | ⟨more, within, -⟩
  · cases more with
    | nil => exact other [] (by rw [longer, List.append_nil, List.append_nil])
    | cons c more =>
      obtain ⟨rfl, -⟩ := List.cons_eq_cons.1 single
      have found : w.any isSpace = true :=
        List.any_eq_true.2 ⟨r, by rw [longer]; simp, space⟩
      rw [solid] at found
      cases found
  · exact other more within

private theorem next_append_space (cs : List Char) :
    next (cs ++ [r]) = if (next cs).1 = fault then (fault, []) else followed r (next cs) := by
  have apart := @unstarted_append_space r space cs
  fun_cases next cs with
  | case1 | case2 | case3 | case4 | case5 | case6 | case7 | case8 | case9 => rfl
  | case10 tail parts after read | case11 tail read =>
    rw [List.cons_append, next, stringParts_append_space space, read]
    rfl
  | case12 tail n after read | case13 tail read =>
    rw [List.cons_append, next, unsigned?_append_space space, read]
    rfl
  | case14 _ h₁ h₂ h₃ h₄ h₅ h₆ h₇ h₈ h₉ h₁₀ h₁₁ n after read
  | case15 _ h₁ h₂ h₃ h₄ h₅ h₆ h₇ h₈ h₉ h₁₀ h₁₁ read =>
    rw [next.eq_12 (cs ++ [r]) (apart ['['] rfl h₁) (apart [']'] rfl h₂) (apart ['{'] rfl h₃)
        (apart ['}'] rfl h₄) (apart [','] rfl h₅) (apart [':'] rfl h₆)
        (apart ['n', 'u', 'l', 'l'] rfl h₇) (apart ['t', 'r', 'u', 'e'] rfl h₈)
        (apart ['f', 'a', 'l', 's', 'e'] rfl h₉) (apart ['"'] rfl h₁₀) (apart ['-'] rfl h₁₁),
      unsigned?_append_space space, read]
    rfl

/-- Space at the end of a text adds no words to it. -/
theorem scan_append_space (cs : List Char) : scan (cs ++ [r]) = scan cs := by
  induction h : cs.length using Nat.strongRecOn generalizing cs with
  | ind n ih =>
    subst h
    cases cs with
    | nil => exact scan_of_isSpace space []
    | cons c cs =>
      have shorter := next_shorter (List.cons_ne_nil c cs)
      have first := next_append_space space (c :: cs)
      rw [List.cons_append, scan, scan]
      split
      · exact ih _ (Nat.lt_succ_self _) cs rfl
      · rw [← List.cons_append, first]
        by_cases bad : (next (c :: cs)).1 = fault
        · simp [bad]
        · simp [bad, followed, ih _ shorter _ rfl]

end SyncAccounting.Json.Token
