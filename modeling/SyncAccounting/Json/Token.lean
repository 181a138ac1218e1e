import SyncAccounting.Json.Value

/-!
The words of a text: brackets, marks, names and literals, with space between them left out. A text
that stops being made of such words has a fault there and nothing after it. A string with half of
a surrogate pair, or a number too large, is a word all the same: it can be skipped, but not read.
-/

set_option autoImplicit false

namespace SyncAccounting.Json

inductive Token where
  | openArray
  | closeArray
  | openObject
  | closeObject
  | comma
  | colon
  | null
  | bool (b : Bool)
  /-- None is a number that is past the largest floating-point number as it is read. -/
  | number (n : Option Number)
  /-- None is a string with half of a surrogate pair in it. -/
  | string (s : Option String)
  | fault
  deriving DecidableEq

namespace Token

/-! ### Writing -/

def hexDigit (n : Nat) : Char := if n < 10 then Char.ofNat (48 + n) else Char.ofNat (87 + n)

/-- A character inside a string. Quotes, backslashes and control characters are escaped. -/
def escaped (c : Char) : List Char :=
  if c = '"' then ['\\', '"']
  else if c = '\\' then ['\\', '\\']
  else if c = '\n' then ['\\', 'n']
  else if c = '\r' then ['\\', 'r']
  else if c = '\t' then ['\\', 't']
  else if c = Char.ofNat 8 then ['\\', 'b']
  else if c = Char.ofNat 12 then ['\\', 'f']
  else if c.toNat < 32 then
    ['\\', 'u', '0', '0', hexDigit (c.toNat / 16), hexDigit (c.toNat % 16)]
  else [c]

def quoted (s : String) : List Char := '"' :: (s.toList.flatMap escaped ++ ['"'])

/-- Numbers from 10 ^ -5 up to below 10 ^ 16 are written without an exponent. -/
def numberLayout : DecimalLayout := ⟨-5, 15⟩

def numberText : Number → List Char
  | .natural n => Nat.toDigits 10 n.toNat
  | .negative n _ => '-' :: Nat.toDigits 10 n.natAbs
  | .real x => numberLayout.text x

def text : Token → List Char
  | openArray => ['[']
  | closeArray => [']']
  | openObject => ['{']
  | closeObject => ['}']
  | comma => [',']
  | colon => [':']
  | null => ['n', 'u', 'l', 'l']
  | bool true => ['t', 'r', 'u', 'e']
  | bool false => ['f', 'a', 'l', 's', 'e']
  | number (some n) => numberText n
  | string (some s) => quoted s
  | number none | string none | fault => []

/-! ### Reading -/

def hexValue? (c : Char) : Option Nat :=
  if '0' ≤ c ∧ c ≤ '9' then some (c.toNat - 48)
  else if 'a' ≤ c ∧ c ≤ 'f' then some (c.toNat - 87)
  else if 'A' ≤ c ∧ c ≤ 'F' then some (c.toNat - 55)
  else none

def unit? (a b c d : Char) : Option Nat := do
  let a ← hexValue? a
  let b ← hexValue? b
  let c ← hexValue? c
  let d ← hexValue? d
  return a * 4096 + b * 256 + c * 16 + d

/-- One part of a string: a character, or half of a surrogate pair. -/
inductive Part where
  | char (c : Char)
  | highHalf (n : Nat)
  | lowHalf (n : Nat)

def Part.ofUnit (n : Nat) : Part :=
  if 0xD800 ≤ n ∧ n < 0xDC00 then .highHalf n
  else if 0xDC00 ≤ n ∧ n < 0xE000 then .lowHalf n
  else .char (Char.ofNat n)

def escapedChar? (c : Char) : Option Char :=
  if c = '"' ∨ c = '\\' ∨ c = '/' then some c
  else if c = 'n' then some '\n'
  else if c = 'r' then some '\r'
  else if c = 't' then some '\t'
  else if c = 'b' then some (Char.ofNat 8)
  else if c = 'f' then some (Char.ofNat 12)
  else none

def stringParts : List Char → Option (List Part × List Char)
  | [] => none
  | '"' :: rest => some ([], rest)
  | '\\' :: 'u' :: a :: b :: c :: d :: rest => do
    let n ← unit? a b c d
    let (parts, rest) ← stringParts rest
    return (.ofUnit n :: parts, rest)
  | '\\' :: c :: rest => do
    let c ← escapedChar? c
    let (parts, rest) ← stringParts rest
    return (.char c :: parts, rest)
  | c :: rest =>
    if c.toNat < 32 ∨ c = '\\' then none
    else do
      let (parts, rest) ← stringParts rest
      return (.char c :: parts, rest)

def joinParts : List Part → Option (List Char)
  | [] => some []
  | .char c :: rest => (joinParts rest).map (c :: ·)
  | .highHalf h :: .lowHalf l :: rest =>
    (joinParts rest).map (Char.ofNat (0x10000 + (h - 0xD800) * 1024 + (l - 0xDC00)) :: ·)
  | .highHalf _ :: _ => none
  | .lowHalf _ :: _ => none

def isDigit (c : Char) : Bool := '0' ≤ c ∧ c ≤ '9'

def digitsValue (digits : List Char) : Nat :=
  digits.foldl (fun n c => 10 * n + (c.toNat - 48)) 0

def digits? (cs : List Char) : Option (List Char × List Char) :=
  match cs.takeWhile isDigit with
  | [] => none
  | c :: digits => some (c :: digits, cs.dropWhile isDigit)

def fractionPart : List Char → Option (List Char × List Char)
  | '.' :: rest => digits? rest
  | rest => some ([], rest)

def signPart : List Char → Int × List Char
  | '+' :: rest => (1, rest)
  | '-' :: rest => (-1, rest)
  | rest => (1, rest)

def exponentPart : List Char → Option (Option Int × List Char)
  | c :: rest =>
    if c = 'e' ∨ c = 'E' then
      (digits? (signPart rest).2).map fun d => (some ((signPart rest).1 * digitsValue d.1), d.2)
    else some (none, c :: rest)
  | [] => some (none, [])

/-- Puts digits after those of a number for as long as it has 64 bits, and counts those that are
left over. -/
def takeDigits (n : Nat) : List Char → Nat × Nat
  | [] => (n, 0)
  | c :: rest =>
    let longer := 10 * n + (c.toNat - 48)
    if longer < 0x1_0000_0000_0000_0000 then takeDigits longer rest else (n, rest.length + 1)

/-- The decimal that digits before and after a point are read as: those that fit. A digit of the
fraction may fit where one before the point did not, and then takes its place. -/
def decimalOfParts (whole fraction : List Char) (exponent : Int) : Decimal :=
  let (n, dropped) := takeDigits 0 whole
  let (n, ignored) := takeDigits n fraction
  ⟨n, exponent + (dropped : Int) - ((fraction.length : Int) - (ignored : Int))⟩

/-- The number with the given parts. Without a fraction and an exponent it is an integer where it
fits, but zero with a sign is a floating-point number. -/
def numberOfParts (negative : Bool) (whole fraction : List Char) (exponent : Option Int) :
    Option Number :=
  let integer : Int := if negative then -(digitsValue whole : Int) else digitsValue whole
  if fraction.isEmpty ∧ exponent.isNone ∧ ¬(negative ∧ integer = 0) ∧
      -0x8000_0000_0000_0000 ≤ integer ∧ integer < 0x1_0000_0000_0000_0000 then
    some (.ofInt integer)
  else
    (Binary64.ofDecimal? negative (decimalOfParts whole fraction (exponent.getD 0))).map .real

def unsigned? (negative : Bool) (cs : List Char) : Option (Option Number × List Char) :=
  match digits? cs with
  | none => none
  | some ('0' :: _ :: _, _) => none
  | some (whole, rest) => do
    let (fraction, rest) ← fractionPart rest
    let (exponent, rest) ← exponentPart rest
    return (numberOfParts negative whole fraction exponent, rest)

def isSpace (c : Char) : Bool := c = ' ' ∨ c = '\n' ∨ c = '\r' ∨ c = '\t'

def next : List Char → Token × List Char
  | '[' :: rest => (openArray, rest)
  | ']' :: rest => (closeArray, rest)
  | '{' :: rest => (openObject, rest)
  | '}' :: rest => (closeObject, rest)
  | ',' :: rest => (comma, rest)
  | ':' :: rest => (colon, rest)
  | 'n' :: 'u' :: 'l' :: 'l' :: rest => (null, rest)
  | 't' :: 'r' :: 'u' :: 'e' :: rest => (bool true, rest)
  | 'f' :: 'a' :: 'l' :: 's' :: 'e' :: rest => (bool false, rest)
  | '"' :: rest =>
    match stringParts rest with
    | some (parts, rest) => (string ((joinParts parts).map String.ofList), rest)
    | none => (fault, [])
  | '-' :: rest =>
    match unsigned? true rest with
    | some (n, rest) => (number n, rest)
    | none => (fault, [])
  | cs =>
    match unsigned? false cs with
    | some (n, rest) => (number n, rest)
    | none => (fault, [])

theorem stringParts_shorter {cs rest : List Char} {parts : List Part}
    (h : stringParts cs = some (parts, rest)) : rest.length < cs.length := by
  fun_induction stringParts cs generalizing parts rest with
  | case1 => simp at h
  | case2 => simp at h; simp [h]
  | case3 a b c d tail ih =>
    simp only [bind, Option.bind_eq_some_iff] at h
    obtain ⟨n, _, ⟨ps, r⟩, hr, hp⟩ := h
    have := ih hr
    simp only [pure, Option.some.injEq, Prod.mk.injEq] at hp
    simp only [List.length_cons, ← hp.2]
    omega
  | case4 c tail _ ih =>
    simp only [bind, Option.bind_eq_some_iff] at h
    obtain ⟨n, _, ⟨ps, r⟩, hr, hp⟩ := h
    have := ih hr
    simp only [pure, Option.some.injEq, Prod.mk.injEq] at hp
    simp only [List.length_cons, ← hp.2]
    omega
  | case5 => simp at h
  | case6 c tail _ _ _ _ ih =>
    simp only [bind, Option.bind_eq_some_iff] at h
    obtain ⟨⟨ps, r⟩, hr, hp⟩ := h
    have := ih hr
    simp only [pure, Option.some.injEq, Prod.mk.injEq] at hp
    simp only [List.length_cons, ← hp.2]
    omega

theorem digits?_shorter {cs rest digits : List Char} (h : digits? cs = some (digits, rest)) :
    rest.length < cs.length := by
  cases cs with
  | nil => simp [digits?] at h
  | cons c cs =>
    by_cases hc : isDigit c = true
    · simp only [digits?, List.takeWhile_cons, hc, if_pos, List.dropWhile_cons, Option.some.injEq,
        Prod.mk.injEq] at h
      have := (List.dropWhile_suffix isDigit (l := cs)).length_le
      simp only [← h.2, List.length_cons]
      omega
    · simp [digits?, hc] at h

theorem fractionPart_length_le {cs rest digits : List Char}
    (h : fractionPart cs = some (digits, rest)) : rest.length ≤ cs.length := by
  unfold fractionPart at h
  split at h
  · have := digits?_shorter h
    simp only [List.length_cons]
    omega
  · simp only [Option.some.injEq, Prod.mk.injEq] at h
    simp [h.2]

theorem signPart_length_le (cs : List Char) : (signPart cs).2.length ≤ cs.length := by
  unfold signPart
  split <;> simp

theorem exponentPart_length_le {cs rest : List Char} {exponent : Option Int}
    (h : exponentPart cs = some (exponent, rest)) : rest.length ≤ cs.length := by
  unfold exponentPart at h
  split at h
  · rename_i c tail
    split at h
    · obtain ⟨⟨digits, after⟩, hd, he⟩ := Option.map_eq_some_iff.1 h
      have := digits?_shorter hd
      have := signPart_length_le tail
      simp only [Prod.mk.injEq] at he
      simp only [← he.2, List.length_cons]
      omega
    · simp only [Option.some.injEq, Prod.mk.injEq] at h
      simp [← h.2]
  · simp only [Option.some.injEq, Prod.mk.injEq] at h
    simp [← h.2]

theorem unsigned?_shorter {negative : Bool} {cs rest : List Char} {n : Option Number}
    (h : unsigned? negative cs = some (n, rest)) : rest.length < cs.length := by
  unfold unsigned? at h
  split at h
  · simp at h
  · simp at h
  · rename_i hd
    simp only [bind, Option.bind_eq_some_iff] at h
    obtain ⟨⟨fraction, r⟩, hf, ⟨exponent, r'⟩, he, hr⟩ := h
    simp only [pure, Option.some.injEq, Prod.mk.injEq] at hr
    have := digits?_shorter hd
    have := fractionPart_length_le hf
    have hl : r'.length ≤ r.length := exponentPart_length_le he
    simp only [← hr.2]
    omega

theorem next_shorter {cs : List Char} (h : cs ≠ []) : (next cs).2.length < cs.length := by
  fun_cases next cs with
  | case1 | case2 | case3 | case4 | case5 | case6 | case7 | case8 | case9 =>
    simp only [List.length_cons]
    omega
  | case10 tail _ rest hr =>
    have := stringParts_shorter hr
    simp only [List.length_cons]
    omega
  | case12 tail _ rest hr =>
    have := unsigned?_shorter hr
    simp only [List.length_cons]
    omega
  | case14 => exact unsigned?_shorter ‹unsigned? false cs = some _›
  | case11 | case13 => simp
  | case15 => exact List.length_pos_iff.2 h

def scan : List Char → List Token
  | [] => []
  | c :: cs =>
    if isSpace c then scan cs
    else
      let word := next (c :: cs)
      if word.1 = fault then [fault] else word.1 :: scan word.2
termination_by cs => cs.length
decreasing_by
  · simp
  · exact next_shorter (by simp)

end Token

end SyncAccounting.Json
