import SyncAccounting.Json.Token

/-!
Documents that hold one flat mapping from names to scalars, in lines (`name: value`) or between
braces. A name after a question mark may stand on a line before its colon, and in double quotes it
may go on over escaped line ends. Comments start with `#`; `---` may stand before the mapping and
`...` after it. Every other document is refused, also one with a list, a mapping inside the mapping,
or any other scalar of several lines, none of which a setting can be. There are no directives,
anchors or tags: a document that has one is refused as well.
-/

set_option autoImplicit false

namespace SyncAccounting.Mapping

structure Scalar where
  quoted : Bool
  text : String
  deriving DecidableEq

abbrev Entry := Scalar × Scalar

/-- What is left of a document, and the column that it starts in. -/
structure Cursor where
  rest : List Char
  column : Nat

def isBreak (c : Char) : Bool :=
  c = '\n' ∨ c = '\r' ∨ c.toNat = 0x85 ∨ c.toNat = 0x2028 ∨ c.toNat = 0x2029

def isSpace (c : Char) : Bool := c = ' ' ∨ c = '\t'

/-- The byte order mark. It may start a line, where it takes a column and means nothing. -/
def isByteOrderMark (c : Char) : Bool := c.toNat = 0xFEFF

def isAllowed (c : Char) : Bool :=
  let n := c.toNat
  n = 0x09 ∨ n = 0x0A ∨ n = 0x0D ∨ (0x20 ≤ n ∧ n ≤ 0x7E) ∨ n = 0x85 ∨
    (0xA0 ≤ n ∧ n ≤ 0xD7FF) ∨ (0xE000 ≤ n ∧ n ≤ 0xFFFD) ∨ 0x10000 ≤ n

def atGap : List Char → Bool
  | [] => true
  | c :: _ => isSpace c ∨ isBreak c

def isIndicator (c : Char) : Bool :=
  c ∈ ['-', '?', ':', ',', '[', ']', '{', '}', '#', '&', '*', '!', '|', '>', '\'', '"', '%', '@',
    Char.ofNat 0x60]

def maxNameLength : Nat := 1024

namespace Cursor

/-- Skips space, comments and line ends, and says whether a line ended. Tabs are space only where
no name can start: on the rest of a line that has begun, or everywhere between braces. -/
def skip (braces : Bool) : Bool → Bool → Nat → List Char → Cursor × Bool
  | _, _, column, [] => (⟨[], column⟩, false)
  | tabs, comment, column, c :: rest =>
    if isBreak c then ((skip braces braces false 0 rest).1, true)
    else if column = 0 ∧ isByteOrderMark c then skip braces tabs comment 1 rest
    else if comment then skip braces tabs true (column + 1) rest
    else if c = ' ' ∨ (c = '\t' ∧ tabs) then skip braces tabs false (column + 1) rest
    else if c = '#' then skip braces tabs true (column + 1) rest
    else (⟨c :: rest, column⟩, false)

def next (tabs : Bool) (c : Cursor) : Cursor × Bool := skip false tabs false c.column c.rest

def nextInBraces (c : Cursor) : Cursor := (skip true true false c.column c.rest).1

def atMark (mark : Char) (c : Cursor) : Bool :=
  c.column = 0 && c.rest.take 3 = List.replicate 3 mark && atGap (c.rest.drop 3)

def advance (c : Cursor) (n : Nat) : Cursor := ⟨c.rest.drop n, c.column + n⟩

def overSpace (c : Cursor) : Cursor := c.advance (c.rest.takeWhile isSpace).length

end Cursor

def codeChar? (digits : List Char) : Option Char := do
  let values ← digits.mapM Json.Token.hexValue?
  let code := values.foldl (fun n d => 16 * n + d) 0
  if code < 0xD800 ∨ (0xE000 ≤ code ∧ code < 0x110000) then some (Char.ofNat code) else none

def escapes : List (Char × Nat) :=
  [('0', 0x00), ('a', 0x07), ('b', 0x08), ('t', 0x09), ('\t', 0x09), ('n', 0x0A), ('v', 0x0B),
   ('f', 0x0C), ('r', 0x0D), ('e', 0x1B), (' ', 0x20), ('"', 0x22), ('/', 0x2F), ('\\', 0x5C),
   ('N', 0x85), ('_', 0xA0), ('L', 0x2028), ('P', 0x2029)]

/-- The text of a scalar in double quotes, after the first quote and up to the last, and how many
characters it takes. After an escaped line end it goes on at the first character of the next line
that is no space. -/
def doubleQuoted : Bool → List Char → Option (List Char × Nat)
  | _, [] => none
  | _, '"' :: _ => some ([], 1)
  | _, '\\' :: 'x' :: a :: b :: rest => do
    let c ← codeChar? [a, b]
    let (text, n) ← doubleQuoted false rest
    return (c :: text, n + 4)
  | _, '\\' :: 'u' :: a :: b :: c :: d :: rest => do
    let c ← codeChar? [a, b, c, d]
    let (text, n) ← doubleQuoted false rest
    return (c :: text, n + 6)
  | _, '\\' :: 'U' :: a :: b :: c :: d :: e :: f :: g :: h :: rest => do
    let c ← codeChar? [a, b, c, d, e, f, g, h]
    let (text, n) ← doubleQuoted false rest
    return (c :: text, n + 10)
  | _, '\\' :: '\r' :: '\n' :: rest => do
    let (text, n) ← doubleQuoted true rest
    return (text, n + 3)
  | _, '\\' :: c :: rest =>
    if isBreak c then do
      let (text, n) ← doubleQuoted true rest
      return (text, n + 2)
    else do
      let code ← escapes.lookup c
      let (text, n) ← doubleQuoted false rest
      return (Char.ofNat code :: text, n + 2)
  | continued, c :: rest =>
    if isBreak c ∨ c = '\\' then none
    else if continued ∧ isSpace c then do
      let (text, n) ← doubleQuoted true rest
      return (text, n + 1)
    else do
      let (text, n) ← doubleQuoted false rest
      return (c :: text, n + 1)

def singleQuoted : List Char → Option (List Char × Nat)
  | [] => none
  | '\'' :: '\'' :: rest => do
    let (text, n) ← singleQuoted rest
    return ('\'' :: text, n + 2)
  | '\'' :: _ => some ([], 1)
  | c :: rest =>
    if isBreak c then none
    else do
      let (text, n) ← singleQuoted rest
      return (c :: text, n + 1)

/-- The characters of a plain scalar on its line: up to a colon before a gap, a comment after space,
or, between braces, a comma, bracket or brace. -/
def plain (braces : Bool) : Bool → List Char → List Char
  | _, [] => []
  | afterSpace, c :: rest =>
    if isBreak c ∨ (c = '#' ∧ afterSpace) ∨ (c = ':' ∧ atGap rest) ∨
        (braces ∧ c ∈ [',', '[', ']', '{', '}']) ∨
        (braces ∧ c = ':' ∧ rest.head?.any (· ∈ [',', '?', '[', ']', '{', '}'])) then []
    else c :: plain braces (isSpace c) rest

def scalar? (braces : Bool) (c : Cursor) : Option (Scalar × Cursor) :=
  match c.rest with
  | '"' :: rest =>
    (doubleQuoted false rest).map fun r => (⟨true, String.ofList r.1⟩, c.advance (r.2 + 1))
  | '\'' :: rest =>
    (singleQuoted rest).map fun r => (⟨true, String.ofList r.1⟩, c.advance (r.2 + 1))
  | first :: _ =>
    if isIndicator first then none
    else
      let line := plain braces false c.rest
      let text := (line.reverse.dropWhile isSpace).reverse
      some (⟨false, String.ofList text⟩, c.advance text.length)
  | [] => none

/-- A name and its colon on one line, and the cursor after them. Outside braces, and after a plain
name, a gap has to follow the colon. -/
def name? (braces : Bool) (c : Cursor) : Option (Scalar × Cursor) := do
  let (name, after) ← scalar? braces c
  if (c.rest.take (after.column - c.column)).any isBreak then none
  let after := after.overSpace
  match after.rest with
  | ':' :: rest =>
    if after.column - c.column ≤ maxNameLength ∧ (atGap rest ∨ (braces ∧ name.quoted)) then
      some (name, after.advance 1)
    else none
  | _ => none

/-- Over the space and line ends after a plain scalar, for a mapping whose names start in a column.
A tab may not stand at or before this column. -/
def afterPlain? (column : Nat) : Bool → Nat → List Char → Option (Cursor × Bool)
  | fresh, at_, [] => some (⟨[], at_⟩, fresh)
  | fresh, at_, c :: rest =>
    if isBreak c then afterPlain? column true 0 rest
    else if c = ' ' then afterPlain? column fresh (at_ + 1) rest
    else if c = '\t' then
      if fresh ∧ at_ ≤ column then none else afterPlain? column fresh (at_ + 1) rest
    else some (⟨c :: rest, at_⟩, fresh)

/-- The value after a name and its colon, and the cursor at the next word, which has to start a
line. A value on a line of its own stands to the right of the names. -/
def value? (column : Nat) (tabs : Bool) (c : Cursor) : Option (Scalar × Cursor) := do
  let (start, fresh) := c.next tabs
  if start.rest.isEmpty ∨
      (fresh ∧ (start.column ≤ column ∨ start.atMark '-' ∨ start.atMark '.')) then
    some (⟨false, ""⟩, start)
  else
    let (value, after) ← scalar? false start
    let (after, fresh) ←
      if value.quoted then some (after, false)
      else afterPlain? column false after.column after.rest
    if fresh ∧ column < after.column ∧ after.rest.head?.any (· ≠ '#') then none
    else
      let (after, later) := after.next (!fresh)
      if fresh ∨ later ∨ after.rest.isEmpty then some (value, after) else none

/-- An entry: a name, its colon and its value. After a question mark name and value are read alike,
and the colon stands below the question mark. -/
def entry? (column : Nat) (c : Cursor) : Option (Entry × Cursor) :=
  match c.rest with
  | '?' :: rest => do
    if !atGap rest then none
    let (name, after) ← value? column false (c.advance 1)
    match after.rest with
    | ':' :: rest =>
      if after.column ≠ column ∨ !atGap rest then none
      let (value, after) ← value? column false (after.advance 1)
      return ((name, value), after)
    | _ => none
  | _ => do
    let (name, after) ← name? false c
    let (value, after) ← value? column true after
    return ((name, value), after)

def entries? (column : Nat) : Nat → Cursor → Option (List Entry × Cursor)
  | 0, _ => none
  | limit + 1, c =>
    if c.rest.isEmpty ∨ c.atMark '-' ∨ c.atMark '.' then some ([], c)
    else if c.column ≠ column then none
    else do
      let (entry, after) ← entry? column c
      let (entries, last) ← entries? column limit after
      return (entry :: entries, last)

/-- A scalar between braces, and the cursor at the comma, colon or brace after it. Plain text would
go on over line ends, but not past a comment. -/
def scalarInBraces? (c : Cursor) : Option (Scalar × Cursor) := do
  let (s, after) ← scalar? true c
  if s.quoted then return (s, after.nextInBraces)
  match after.rest.dropWhile fun c => isSpace c ∨ isBreak c with
  | [] => none
  | '#' :: _ | ',' :: _ | '}' :: _ => return (s, after.nextInBraces)
  | ':' :: rest => if atGap rest then return (s, after.nextInBraces) else none
  | _ => none

def nameInBraces? (c : Cursor) : Option (Scalar × Cursor) :=
  match c.rest with
  | '?' :: _ => do
    let (name, after) ← scalarInBraces? (c.advance 1).nextInBraces
    match after.rest with
    | ':' :: _ => return (name, after.advance 1)
    | _ => none
  | _ => name? true c

def valueInBraces? (c : Cursor) : Option (Scalar × Cursor) :=
  let start := c.nextInBraces
  match start.rest with
  | ',' :: _ | '}' :: _ => some (⟨false, ""⟩, start)
  | _ => scalarInBraces? start

def entriesInBraces? : Nat → Cursor → Option (List Entry × Cursor)
  | 0, _ => none
  | limit + 1, c =>
    match c.rest with
    | '}' :: _ => some ([], c.advance 1)
    | _ => do
      let (name, after) ← nameInBraces? c
      let (value, after) ← valueInBraces? after
      match after.rest with
      | '}' :: _ => return ([(name, value)], after.advance 1)
      | ',' :: _ =>
        let (entries, last) ← entriesInBraces? limit (after.advance 1).nextInBraces
        return ((name, value) :: entries, last)
      | _ => none

def atEnd : Nat → Cursor → Bool
  | 0, _ => false
  | limit + 1, c =>
    c.rest.isEmpty || (c.atMark '.' && atEnd limit ((c.advance 3).next true).1)

/-- The entries of a document. It has no more entries and marks than characters. -/
def ofText? (text : String) : Option (List Entry) :=
  let chars := text.toList
  let limit := chars.length + 1
  if !chars.all isAllowed then none
  else
    let start := (Cursor.next false ⟨chars, 0⟩).1
    let marked := start.atMark '-'
    let (content, fresh) := if marked then (start.advance 3).next true else (start, true)
    if marked ∧ (content.atMark '-' ∨ content.atMark '.') then
      if content.atMark '.' ∧ atEnd limit content then some [] else none
    else
      match content.rest with
      | [] => some []
      | '{' :: _ => do
        let (entries, after) ← entriesInBraces? limit (content.advance 1).nextInBraces
        if atEnd limit (after.next true).1 then some entries else none
      | _ =>
        if !fresh ∨ content.atMark '.' then none
        else do
          let (entries, after) ← entries? content.column limit content
          if atEnd limit after then some entries else none

end SyncAccounting.Mapping
