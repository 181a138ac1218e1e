import SyncAccounting.Proofs.Json.Lossless

/-!
The text of a value with a line for each item has the words of the value, with space between them,
so it is read as the compact text is.
-/

set_option autoImplicit false

namespace SyncAccounting.Json

open Token (scan_mark EndsNumber)

namespace Value

private theorem scan_newline (level : Nat) (rest : List Char) :
    Token.scan (newline level ++ rest) = Token.scan rest := by
  have spaces : ∀ n, Token.scan (List.replicate n ' ' ++ rest) = Token.scan rest := by
    intro n
    induction n with
    | zero => rfl
    | succ n ih =>
      rw [List.replicate_succ, List.cons_append, Token.scan_of_isSpace (by decide), ih]
  rw [newline, List.cons_append, Token.scan_of_isSpace (by decide), spaces]

private theorem endsNumber_newline (level : Nat) (rest : List Char) :
    EndsNumber (newline level ++ rest) :=
  Token.endsNumber_cons _ (by decide)

private theorem lines_array_cons (level : Nat) (v : Value) (more : List Value) :
    lines level (array (v :: more)) =
      '[' :: (itemLines (level + 1) (v :: more) ++ newline level ++ [']']) := rfl

private theorem lines_object_cons (level : Nat) (p : String × Value)
    (more : List (String × Value)) :
    lines level (object (p :: more)) =
      '\x7b' :: (memberLines (level + 1) (p :: more) ++ newline level ++ ['\x7d']) := rfl

private theorem itemLines_cons_cons (level : Nat) (v w : Value) (more : List Value) :
    itemLines level (v :: w :: more) =
      newline level ++ lines level v ++ ',' :: itemLines level (w :: more) := rfl

private theorem memberLines_cons_cons (level : Nat) (key : String) (v : Value) (m : String × Value)
    (more : List (String × Value)) :
    memberLines level ((key, v) :: m :: more) =
      newline level ++ Token.quoted key ++ [':', ' '] ++ lines level v ++
        ',' :: memberLines level (m :: more) := rfl

end Value

private theorem scan_key (level : Nat) (key : String) (rest : List Char) :
    Token.scan (Value.newline level ++ (Token.quoted key ++ (':' :: ' ' :: rest))) =
      .string (some key) :: .colon :: Token.scan rest := by
  have colon : Token.scan (':' :: ' ' :: rest) = .colon :: Token.scan rest := by
    refine (scan_mark (t := .colon) trivial (' ' :: rest)).trans ?_
    rw [Token.scan_of_isSpace (by decide)]
  rw [Value.scan_newline, Token.scan_quoted, colon]

private theorem scan_comma (rest : List Char) :
    Token.scan (',' :: rest) = .comma :: Token.scan rest :=
  scan_mark (t := .comma) trivial rest

mutual

private theorem scan_lines (v : Value) (legible : ∀ n ∈ v.numbers, n.IsLegible) (level : Nat)
    (rest : List Char) (ends : EndsNumber rest) :
    Token.scan (v.lines level ++ rest) = v.tokens ++ Token.scan rest := by
  match v with
  -- Words, and arrays and objects without items, are written as in the compact text.
  | .null | .bool _ | .number _ | .string _ => exact scan_tokens _ legible rest ends
  | .array [] => exact scan_tokens (.array []) legible rest ends
  | .object [] => exact scan_tokens (.object []) legible rest ends
  | .array (v :: more) =>
    have inside := scan_itemLines (v :: more) legible (level + 1)
      (Value.newline level ++ (']' :: rest)) (Value.endsNumber_newline level _)
    have first : ∀ cs, Token.scan ('[' :: cs) = .openArray :: Token.scan cs :=
      scan_mark (t := .openArray) trivial
    have last : Token.scan (']' :: rest) = .closeArray :: Token.scan rest :=
      scan_mark (t := .closeArray) trivial rest
    rw [Value.lines_array_cons, List.cons_append, List.append_assoc, List.append_assoc,
      List.singleton_append, first, inside, Value.scan_newline, last, Value.tokens,
      List.cons_append, List.append_assoc, List.singleton_append]
  | .object (p :: more) =>
    have inside := scan_memberLines (p :: more) legible (level + 1)
      (Value.newline level ++ ('\x7d' :: rest)) (Value.endsNumber_newline level _)
    have first : ∀ cs, Token.scan ('\x7b' :: cs) = .openObject :: Token.scan cs :=
      scan_mark (t := .openObject) trivial
    have last : Token.scan ('\x7d' :: rest) = .closeObject :: Token.scan rest :=
      scan_mark (t := .closeObject) trivial rest
    rw [Value.lines_object_cons, List.cons_append, List.append_assoc, List.append_assoc,
      List.singleton_append, first, inside, Value.scan_newline, last, Value.tokens,
      List.cons_append, List.append_assoc, List.singleton_append]

private theorem scan_itemLines (items : List Value)
    (legible : ∀ n ∈ Value.itemNumbers items, n.IsLegible) (level : Nat) (rest : List Char)
    (ends : EndsNumber rest) :
    Token.scan (Value.itemLines level items ++ rest) =
      Value.itemTokens items ++ Token.scan rest := by
  match items with
  | [] => rfl
  | [v] =>
    have first := scan_lines v (fun n hn => legible n (List.mem_append_left _ hn)) level rest ends
    rw [Value.itemLines, List.append_assoc, Value.scan_newline, first, Value.itemTokens]
  | v :: w :: more =>
    have first := scan_lines v (fun n hn => legible n (List.mem_append_left _ hn)) level
      (',' :: (Value.itemLines level (w :: more) ++ rest)) (Token.endsNumber_cons _ (by decide))
    have others := scan_itemLines (w :: more) (fun n hn => legible n (List.mem_append_right _ hn))
      level rest ends
    rw [Value.itemLines_cons_cons, List.append_assoc, List.append_assoc, Value.scan_newline,
      List.cons_append, first, scan_comma, others, Value.itemTokens_cons_cons, List.append_assoc,
      List.cons_append]

private theorem scan_memberLines (members : List (String × Value))
    (legible : ∀ n ∈ Value.memberNumbers members, n.IsLegible) (level : Nat) (rest : List Char)
    (ends : EndsNumber rest) :
    Token.scan (Value.memberLines level members ++ rest) =
      Value.memberTokens members ++ Token.scan rest := by
  match members with
  | [] => rfl
  | [(key, v)] =>
    have value := scan_lines v (fun n hn => legible n (List.mem_append_left _ hn)) level rest ends
    rw [Value.memberLines, List.append_assoc, List.append_assoc, List.append_assoc,
      List.cons_append, List.cons_append, List.nil_append, scan_key, value, Value.memberTokens]
    rfl
  | (key, v) :: m :: more =>
    have first := scan_lines v (fun n hn => legible n (List.mem_append_left _ hn)) level
      (',' :: (Value.memberLines level (m :: more) ++ rest)) (Token.endsNumber_cons _ (by decide))
    have others := scan_memberLines (m :: more)
      (fun n hn => legible n (List.mem_append_right _ hn)) level rest ends
    rw [Value.memberLines_cons_cons, List.append_assoc, List.append_assoc, List.append_assoc,
      List.append_assoc, List.cons_append, List.cons_append, List.nil_append, List.cons_append,
      scan_key, first, scan_comma, others, Value.memberTokens_cons_cons, List.cons_append,
      List.cons_append, List.append_assoc, List.cons_append]

end

/-- The lines of a value are read as its compact text is. -/
theorem Document.ofText_pretty {v : Value} (legible : v.IsLegible) :
    Document.ofText v.pretty = Document.ofText v.compact := by
  have words : Token.scan v.pretty.toList = Token.scan v.compact.toList := by
    have spread := scan_lines v legible 0 [] Token.endsNumber_nil
    have joined := scan_tokens v legible [] Token.endsNumber_nil
    rw [List.append_nil] at spread joined
    rw [Value.pretty, Value.compact, String.toList_ofList, String.toList_ofList, spread]
    exact joined.symm
  rw [ofText, words, ofText]

theorem Codec.Keeps.ofText_pretty {α : Type} {c : Codec α} {a : α} (keeps : c.Keeps a)
    (shallow : (c.write a).depth ≤ maxDepth) : c.ofText (c.write a).pretty = .ok a := by
  have read := keeps.ofText_text shallow
  rw [Codec.ofText, Document.ofText_pretty keeps.legible]
  exact read

end SyncAccounting.Json
