import SyncAccounting.Proofs.Json.SteadyKinds
import SyncAccounting.Wire.Message

/-!
A message does not depend on the order of its members. Each type of a message has an outline, which
says what members it knows; the messages that are read from two texts are the same where the texts
differ in no more than the order of members and in members that are not known. There are exceptions:
a tag that is written as the position of its kind is understood in what has been kept, but not where
it stands in the text, and what is not sound can be passed over there, but not be kept.
-/

set_option autoImplicit false

namespace SyncAccounting

open Json

/-! ### Outlines -/

def StreamKey.outline : Outline := .object [("name", .free), ("namespace", .free)]

def RecordMessage.outline : Outline :=
  .object [("stream", StreamKey.outline), ("data", .free), ("byte_size", .free)]

def Checkpoint.known : Checkpoint → List (String × Outline)
  | global _ | legacy _ => [("data", .free)]
  | stream _ _ => [("stream", StreamKey.outline), ("data", .free)]

def Checkpoint.outline (c : Checkpoint) : Outline := .object (("kind", .tag) :: c.known)

def EstimateMessage.known : EstimateMessage → List (String × Outline)
  | stream _ _ =>
    [("stream", StreamKey.outline), ("byte_estimate", .free), ("row_estimate", .free)]
  | sync _ => [("byte_estimate", .free), ("row_estimate", .free)]

def EstimateMessage.outline (e : EstimateMessage) : Outline := .object (("kind", .tag) :: e.known)

def TracePayload.known : TracePayload → List (String × Outline)
  | error _ => [("message", .free), ("internal_message", .free), ("stack_trace", .free),
      ("failure_type", .free)]
  | streamStatus _ _ => [("stream", StreamKey.outline), ("status", .free)]

def TracePayload.outline (p : TracePayload) : Outline := .object (("type", .tag) :: p.known)

def TraceMessage.outline (t : TraceMessage) : Outline :=
  .object [("emitted_at", .free), ("payload", t.payload.outline)]

namespace Message

def bodyOutline : Message → Outline
  | record _ => RecordMessage.outline
  | checkpoint c => c.outline
  | estimate e => e.outline
  | trace t => t.outline

/-- What is known of the text of a message: its type, its body, and all members of the body. -/
def outline (m : Message) : Outline := .object [("type", .free), ("body", m.bodyOutline)]

end Message

/-! ### Parts of messages -/

private theorem StreamKey.steady (key : StreamKey) : Steady codec.read outline key :=
  Record.steady rfl (by decide) fun (_, _, _) _ =>
    ⟨⟨.free, rfl, Codec.readsWords_string.steady _ _⟩,
      ⟨.free, rfl, Codec.readsWords_string.optional.steady _ _⟩, trivial⟩

private theorem StreamKey.portable (key : StreamKey) : Portable codec.read outline key :=
  Record.portable rfl (by decide) fun (_, _, _) _ =>
    ⟨⟨.free, rfl, Codec.readsWords_string.portable _ _⟩,
      ⟨.free, rfl, Codec.readsWords_string.optional.portable _ _⟩, trivial⟩

private theorem RecordMessage.steady (r : RecordMessage) : Steady codec.read outline r :=
  Record.steady rfl (by decide) fun (key, _, _, _) _ =>
    ⟨⟨_, rfl, key.steady⟩, ⟨.free, rfl, Codec.steady_free _⟩,
      ⟨.free, rfl, Codec.readsWords_count.steady _ _⟩, trivial⟩

private theorem RecordMessage.portable (r : RecordMessage) : Portable codec.read outline r :=
  Record.portable rfl (by decide) fun (key, _, _, _) _ =>
    ⟨⟨_, rfl, key.portable⟩, ⟨.free, rfl, Codec.portable_free _⟩,
      ⟨.free, rfl, Codec.readsWords_count.portable _ _⟩, trivial⟩

private theorem dataRecord_steady (data : Value) :
    Steady dataRecord.codec.read (.object [("data", .free)]) data :=
  Record.steady rfl (by decide) fun (_, _) _ => ⟨⟨.free, rfl, Codec.steady_free _⟩, trivial⟩

private theorem streamDataRecord_steady (p : StreamKey × Value) :
    Steady streamDataRecord.codec.read
      (.object [("stream", StreamKey.outline), ("data", .free)]) p :=
  Record.steady rfl (by decide) fun (key, _, _) _ =>
    ⟨⟨_, rfl, key.steady⟩, ⟨.free, rfl, Codec.steady_free _⟩, trivial⟩

private theorem Checkpoint.steady (c : Checkpoint) : Steady codec.read c.outline c := by
  refine Tagged.steady_among ?_
  simp only [variants, List.forall_mem_cons]
  refine ⟨Variant.steady_of fun data same => ?_, Variant.steady_of fun p same => ?_,
    Variant.steady_of fun data same => ?_, nofun⟩
  · subst same
    exact dataRecord_steady data
  · subst same
    exact streamDataRecord_steady p
  · subst same
    exact dataRecord_steady data

private theorem EstimateMessage.steady (e : EstimateMessage) : Steady codec.read e.outline e := by
  refine Tagged.steady_among ?_
  simp only [variants, List.forall_mem_cons]
  refine ⟨Variant.steady_of fun p same => ?_, Variant.steady_of fun estimate same => ?_, nofun⟩
  · subst same
    exact Record.steady rfl (by decide) fun (key, _, _, _) _ =>
      ⟨⟨_, rfl, key.steady⟩, ⟨.free, rfl, Codec.readsWords_count.steady _ _⟩,
        ⟨.free, rfl, Codec.readsWords_count.steady _ _⟩, trivial⟩
  · subst same
    exact Record.steady rfl (by decide) fun (_, _, _) _ =>
      ⟨⟨.free, rfl, Codec.readsWords_count.steady _ _⟩,
        ⟨.free, rfl, Codec.readsWords_count.steady _ _⟩, trivial⟩

private theorem TraceError.steady (e : TraceError) :
    Steady codec.read (.object (TracePayload.error e).known) e :=
  Record.steady rfl (by decide) fun (_, _, _, _, _) _ =>
    ⟨⟨.free, rfl, Codec.readsWords_string.steady _ _⟩,
      ⟨.free, rfl, Codec.readsWords_string.optional.steady _ _⟩,
      ⟨.free, rfl, Codec.readsWords_string.optional.steady _ _⟩,
      ⟨.free, rfl, Codec.steady_named _ _⟩, trivial⟩

private theorem TracePayload.steady (p : TracePayload) : Steady codec.read p.outline p := by
  refine Tagged.steady_among ?_
  simp only [variants, List.forall_mem_cons]
  refine ⟨Variant.steady_of fun e same => ?_, Variant.steady_of fun s same => ?_, nofun⟩
  · subst same
    exact e.steady
  · subst same
    exact Record.steady rfl (by decide) fun (key, _, _) _ =>
      ⟨⟨_, rfl, key.steady⟩, ⟨.free, rfl, Codec.steady_named _ _⟩, trivial⟩

private theorem TraceMessage.steady (t : TraceMessage) : Steady codec.read t.outline t :=
  Record.steady rfl (by decide) fun (_, payload, _) same => by
    subst same
    exact ⟨⟨.free, rfl, Codec.readsWords_real.steady _ _⟩, ⟨_, rfl, payload.steady⟩, trivial⟩

private theorem TraceMessage.portable (t : TraceMessage) : Portable codec.read t.outline t :=
  Record.portable rfl (by decide) fun (_, payload, _) same => by
    subst same
    exact ⟨⟨.free, rfl, Codec.readsWords_real.portable _ _⟩,
      ⟨_, rfl, Tagged.portable_among⟩, trivial⟩

/-! ### Messages -/

namespace Message

private theorem variants_steady (m : Message) : ∀ v ∈ variants, Steady v.read m.bodyOutline m := by
  simp only [variants, List.forall_mem_cons]
  refine ⟨Variant.steady_of fun r same => ?_, Variant.steady_of fun c same => ?_,
    Variant.steady_of fun e same => ?_, Variant.steady_of fun t same => ?_, nofun⟩
  · subst same
    exact r.steady
  · subst same
    exact c.steady
  · subst same
    exact e.steady
  · subst same
    exact t.steady

private theorem variants_portable (m : Message) :
    ∀ v ∈ variants, Portable v.read m.bodyOutline m := by
  simp only [variants, List.forall_mem_cons]
  refine ⟨Variant.portable_of fun r same => ?_, Variant.portable_of fun c same => ?_,
    Variant.portable_of fun e same => ?_, Variant.portable_of fun t same => ?_, nofun⟩
  · subst same
    exact r.portable
  · subst same
    exact Tagged.portable_among
  · subst same
    exact Tagged.portable_among
  · subst same
    exact t.portable

/-- A text that is read as a message stays one, and the message is the same, however the members of
its objects are ordered and whatever members are added to them that are not known. The objects that
the text is made of are objects, and its free data have no key twice. The new text is sound: its
numbers and words can be read, and it is nested no deeper than a text may be. Its tags are names, or
else the body stays in front of the type. -/
theorem ofText_of_rearranged {text other : String} {a : Message}
    (read : codec.ofText text = .ok a)
    (orderly : (Document.ofText text).tree.isOrderly a.outline = true)
    (rearranged : Tree.Rearranged a.outline (Document.ofText text).tree
      (Document.ofText other).tree)
    (whole : (Document.ofText other).trailing = false)
    (sound : (Document.ofText other).tree.isSound maxDepth = true)
    (order : (Document.ofText other).tree.hasNamedTags a.outline = true ∨
      [some "body", some "type"].Sublist (Document.ofText other).tree.keys) :
    codec.ofText other = .ok a := by
  have apart : "type" ≠ "body" := by decide
  obtain ⟨first, -⟩ := Codec.ofText_eq_ok_iff.1 read
  refine Codec.ofText_eq_ok_iff.2 ⟨?_, whole⟩
  exact Tagged.read_beside_of_rearranged apart rfl rfl a.variants_steady a.variants_portable orderly
    rearranged sound order first

/-- The body comes before the type, has one member more, and its members and those of its data are
in another order. -/
theorem ofText_of_rearranged_of_late_type :
    let stream : Value := .object [("name", .string "u")]
    let v : Value := .object [("type", .string "checkpoint"), ("body", .object
      [("kind", .string "stream"), ("stream", stream),
        ("data", .object [("b", .null), ("a", .bool true)])])]
    let w : Value := .object [("body", .object [("extra", .array []),
      ("data", .object [("a", .bool true), ("b", .null)]), ("stream", stream),
        ("kind", .string "stream")]), ("type", .string "checkpoint")]
    let a : Message := .checkpoint
      (.stream ⟨"u", none⟩ (.object [("a", .bool true), ("b", .null)]))
    codec.ofText v.compact = .ok a ∧ codec.ofText w.compact = .ok a := by
  intro stream v w a
  have trees : Document.ofText v.compact = ⟨.ofValue v, false⟩ ∧
      Document.ofText w.compact = ⟨.ofValue w, false⟩ :=
    ⟨Document.ofText_compact fun _ mem => absurd mem List.not_mem_nil,
      Document.ofText_compact fun _ mem => absurd mem List.not_mem_nil⟩
  have read : codec.ofText v.compact = .ok a := by
    rw [Codec.ofText_eq_ok_iff, trees.1]
    exact ⟨rfl, rfl⟩
  refine ⟨read, ofText_of_rearranged read ?_ ?_ ?_ ?_ (.inl ?_)⟩
  · rw [trees.1]
    decide +kernel
  · rw [trees.1, trees.2]
    -- the body to the front, then its data, then their members, and at last one member more
    refine .head (.reorder (.swap _ _ _)) ?_
    refine .head (.member (.reorder (List.reverse_perm _).symm)) ?_
    refine .head (.member (.member (.reorder (.swap _ _ _)))) ?_
    exact .single (.member (.insert rfl))
  · rw [trees.2]
  · rw [trees.2]
    decide +kernel
  · rw [trees.2]
    decide +kernel

/-- A text that is read as a message, and another one that has the same members in another order and
is not. All that is made of members is an object in the text, and no key comes twice. -/
def OrderMatters (text other : String) : Prop :=
  ∃ a, codec.ofText text = .ok a ∧ (Document.ofText text).tree.isDistinct = true ∧
    (Document.ofText text).tree.isOrderly a.outline = true ∧
    Tree.Rearranged a.outline (Document.ofText text).tree (Document.ofText other).tree ∧
    (Document.ofText other).trailing = false ∧ codec.ofText other ≠ .ok a

/-- The position of a kind is a tag in what has been kept, and not where it stands in the text. A
number too large can be passed over, and cannot be kept. Nor is there room for another member in an
object that stands for a name. -/
theorem rearranged_not_always_read :
    let checkpoint : Value := .string "checkpoint"
    let first : Value := .object [("kind", .number (.natural 0)), ("data", .null)]
    let global : Value := .object [("kind", .string "global"), ("data", .null)]
    let size := "\"body\":\x7b\"stream\":\x7b\"name\":\"u\"\x7d,\"data\":null,\"byte_size\":1," ++
      "\"x\":1e999\x7d"
    OrderMatters (Value.object [("body", first), ("type", checkpoint)]).compact
        (Value.object [("type", checkpoint), ("body", first)]).compact ∧
      OrderMatters ("\x7b\"type\":\"record\"," ++ size ++ "\x7d")
        ("\x7b" ++ size ++ ",\"type\":\"record\"\x7d") ∧
      codec.ofText (Value.object [("type", .object [("checkpoint", .null)]),
        ("body", global)]).compact = .ok (.checkpoint (.global .null)) ∧
      codec.ofText (Value.object [("type", .object [("checkpoint", .null), ("x", .null)]),
        ("body", global)]).compact = .error .malformed := by
  intro checkpoint first global size
  have naturals {members : List (String × Value)}
      (whole : ∀ n ∈ (Value.object members).numbers, n = .natural 0) :
      Document.ofText (Value.object members).compact = ⟨.ofValue (.object members), false⟩ := by
    refine Document.ofText_compact (Value.IsWhole.isLegible fun n hn => ?_)
    rw [whole n hn]
    trivial
  refine ⟨⟨.checkpoint (.global .null), ?_⟩, ⟨.record ⟨⟨"u", none⟩, .null, 1⟩, ?_⟩, ?_, ?_⟩
  · rw [Codec.ofText_eq_ok_iff, Codec.ofText, naturals (by decide), naturals (by decide)]
    exact ⟨⟨rfl, rfl⟩, by decide +kernel, by decide +kernel, .single (.reorder (.swap _ _ _)), rfl,
      fun same => by cases same⟩
  · let type : List Token := [.string (some "type"), .colon, .string (some "record")]
    let body : List Token := [.string (some "body"), .colon, .openObject,
      .string (some "stream"), .colon, .openObject, .string (some "name"), .colon,
      .string (some "u"), .closeObject, .comma, .string (some "data"), .colon, .null, .comma,
      .string (some "byte_size"), .colon, .number (some (.natural 1)), .comma,
      .string (some "x"), .colon, .number none, .closeObject]
    have typeFirst : Token.scan ("\x7b\"type\":\"record\"," ++ size ++ "\x7d").toList =
        .openObject :: type ++ .comma :: body ++ [.closeObject] := by
      decide +kernel
    have bodyFirst : Token.scan ("\x7b" ++ size ++ ",\"type\":\"record\"\x7d").toList =
        .openObject :: body ++ .comma :: type ++ [.closeObject] := by
      decide +kernel
    rw [Codec.ofText_eq_ok_iff, Codec.ofText, Document.ofText, Document.ofText, typeFirst,
      bodyFirst]
    exact ⟨⟨rfl, rfl⟩, by decide +kernel, by decide +kernel, .single (.reorder (.swap _ _ _)), rfl,
      fun same => by cases same⟩
  · rw [Codec.ofText_eq_ok_iff, naturals fun _ mem => absurd mem List.not_mem_nil]
    exact ⟨rfl, rfl⟩
  · rw [Codec.ofText, naturals fun _ mem => absurd mem List.not_mem_nil]
    rfl

end Message

end SyncAccounting
