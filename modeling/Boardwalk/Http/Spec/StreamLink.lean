import Boardwalk.Events.Spec.Topic
import Boardwalk.Http.Hrefs

/-!
# Whether a stream link reaches its stream

The topic of a rendered stream link starts with the display name of the server, the topics of the
envelopes start with its node id.  A link reaches its stream exactly when its text, read as a
pattern, covers the topic of the envelopes (`LinkCovers`); for texts without pattern syntax that is
when the two names are the same.
-/

namespace Boardwalk

variable {ρ : Type}

open TopicPattern

/-- The link that the server renders for a stream of the resource parses as a pattern that matches
every envelope the resource publishes on the stream. -/
def LinkReaches (ops : TopicOps ρ) (s : Built) (e : Entry) (snap : ResourceSnapshot)
    (stream : String) : Prop :=
  ∃ p, TopicPattern.parse ops ((buildHrefs s).streamTopic snap.kind snap.id stream) = .ok p ∧
    ∀ payloadKind payloadVersion data ctx allocated now, p.matchesTopic ops
      (((e.actorCtx s.nodeId).plan stream payloadKind payloadVersion data).envelope ctx allocated
        now).topic = true

/-- What the texts say: the part of the link after its first `?`, if any, is a filter, and the parts
of the node id, the kind, the id and the stream can be cut into groups that the parts of the link
before its `?` take, one after the other. -/
def LinkCovers (ops : TopicOps ρ) (link nodeId kind id stream : String) : Prop :=
  (∃ filter, parseSuffix ops (splitSuffix link).2 = .ok filter) ∧
    Cut (PartTakes ops) (Str.split '/' (splitSuffix link).1)
      (Str.split '/' nodeId ++ Str.split '/' kind ++ Str.split '/' id ++ Str.split '/' stream)

/-- A text without pattern syntax: no `?`, and no part that is a wildcard or in braces. -/
def PlainText (s : String) : Prop :=
  '?' ∉ s.toList ∧
    ∀ part ∈ Str.split '/' s, part ≠ "*" ∧ part ≠ "**" ∧ bracedInner part = none

instance (s : String) : Decidable (PlainText s) := inferInstanceAs (Decidable (_ ∧ _))

theorem split_address (node kind id stream : String) :
    Str.split '/' (node ++ "/" ++ kind ++ "/" ++ id ++ "/" ++ stream) =
      Str.split '/' node ++ Str.split '/' kind ++ Str.split '/' id ++ Str.split '/' stream := by
  have hslash : "/" = String.singleton '/' := rfl
  rw [hslash, Str.split_append_cons, Str.split_append_cons, Str.split_append_cons]

/-- The topic of an envelope is the address of its resource. -/
theorem topic_envelope (e : Entry) (nodeId stream payloadKind : String) (payloadVersion : UInt32)
    (data : Json) (ctx : EmissionContext) (allocated : Allocated) (now : OffsetDateTime) :
    (((e.actorCtx nodeId).plan stream payloadKind payloadVersion data).envelope ctx allocated
      now).topic = nodeId ++ "/" ++ e.kind ++ "/" ++ e.id ++ "/" ++ stream := rfl

/-- A plain part takes itself. -/
theorem partTakes_of_plain {ops : TopicOps ρ} {s : String} (h : PlainText s) {part : String}
    (hpart : part ∈ Str.split '/' s) (g : List String) :
    PartTakes ops part g ↔ g = [part] := by
  obtain ⟨hstar, hwild, hbraced⟩ := h.2 part hpart
  simp [PartTakes, hstar, hwild, hbraced]

/-- A link reaches its stream exactly when its topic covers the one the stream publishes on. -/
theorem linkReaches_iff_covers (ops : TopicOps ρ) (s : Built) (e : Entry) (reply : ResourceSnapshot)
    (stream : String) :
    LinkReaches ops s e (e.snapshot reply s.nodeId) stream ↔
      LinkCovers ops ((buildHrefs s).streamTopic e.kind e.id stream) s.nodeId e.kind e.id
        stream := by
  have hne : (buildHrefs s).streamTopic e.kind e.id stream ≠ "" := by
    intro h
    have hlen := congrArg String.length h
    simp [Hrefs.streamTopic, String.length_append] at hlen
  unfold LinkCovers
  rw [← split_address]
  constructor
  · rintro ⟨p, hparse, hmatch⟩
    have hmatch' := hmatch "" 0 .null {} ⟨⟨""⟩, 0⟩ {}
    rw [topic_envelope] at hmatch'
    exact (parse_and_match_iff.mp ⟨p, hparse, hmatch'⟩).2
  · intro hcovers
    obtain ⟨p, hparse, hmatch⟩ := parse_and_match_iff.mpr ⟨hne, hcovers⟩
    exact ⟨p, hparse, fun _ _ _ _ _ _ => hmatch⟩

/-- A link of plain texts covers the address that is the same text. -/
theorem linkCovers_iff_of_plain (ops : TopicOps ρ) {name kind id stream : String}
    (hname : PlainText name) (hkind : PlainText kind) (hid : PlainText id)
    (hstream : PlainText stream) (nodeId : String) :
    LinkCovers ops (Hrefs.streamTopic ⟨name⟩ kind id stream) nodeId kind id stream ↔
      nodeId = name := by
  -- no part of the address has a `?`, so the topic is not cut
  have hsuffix : '?' ∉ (Hrefs.streamTopic ⟨name⟩ kind id stream).toList := by
    simp [Hrefs.streamTopic, String.toList_append, hname.1, hkind.1, hid.1, hstream.1]
  have hparts : Str.split '/' (Hrefs.streamTopic ⟨name⟩ kind id stream) =
      Str.split '/' name ++ Str.split '/' kind ++ Str.split '/' id ++ Str.split '/' stream :=
    split_address name kind id stream
  -- a part without glob characters takes itself alone
  have hself : ∀ part ∈ Str.split '/' name ++ Str.split '/' kind ++ Str.split '/' id ++
      Str.split '/' stream, ∀ g, PartTakes ops part g ↔ g = [part] := by
    intro part hpart
    simp only [List.mem_append] at hpart
    rcases hpart with ((hpart | hpart) | hpart) | hpart
    · exact partTakes_of_plain hname hpart
    · exact partTakes_of_plain hkind hpart
    · exact partTakes_of_plain hid hpart
    · exact partTakes_of_plain hstream hpart
  -- what is left is that the node names are the same
  unfold LinkCovers
  rw [splitSuffix_of_not_mem hsuffix, hparts, cut_self_iff hself]
  constructor
  · rintro ⟨-, heq⟩
    simp only [List.append_left_inj] at heq
    exact (Str.split_inj heq).symm
  · rintro rfl
    exact ⟨⟨none, rfl⟩, rfl⟩

/-- The display name is the node id: an explicit id is the name, or else the persisted one is, or
else the node has no persistence or a generated id that is the name. -/
def NamesAgree (b : ServerBuilder) (repositories : Option PersistedConfig) (generated : Uuid) :
    Prop :=
  match b.nodeId.or (repositories.bind (·.nodeId)) with
  | some id => id = b.name
  | none => repositories = none ∨ generated.toText = b.name

theorem nodeId_eq_name_iff (b : ServerBuilder) (repositories : Option PersistedConfig)
    (generated : Uuid) :
    (b.build repositories generated).nodeId = b.name ↔ NamesAgree b repositories generated := by
  unfold NamesAgree ServerBuilder.build resolveNodeId
  cases b.nodeId.or (repositories.bind (·.nodeId)) with
  | some id => exact Iff.rfl
  | none =>
    cases repositories with
    | none => simp
    | some config => simp

/-- **When a stream link reaches its stream**: exactly when the text of the link covers the address
of the envelopes; and for names, kinds, ids and streams without pattern syntax, exactly when the
display name and the node id agree. -/
theorem stream_link_reaches_iff (ops : TopicOps ρ) (b : ServerBuilder)
    (repositories : Option PersistedConfig) (generated : Uuid) (e : Entry)
    (reply : ResourceSnapshot) (stream : String) :
    let s := b.build repositories generated
    (LinkReaches ops s e (e.snapshot reply s.nodeId) stream ↔
      LinkCovers ops (b.name ++ "/" ++ e.kind ++ "/" ++ e.id ++ "/" ++ stream) s.nodeId
        e.kind e.id stream) ∧
    (PlainText b.name ∧ PlainText e.kind ∧ PlainText e.id ∧ PlainText stream →
      (LinkReaches ops s e (e.snapshot reply s.nodeId) stream ↔
        NamesAgree b repositories generated)) := by
  intro s
  refine ⟨linkReaches_iff_covers ops s e reply stream, ?_⟩
  rintro ⟨hname, hkind, hid, hstream⟩
  rw [linkReaches_iff_covers, ← nodeId_eq_name_iff]
  exact linkCovers_iff_of_plain ops hname hkind hid hstream s.nodeId

/-- A server that is named like its node. -/
theorem stream_link_reaches_hub :
    LinkReaches .plain (ServerBuilder.build { name := "hub" } none ⟨0⟩)
      { id := "abc", kind := "led", streams := ["state"] }
      { id := "abc", kind := "led", node := "hub", streams := ["state"] } "state" :=
  ((stream_link_reaches_iff .plain { name := "hub" } none ⟨0⟩
    { id := "abc", kind := "led", streams := ["state"] }
    { id := "", kind := "", node := "", streams := [] } "state").2 (by decide)).mpr
    (.inl rfl)

/-- A server with an explicit node id renders links that miss its streams. -/
theorem stream_link_misses_explicit_id :
    ¬ LinkReaches .plain (ServerBuilder.build { name := "hub", nodeId := some "node-1" } none ⟨0⟩)
      { id := "abc", kind := "led", streams := ["state"] }
      { id := "abc", kind := "led", node := "node-1", streams := ["state"] } "state" := by
  rintro ⟨p, hparse, hmatch⟩
  have hcheck : (match TopicPattern.parse .plain "hub/led/abc/state" with
      | .ok p => p.matchesTopic .plain "node-1/led/abc/state"
      | .error _ => false) = false := by
    decide
  have hparse' : TopicPattern.parse .plain "hub/led/abc/state" = .ok p := hparse
  rw [hparse'] at hcheck
  exact Bool.false_ne_true (hcheck.symm.trans (hmatch "" 0 .null {} ⟨⟨""⟩, 0⟩ {}))

end Boardwalk
