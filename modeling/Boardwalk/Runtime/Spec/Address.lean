import Boardwalk.Lib.Str
import Boardwalk.Runtime.Spec.Publisher

/-!
# Addresses of streams

A stream id and a topic join the names of an address with slashes and do not escape them.  An
address shares neither with another one of its node exactly when its kind, its resource id and its
stream are free of slashes (`unshared_iff`): then each text has as many parts as names, and a name
with a slash can be cut there.
-/

namespace Boardwalk

namespace EnvelopePlan

variable {p q : EnvelopePlan}

theorem topic_envelope (p : EnvelopePlan) (ctx : EmissionContext) (allocated : Allocated)
    (now : OffsetDateTime) : (p.envelope ctx allocated now).topic =
      p.nodeId.raw ++ "/" ++ p.resourceKind ++ "/" ++ p.resourceId ++ "/" ++ p.stream := rfl

/-- No other address on the node has the stream id or the topic of `p`; so none takes its sequence
numbers or comes into its ring. -/
structure Unshared (p : EnvelopePlan) : Prop where
  streamId : ∀ q : EnvelopePlan, q.nodeId = p.nodeId → q.streamId = p.streamId →
    q.resourceId = p.resourceId ∧ q.stream = p.stream
  topic : ∀ q : EnvelopePlan, q.nodeId = p.nodeId → ∀ ctx allocated now ctx' allocated' now',
    (q.envelope ctx allocated now).topic = (p.envelope ctx' allocated' now').topic →
      q.resourceKind = p.resourceKind ∧ q.resourceId = p.resourceId ∧ q.stream = p.stream
  sequence : ∀ q : EnvelopePlan, q.nodeId = p.nodeId →
    ¬ (q.resourceId = p.resourceId ∧ q.stream = p.stream) →
    ∀ s : StreamSequences,
      (s.allocate q.streamId).1.nextSequence p.streamId = s.nextSequence p.streamId
  ring : ∀ q : EnvelopePlan, q.nodeId = p.nodeId →
    ¬ (q.resourceId = p.resourceId ∧ q.stream = p.stream) →
    ∀ (cache : StreamReplayCache Json) ctx allocated now,
      (cache.record (q.envelope ctx allocated now)).1.perStream p.streamId =
        cache.perStream p.streamId

/-- The names of the address have no slash. -/
def Plain (p : EnvelopePlan) : Prop :=
  '/' ∉ p.resourceKind.toList ∧ '/' ∉ p.resourceId.toList ∧ '/' ∉ p.stream.toList

instance (p : EnvelopePlan) : Decidable p.Plain := inferInstanceAs (Decidable (_ ∧ _))

/-! ### Plain addresses -/

/-- Two names are read off the parts of a text that joins them. -/
theorem split_pair {s t s' t' : String} {mid : List String}
    (h : Str.split '/' s ++ mid ++ Str.split '/' t = [s'] ++ mid ++ [t']) : s = s' ∧ t = t' := by
  have hlen := congrArg List.length h
  have hs := List.length_pos_iff.mpr (Str.split_ne_nil '/' s)
  have ht := List.length_pos_iff.mpr (Str.split_ne_nil '/' t)
  simp only [List.length_append, List.length_singleton] at hlen
  obtain ⟨hl, hr⟩ := List.append_inj h (by simp; omega)
  obtain ⟨hl, -⟩ := List.append_inj hl (by simp; omega)
  exact ⟨(Str.split_eq_singleton_iff.mp hl).1, (Str.split_eq_singleton_iff.mp hr).1⟩

/-- Plain parts with the same stream id have the same resource and stream. -/
theorem Plain.streamId_eq (h : p.Plain) (hnode : q.nodeId = p.nodeId)
    (heq : q.streamId = p.streamId) : q.resourceId = p.resourceId ∧ q.stream = p.stream := by
  have htext := StreamId.mk.inj heq
  rw [hnode] at htext
  simp only [String.append_assoc, String.append_right_inj] at htext
  have hsep : "/streams/" = "/" ++ "streams" ++ "/" := rfl
  have hslash : "/" = String.singleton '/' := rfl
  have hsplit := congrArg (Str.split '/') htext
  simp only [hsep, ← String.append_assoc] at hsplit
  rw [hslash, Str.split_append_cons, Str.split_append_cons, Str.split_append_cons,
    Str.split_append_cons, Str.split_of_not_mem h.2.1, Str.split_of_not_mem h.2.2] at hsplit
  exact split_pair hsplit

/-- Plain parts with the same topic have the same kind, resource and stream. -/
theorem Plain.topic_eq (h : p.Plain) (hnode : q.nodeId = p.nodeId) {ctx ctx' : EmissionContext}
    {allocated allocated' : Allocated} {now now' : OffsetDateTime}
    (heq : (q.envelope ctx allocated now).topic = (p.envelope ctx' allocated' now').topic) :
    q.resourceKind = p.resourceKind ∧ q.resourceId = p.resourceId ∧ q.stream = p.stream := by
  rw [topic_envelope, topic_envelope, hnode] at heq
  simp only [String.append_assoc, String.append_right_inj] at heq
  have hslash : "/" = String.singleton '/' := rfl
  have hsplit := congrArg (Str.split '/') heq
  simp only [← String.append_assoc] at hsplit
  rw [hslash, Str.split_append_cons, Str.split_append_cons, Str.split_append_cons,
    Str.split_append_cons, Str.split_of_not_mem h.1, Str.split_of_not_mem h.2.1,
    Str.split_of_not_mem h.2.2] at hsplit
  have hlen := congrArg List.length hsplit
  have hkind := List.length_pos_iff.mpr (Str.split_ne_nil '/' q.resourceKind)
  have hid := List.length_pos_iff.mpr (Str.split_ne_nil '/' q.resourceId)
  have hstream := List.length_pos_iff.mpr (Str.split_ne_nil '/' q.stream)
  simp only [List.length_append, List.length_singleton] at hlen
  obtain ⟨hl, hr⟩ := List.append_inj hsplit (by simp; omega)
  obtain ⟨hk, hi⟩ := List.append_inj hl (by simp; omega)
  exact ⟨(Str.split_eq_singleton_iff.mp hk).1, (Str.split_eq_singleton_iff.mp hi).1,
    (Str.split_eq_singleton_iff.mp hr).1⟩

theorem Plain.unshared (h : p.Plain) : p.Unshared where
  streamId _ hnode heq := h.streamId_eq hnode heq
  topic _ hnode _ _ _ _ _ _ heq := h.topic_eq hnode heq
  sequence _ hnode hne s :=
    s.nextSequence_allocate_of_ne fun heq => hne (h.streamId_eq hnode heq.symm)
  ring _ hnode hne _ _ _ _ :=
    Function.update_of_ne (fun heq => hne (h.streamId_eq hnode heq.symm)) ..

/-! ### Addresses with a slash -/

/-- A text with a slash can be cut at it. -/
theorem exists_cut {s : String} (h : '/' ∈ s.toList) : ∃ l r, s = l ++ "/" ++ r := by
  obtain ⟨l, r, hs⟩ := List.append_of_mem h
  refine ⟨String.ofList l, String.ofList r, ?_⟩
  rw [← String.toList_inj, hs]
  simp

theorem ne_of_cut {s l r : String} (h : s = l ++ "/" ++ r) : l ≠ s := by
  intro hl
  have hlen := congrArg String.length h
  rw [String.length_append, String.length_append, ← hl, show "/".length = 1 from rfl] at hlen
  omega

/-- **When an address is its own.** No other address on the node shares the stream id or the topic
of an address, nor its sequence numbers or its ring, exactly when its kind, its resource id and its
stream contain no slash. -/
theorem unshared_iff (p : EnvelopePlan) : p.Unshared ↔ p.Plain := by
  refine ⟨fun h => ⟨fun hmem => ?_, fun hmem => ?_, fun hmem => ?_⟩, Plain.unshared⟩
  -- the slash can be read as the end of the name before it
  · obtain ⟨l, r, hcut⟩ := exists_cut hmem
    refine ne_of_cut hcut (h.topic
      { p with resourceKind := l, resourceId := r ++ "/" ++ p.resourceId } rfl {} ⟨⟨""⟩, 0⟩ {} {}
      ⟨⟨""⟩, 0⟩ {} ?_).1
    rw [topic_envelope, topic_envelope, hcut]
    simp only [String.append_assoc]
  · obtain ⟨l, r, hcut⟩ := exists_cut hmem
    refine ne_of_cut hcut (h.topic
      { p with resourceId := l, stream := r ++ "/" ++ p.stream } rfl {} ⟨⟨""⟩, 0⟩ {} {}
      ⟨⟨""⟩, 0⟩ {} ?_).2.1
    rw [topic_envelope, topic_envelope, hcut]
    simp only [String.append_assoc]
  · obtain ⟨l, r, hcut⟩ := exists_cut hmem
    have hr := (h.topic
      { p with resourceId := p.resourceId ++ "/" ++ l, stream := r } rfl {} ⟨⟨""⟩, 0⟩ {} {}
      ⟨⟨""⟩, 0⟩ {} (by
        rw [topic_envelope, topic_envelope, hcut]
        simp only [String.append_assoc])).2.2
    have hlen := congrArg String.length hcut
    rw [← hr, String.length_append, String.length_append, show "/".length = 1 from rfl] at hlen
    dsimp only at hlen
    omega

/-- The address of a stream of an actor. -/
def ofNames (resourceKind resourceId stream : String) : EnvelopePlan where
  nodeId := ⟨"hub"⟩
  resourceId := resourceId
  resourceKind := resourceKind
  stream := stream
  payloadKind := "state"
  payloadVersion := 1
  data := .null

/-- **Two resources share a stream**: the second one's first event has sequence number 2 and stands
in the ring of the first. -/
theorem stream_shared :
    let p := ofNames "led" "a" "streams/b"
    let q := ofNames "led" "a/streams" "b"
    p.resourceId ≠ q.resourceId ∧ p.stream ≠ q.stream ∧ p.streamId = q.streamId ∧
      (p.envelope {} ⟨⟨""⟩, 1⟩ {}).topic = (q.envelope {} ⟨⟨""⟩, 2⟩ {}).topic ∧
      ((({} : StreamSequences).allocate p.streamId).1.allocate q.streamId).2.sequence = 2 ∧
      ((({} : StreamReplayCache Json).record (p.envelope {} ⟨⟨""⟩, 1⟩ {})).1.record
        (q.envelope {} ⟨⟨""⟩, 2⟩ {})).1.perStream p.streamId =
          [p.envelope {} ⟨⟨""⟩, 1⟩ {}, q.envelope {} ⟨⟨""⟩, 2⟩ {}] ∧ ¬ p.Unshared := by
  intro p q
  -- the two plans spell one stream id
  have hid : p.streamId = q.streamId := by decide
  refine ⟨by decide, by decide, hid, by rw [topic_envelope, topic_envelope]; decide, ?_, ?_,
    fun h => ?_⟩
  · rw [← hid]
    have hnext := StreamSequences.nextSequence_allocate_self {} p.streamId
    exact hnext
  · -- the ring takes both, under the one id
    have hring : ∀ (cache : StreamReplayCache Json) (e : EventEnvelope Json),
        e.streamId = p.streamId → ¬ cache.capacityPerStream ≤ (cache.perStream p.streamId).length →
        (cache.record e).1.perStream p.streamId = cache.perStream p.streamId ++ [e] := by
      intro cache e he hfull
      simp [StreamReplayCache.record, he, hfull]
    rw [hring _ _ hid.symm, hring _ _ rfl]
    · rfl
    · decide
    · rw [hring _ _ rfl (by decide)]
      decide
  · have hstream := (h.streamId q rfl hid.symm).2
    revert hstream
    decide

end EnvelopePlan

end Boardwalk
