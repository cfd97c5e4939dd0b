import Boardwalk.Http.Frames

/-!
# The envelope mirror of the two encodings

The frame of a WebSocket event and the line of an NDJSON stream show the same part of an envelope
(`Shown`), and each shows all of that part: it can be read off either encoding.  The correlation and
the causation of the documented mirror are not in it (`mirrored_iff`).
-/

namespace Boardwalk

/-- The fields of an envelope that an event mirrors, as they are documented. -/
structure Mirror (δ : Type) where
  eventId : EventId
  nodeId : NodeId
  resourceId : String
  resourceKind : String
  streamId : StreamId
  stream : String
  sequence : UInt64
  payloadKind : String
  payloadVersion : UInt32
  correlationId : Option String
  causationId : Option String
  data : δ

def EventEnvelope.mirror {δ : Type} (e : EventEnvelope δ) : Mirror δ where
  eventId := e.eventId
  nodeId := e.nodeId
  resourceId := e.resourceId
  resourceKind := e.resourceKind
  streamId := e.streamId
  stream := e.stream
  sequence := e.sequence
  payloadKind := e.payloadKind
  payloadVersion := e.payloadVersion
  correlationId := e.correlationId
  causationId := e.causationId
  data := e.data

/-- What an encoding shows of an envelope. -/
structure Shown (δ : Type) where
  eventId : EventId
  nodeId : NodeId
  resourceId : String
  resourceKind : String
  streamId : StreamId
  stream : String
  sequence : UInt64
  payloadKind : String
  payloadVersion : UInt32
  envelopeVersion : UInt8
  timestamp : Int64
  isoTimestamp : Option String
  data : δ

def EventEnvelope.shown {δ : Type} (rfc3339 : OffsetDateTime → Option String)
    (e : EventEnvelope δ) : Shown δ where
  eventId := e.eventId
  nodeId := e.nodeId
  resourceId := e.resourceId
  resourceKind := e.resourceKind
  streamId := e.streamId
  stream := e.stream
  sequence := e.sequence
  payloadKind := e.payloadKind
  payloadVersion := e.payloadVersion
  envelopeVersion := e.envelopeVersion
  timestamp := Int64.ofInt e.timestampMs
  isoTimestamp := rfc3339 e.timestamp
  data := e.data

section

variable (rfc3339 : OffsetDateTime → Option String) (appId : UInt64)

/-- The frame of an event of the subscription. -/
def eventFrame (e : EventEnvelope Json) : Json := (renderEventForWs rfc3339 appId e).toJson

/-- The line of an event. -/
def eventLine (e : EventEnvelope Json) : Option Json :=
  (ndjsonEventLine rfc3339 e).map NdjsonLine.toJson

end

/-! ### Values -/

theorem EventId.raw_inj {a b : EventId} : a.raw = b.raw ↔ a = b := by
  cases a
  cases b
  simp

theorem StreamId.raw_inj {a b : StreamId} : a.raw = b.raw ↔ a = b := by
  cases a
  cases b
  simp

theorem NodeId.raw_inj {a b : NodeId} : a.raw = b.raw ↔ a = b := by
  cases a
  cases b
  simp

namespace Json

theorem u64_inj {m n : UInt64} : u64 m = u64 n ↔ m = n := by
  simp [u64]

/-- Numbers of a JSON body are equal exactly when they wrap to the same `i64`. -/
theorem i64_inj {z w : ℤ} : i64 z = i64 w ↔ Int64.ofInt z = Int64.ofInt w := by
  constructor
  · intro h
    have hnumber : Number.ofI64 (Int64.ofInt z) = Number.ofI64 (Int64.ofInt w) :=
      Json.number.inj h
    unfold Number.ofI64 at hnumber
    split at hnumber <;> split at hnumber
    · exact Number.negInt.inj hnumber
    · cases hnumber
    · cases hnumber
    · have hbits := congrArg UInt64.toBitVec (Number.posInt.inj hnumber)
      exact Int64.toBitVec_inj.mp hbits
  · intro h
    rw [i64, i64, h]

theorem option_string_inj {x y : Option String} : option string x = option string y ↔ x = y := by
  cases x <;> cases y <;> simp [option]

theorem member_string_inj {key : String} {x y : Option String} :
    member key string x = member key string y ↔ x = y := by
  cases x <;> cases y <;> simp [member]

end Json

/-! ### Encodings -/

section

variable {rfc3339 : OffsetDateTime → Option String} {appId : UInt64} {e e' : EventEnvelope Json}

/-- The frame shows that part, and no more. -/
theorem eventFrame_eq_iff : eventFrame rfc3339 appId e = eventFrame rfc3339 appId e' ↔
    e.shown rfc3339 = e'.shown rfc3339 := by
  constructor
  · intro h
    simp only [eventFrame, renderEventForWs, OutboundMessage.toJson, Json.member_some,
      List.cons_append, List.nil_append, Json.object.injEq, List.cons.injEq, Prod.mk.injEq,
      true_and, Json.string.injEq, Json.i64_inj, Json.u64_inj, Json.member_string_inj,
      EventId.raw_inj, StreamId.raw_inj, NodeId.raw_inj, UInt32.toUInt64_inj,
      UInt8.toUInt64_inj] at h
    simp [EventEnvelope.shown, h]
  · intro h
    simp only [EventEnvelope.shown, Shown.mk.injEq] at h
    simp [eventFrame, renderEventForWs, OutboundMessage.toJson, EventEnvelope.topic, Json.i64, h]

/-- So does the line. -/
theorem eventLine_eq_iff : eventLine rfc3339 e = eventLine rfc3339 e' ↔
    e.shown rfc3339 = e'.shown rfc3339 := by
  constructor
  · intro h
    simp only [eventLine, ndjsonEventLine, NdjsonLine.toJson, Option.map_some, Option.some.injEq,
      Json.object.injEq, List.cons.injEq, Prod.mk.injEq, true_and, Json.string.injEq,
      Json.i64_inj, Json.u64_inj, Json.option_string_inj, EventId.raw_inj, StreamId.raw_inj,
      NodeId.raw_inj, UInt32.toUInt64_inj, UInt8.toUInt64_inj] at h
    simp [EventEnvelope.shown, h]
  · intro h
    simp only [EventEnvelope.shown, Shown.mk.injEq] at h
    simp [eventLine, ndjsonEventLine, NdjsonLine.toJson, EventEnvelope.topic, Json.i64, h]

/-- Envelopes that show the same differ in their mirrors by the correlation and the causation. -/
theorem mirror_eq_iff (h : e.shown rfc3339 = e'.shown rfc3339) : e.mirror = e'.mirror ↔
    e.correlationId = e'.correlationId ∧ e.causationId = e'.causationId := by
  simp only [EventEnvelope.shown, Shown.mk.injEq] at h
  simp [EventEnvelope.mirror, h]

/-- **The encodings mirror the envelope** exactly where two envelopes do not differ in their
correlation or their causation alone. -/
theorem mirrored_iff :
    (e.mirror ≠ e'.mirror → eventFrame rfc3339 appId e ≠ eventFrame rfc3339 appId e' ∧
        eventLine rfc3339 e ≠ eventLine rfc3339 e') ↔
      (e.shown rfc3339 = e'.shown rfc3339 →
        e.correlationId = e'.correlationId ∧ e.causationId = e'.causationId) := by
  rw [ne_eq, ne_eq, ne_eq, eventFrame_eq_iff, eventLine_eq_iff, and_self]
  constructor
  · intro h hshown
    rw [← mirror_eq_iff hshown]
    by_contra hne
    exact h hne hshown
  · intro h hne hshown
    exact hne ((mirror_eq_iff hshown).mpr (h hshown))

end

/-- An event of a transition that had no request. -/
def ledOn : EventEnvelope Json where
  eventId := ⟨"bw://hub/resources/led/streams/state-1"⟩
  nodeId := ⟨"hub"⟩
  resourceId := "led"
  resourceKind := "led"
  streamId := ⟨"bw://hub/resources/led/streams/state"⟩
  stream := "state"
  sequence := 1
  payloadKind := "resource.state.changed"
  data := .string "on"

/-- With the request id and the command id of a transition it is encoded in the same way. -/
theorem not_mirrored_ledOn :
    { ledOn with correlationId := some "req-123", causationId := some "cmd-1" }.mirror ≠
        ledOn.mirror ∧
      eventFrame (fun _ => some "1970-01-01T00:00:00Z") 1
          { ledOn with correlationId := some "req-123", causationId := some "cmd-1" } =
        eventFrame (fun _ => some "1970-01-01T00:00:00Z") 1 ledOn ∧
      eventLine (fun _ => some "1970-01-01T00:00:00Z")
          { ledOn with correlationId := some "req-123", causationId := some "cmd-1" } =
        eventLine (fun _ => some "1970-01-01T00:00:00Z") ledOn := by
  refine ⟨?_, rfl, rfl⟩
  intro h
  have hcorrelation := congrArg Mirror.correlationId h
  cases hcorrelation

end Boardwalk
