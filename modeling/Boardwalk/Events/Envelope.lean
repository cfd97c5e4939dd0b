import Mathlib.Data.Int.Notation
import Mathlib.Data.List.Basic
import Mathlib.Tactic.Common

/-!
# The event envelope

`EventEnvelope δ` is the record of `events/envelope.rs` over an arbitrary payload type `δ` (the
crate's payload is a JSON value; the event bus only passes it on).  Identifiers keep the source's
newtypes, so that an event id cannot be used as a stream id.
-/

namespace Boardwalk

/-- `ENVELOPE_VERSION`. -/
def ENVELOPE_VERSION : UInt8 := 1

structure EventId where
  raw : String
  deriving Repr, DecidableEq

structure StreamId where
  raw : String
  deriving Repr, DecidableEq

structure NodeId where
  raw : String
  deriving Repr, DecidableEq

/-- `StreamId::for_resource`. -/
def StreamId.forResource (node : NodeId) (resourceId stream : String) : StreamId :=
  ⟨"bw://" ++ node.raw ++ "/resources/" ++ resourceId ++ "/streams/" ++ stream⟩

structure TraceContext where
  traceparent : String
  tracestate : Option String := none
  deriving Repr, DecidableEq

/-- An instant with its offset from UTC (`time::OffsetDateTime`). -/
structure OffsetDateTime where
  unixTimestampNanos : ℤ := 0
  offsetSeconds : ℤ := 0
  deriving Repr, DecidableEq

structure EventEnvelope (δ : Type) where
  envelopeVersion : UInt8 := ENVELOPE_VERSION
  eventId : EventId
  nodeId : NodeId
  resourceId : String
  resourceKind : String
  resourceVersion : UInt32 := 1
  streamId : StreamId
  stream : String
  sequence : UInt64
  timestamp : OffsetDateTime := {}
  payloadKind : String
  payloadVersion : UInt32 := 1
  payloadSchema : Option String := none
  correlationId : Option String := none
  causationId : Option String := none
  traceContext : Option TraceContext := none
  data : δ
  deriving Repr, DecidableEq

namespace EventEnvelope

variable {δ : Type}

/-- `EventEnvelope::topic`: node, kind, resource and stream joined by slashes. -/
def topic (e : EventEnvelope δ) : String :=
  e.nodeId.raw ++ "/" ++ e.resourceKind ++ "/" ++ e.resourceId ++ "/" ++ e.stream

/-- `EventEnvelope::timestamp_ms`; the division of `i128`s rounds toward zero. -/
def timestampMs (e : EventEnvelope δ) : ℤ := e.timestamp.unixTimestampNanos.tdiv 1000000

/-- The position of an envelope: its stream and its sequence number there. -/
def position (e : EventEnvelope δ) : StreamId × UInt64 := (e.streamId, e.sequence)

end EventEnvelope

end Boardwalk
