import Boardwalk.Events.Envelope
import Boardwalk.Query.Eval

/-!
# The key of a coalescing subscription

`extract_key` of `events/coalesce.rs`: the value at a path of the envelope, as JSON.  A path below
`data` is looked up in the payload itself; for any other root the envelope is serialized.  The text
of a timestamp is a parameter (`time::serde::rfc3339`), which has none for some years.
-/

namespace Boardwalk

/-- `Serialize` of `TraceContext`. -/
def TraceContext.toJson (t : TraceContext) : Json :=
  .object ([("traceparent", .string t.traceparent)] ++ Json.member "tracestate" .string t.tracestate)

/-- `Serialize` of `EventEnvelope`, with the fields in the order of the source. -/
def EventEnvelope.toJson (rfc3339 : OffsetDateTime → Option String) (env : EventEnvelope Json) :
    Option Json :=
  (rfc3339 env.timestamp).map fun timestamp =>
    .object (
      [("envelopeVersion", .u64 env.envelopeVersion.toUInt64),
        ("eventId", .string env.eventId.raw),
        ("nodeId", .string env.nodeId.raw),
        ("resourceId", .string env.resourceId),
        ("resourceKind", .string env.resourceKind),
        ("resourceVersion", .u64 env.resourceVersion.toUInt64),
        ("streamId", .string env.streamId.raw),
        ("stream", .string env.stream),
        ("sequence", .u64 env.sequence),
        ("timestamp", .string timestamp),
        ("payloadKind", .string env.payloadKind),
        ("payloadVersion", .u64 env.payloadVersion.toUInt64)] ++
      Json.member "payloadSchema" .string env.payloadSchema ++
      Json.member "correlationId" .string env.correlationId ++
      Json.member "causationId" .string env.causationId ++
      Json.member "traceContext" TraceContext.toJson env.traceContext ++
      [("data", env.data)])

/-- `extract_key`. -/
def extractKey (rfc3339 : OffsetDateTime → Option String) (env : EventEnvelope Json)
    (path : FieldPath) : Option Json :=
  match path.segments with
  | "data" :: segs => lookupPath segs env.data
  | _ => (env.toJson rfc3339).bind (lookup path)

end Boardwalk
