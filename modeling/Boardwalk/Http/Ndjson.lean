import Boardwalk.Http.EventsStream
import Boardwalk.Query.Json

/-!
# The JSON of a stream line

The `json!` objects of `server_events_stream` and `ndjson_event_line` in `http/routes.rs`, with
their members in the order of the source.  A line of the body is the text of its object and a
newline.
-/

namespace Boardwalk

namespace Number

/-- `Number::from` for an `i64`. -/
def ofI64 (n : Int64) : Number := if n < 0 then .negInt n else .posInt n.toUInt64

end Number

namespace Json

def i64 (z : ℤ) : Json := .number (.ofI64 (Int64.ofInt z))

/-- `None` is `null`. -/
def option {α : Type} (f : α → Json) (x : Option α) : Json := (x.map f).getD .null

end Json

/-- The object of a line. -/
def NdjsonLine.toJson : NdjsonLine Json → Json
  | event topic timestamp data eventId streamId sequence nodeId resourceId resourceKind payloadKind
      payloadVersion envelopeVersion isoTimestamp stream =>
    -- unlike in a frame, every member is there
    .object [
      ("topic", .string topic),
      ("timestamp", .i64 timestamp),
      ("data", data),
      ("eventId", .string eventId),
      ("streamId", .string streamId),
      ("sequence", .u64 sequence),
      ("nodeId", .string nodeId),
      ("resourceId", .string resourceId),
      ("resourceKind", .string resourceKind),
      ("payloadKind", .string payloadKind),
      ("payloadVersion", .u64 payloadVersion.toUInt64),
      ("envelopeVersion", .u64 envelopeVersion.toUInt64),
      ("isoTimestamp", .option .string isoTimestamp),
      ("stream", .string stream)]
  | streamGap timestamp streamId lastDeliveredSequence reason terminated =>
    -- absent members are `null`
    .object [
      ("type", .string "stream-gap"),
      ("timestamp", .i64 timestamp),
      ("streamId", .option .string streamId),
      ("lastDeliveredSequence", .option .u64 lastDeliveredSequence),
      ("reason", .string reason),
      ("terminated", .bool terminated)]

end Boardwalk
