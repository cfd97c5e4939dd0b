import Boardwalk.Http.Ndjson
import Boardwalk.Http.Ws

/-!
# The JSON of a WebSocket frame

`Serialize` of `OutboundMessage` in `events/wire.rs`: the tag `type` first, then the fields in the
order of the source.  A frame is the text of its object.
-/

namespace Boardwalk

def SubscriptionRef.toJson : SubscriptionRef → Json
  | single id => .u64 id
  | multiple ids => .array (ids.map .u64)

/-- The object of a frame. -/
def OutboundMessage.toJson : OutboundMessage Json → Json
  | subscribeAck timestamp topic subscriptionId =>
    .object [
      ("type", .string "subscribe-ack"),
      ("timestamp", .i64 timestamp),
      ("topic", .string topic),
      ("subscriptionId", .u64 subscriptionId)]
  | unsubscribeAck timestamp subscriptionId =>
    .object [
      ("type", .string "unsubscribe-ack"),
      ("timestamp", .i64 timestamp),
      ("subscriptionId", .u64 subscriptionId)]
  | event topic subscriptionId timestamp data eventId streamId stream sequence nodeId resourceId
      resourceKind payloadKind payloadVersion envelopeVersion isoTimestamp =>
    -- members that are absent are left out, and `data` never is
    .object (
      [("type", .string "event"),
        ("topic", .string topic),
        ("subscriptionId", subscriptionId.toJson),
        ("timestamp", .i64 timestamp),
        ("data", data)] ++
      Json.member "eventId" (fun id => .string id.raw) eventId ++
      Json.member "streamId" (fun id => .string id.raw) streamId ++
      Json.member "stream" .string stream ++
      Json.member "sequence" .u64 sequence ++
      Json.member "nodeId" (fun id => .string id.raw) nodeId ++
      Json.member "resourceId" .string resourceId ++
      Json.member "resourceKind" .string resourceKind ++
      Json.member "payloadKind" .string payloadKind ++
      Json.member "payloadVersion" (fun n => .u64 n.toUInt64) payloadVersion ++
      Json.member "envelopeVersion" (fun n => .u64 n.toUInt64) envelopeVersion ++
      Json.member "isoTimestamp" .string isoTimestamp)
  | pong timestamp data =>
    .object [
      ("type", .string "pong"),
      ("timestamp", .i64 timestamp),
      ("data", .option .string data)]
  | error code timestamp topic message subscriptionId =>
    -- `topic` and `message` are written even when they are `null`
    .object (
      [("type", .string "error"),
        ("code", .u64 code.toUInt64),
        ("timestamp", .i64 timestamp),
        ("topic", .option .string topic),
        ("message", .option .string message)] ++
      Json.member "subscriptionId" .u64 subscriptionId)
  | streamGap timestamp subscriptionId streamId lastDeliveredSequence reason terminated =>
    .object (
      [("type", .string "stream-gap"),
        ("timestamp", .i64 timestamp),
        ("subscriptionId", .u64 subscriptionId)] ++
      Json.member "streamId" (fun id => .string id.raw) streamId ++
      Json.member "lastDeliveredSequence" .u64 lastDeliveredSequence ++
      [("reason", .string reason), ("terminated", .bool terminated)])

end Boardwalk
