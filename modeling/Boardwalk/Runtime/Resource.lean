import Boardwalk.Query.Json
import Boardwalk.Events.Envelope

/-!
# Resources of a node and the envelopes they publish

The directory entry of an actor (`runtime/directory.rs`), the snapshot it answers reads with, and
`publish_envelope` of `runtime/context.rs` up to the call of the bus.  The identity in a snapshot
and the identity in an envelope come from the same registration.
-/

namespace Boardwalk

structure ResourceSnapshot where
  id : String
  kind : String
  node : String
  /-- The names of the declared streams. -/
  streams : List String
  deriving Repr, DecidableEq

/-- A directory entry: what the actor was registered with. -/
structure Entry where
  id : String
  kind : String
  /-- The streams of the actor's spec. -/
  streams : List String
  deriving Repr, DecidableEq

/-- `Entry::snapshot`: the actor's reply, with the identity overwritten from the entry. -/
def Entry.snapshot (e : Entry) (reply : ResourceSnapshot) (node : String) : ResourceSnapshot where
  id := e.id
  kind := e.kind
  node := node
  streams := if reply.streams.isEmpty then e.streams else reply.streams

/-- `StreamRegistry::allocate`'s result. -/
structure Allocated where
  eventId : EventId
  sequence : UInt64
  deriving Repr, DecidableEq

structure EnvelopePlan where
  nodeId : NodeId
  resourceId : String
  resourceKind : String
  stream : String
  payloadKind : String
  payloadVersion : UInt32
  data : Json

structure EmissionContext where
  correlation : Option String := none
  causation : Option String := none
  trace : Option TraceContext := none
  deriving Repr, DecidableEq

/-- The envelope of `publish_envelope`; `now` is the clock. -/
def EnvelopePlan.envelope (plan : EnvelopePlan) (ctx : EmissionContext) (allocated : Allocated)
    (now : OffsetDateTime) : EventEnvelope Json where
  eventId := allocated.eventId
  nodeId := plan.nodeId
  resourceId := plan.resourceId
  resourceKind := plan.resourceKind
  streamId := .forResource plan.nodeId plan.resourceId plan.stream
  stream := plan.stream
  sequence := allocated.sequence
  timestamp := now
  payloadKind := plan.payloadKind
  payloadVersion := plan.payloadVersion
  correlationId := ctx.correlation
  causationId := ctx.causation
  traceContext := ctx.trace
  data := plan.data

/-- `ActorCtx`: the identity that an actor publishes under. -/
structure ActorCtx where
  node : String
  resourceId : String
  resourceKind : String
  deriving Repr, DecidableEq

/-- The context of a registered actor (`spawn_actor_entry`). -/
def Entry.actorCtx (e : Entry) (nodeId : String) : ActorCtx where
  node := nodeId
  resourceId := e.id
  resourceKind := e.kind

/-- The plan of `ActorCtx::publish`. -/
def ActorCtx.plan (ctx : ActorCtx) (stream payloadKind : String) (payloadVersion : UInt32)
    (data : Json) : EnvelopePlan where
  nodeId := ⟨ctx.node⟩
  resourceId := ctx.resourceId
  resourceKind := ctx.resourceKind
  stream := stream
  payloadKind := payloadKind
  payloadVersion := payloadVersion
  data := data

end Boardwalk
