import Boardwalk.Events.Topic
import Boardwalk.Http.PeerStreams
import Boardwalk.Http.Ws
import Mathlib.Data.List.AList

/-!
# A WebSocket connection

`handle_socket` of `http/ws.rs` with the tasks it spawns: the dispatcher, which handles the client's
messages one at a time, the writer, one `local_forwarder` for each local subscription (`Http.Ws`)
and one `forward_peer_subscription` for each forwarded one.  The bus, the hub of peer streams and
the set of connected peers are shared with the rest of the server.

The dispatcher is a list of operations (`todo`): a message puts there what the source does for it,
up to the next operation on something shared, and the first operation may put more in front.
`send_or_terminate` is two operations, since the writer and the forwarders run between its two
`try_send`s.  `wire` is a history variable: the messages the writer has sent.
-/

namespace Boardwalk

/-- `WS_MAX_SUBSCRIPTIONS_PER_CONN`. -/
def WS_MAX_SUBSCRIPTIONS_PER_CONN : ℕ := 64

/-- The parts of `AppState` that a connection uses. -/
structure AppState (ρ : Type) where
  /-- `core.name`. -/
  name : String
  bus : Bus Json (TopicPattern ρ)
  peerSenders : Option PeerSenders
  peerStreams : PeerStreamHub

/-- What a connection calls in other crates, and what the bus does. -/
structure SocketOps (ρ κ : Type) where
  topics : TopicOps ρ
  extractKey : EventEnvelope Json → FieldPath → Option κ
  serializedSize : EventEnvelope Json → ℕ
  /-- `serde_json::from_str`, with the text of its error. -/
  parseInbound : String → Except String InboundMessage
  rfc3339 : OffsetDateTime → Option String

def SocketOps.bus {ρ κ : Type} (ops : SocketOps ρ κ) : BusOps Json (TopicPattern ρ) κ :=
  TopicPattern.busOps ops.topics ops.extractKey ops.serializedSize

/-! ### The dispatcher's state -/

structure FwdSub where
  peer : String
  topic : String
  /-- The abort handle: the number of the forwarder. -/
  abort : ℕ
  deriving Repr, DecidableEq

structure ConnState where
  localSubs : AList fun _ : UInt64 => SubscriptionId := ∅
  fwdSubs : AList fun _ : UInt64 => FwdSub := ∅
  nextAppId : UInt64 := 1

/-- The subscriptions that count against the cap. -/
def ConnState.subscriptions (c : ConnState) : ℕ :=
  c.localSubs.entries.length + c.fwdSubs.entries.length

/-- A control reply, without the time at which it is made. -/
inductive Reply where
  | error (code : UInt16) (topic message : Option String) (subscriptionId : Option UInt64)
  | subscribeAck (topic : String) (subscriptionId : UInt64)
  | unsubscribeAck (subscriptionId : UInt64)
  | pong (data : Option String)
  deriving Repr, DecidableEq

def Reply.message {δ : Type} (now : ℤ) : Reply → OutboundMessage δ
  | error code topic message subscriptionId => .error code now topic message subscriptionId
  | subscribeAck topic subscriptionId => .subscribeAck now topic subscriptionId
  | unsubscribeAck subscriptionId => .unsubscribeAck now subscriptionId
  | pong data => .pong now data

/-- A `Subscribe` message that passed the cap and the parser. -/
structure Subscribing (ρ : Type) where
  topic : String
  /-- The text before the first slash. -/
  first : String
  isPeerTopic : Bool
  pattern : TopicPattern ρ
  limit : Option UInt64
  outboundCapacity : Option UInt64

/-- The options of a local subscription. -/
def Subscribing.opts {ρ : Type} (r : Subscribing ρ) : SubscribeOpts :=
  { limit := r.limit.map (·.toNat), outboundCapacity := r.outboundCapacity.map (·.toNat) }

/-- An operation of the dispatcher. -/
inductive DispatchOp (ρ : Type) where
  /-- `send_or_terminate` at `out_tx.try_send`. -/
  | reply (r : Reply)
  /-- `send_or_terminate` at `terminal_tx.try_send`. -/
  | fallback (msg : OutboundMessage Json)
  /-- Awaits the context of a peer and checks its capabilities. -/
  | peerContext (r : Subscribing ρ)
  | subscribePeer (appId : UInt64) (r : Subscribing ρ)
  | subscribeLocal (appId : UInt64) (r : Subscribing ρ)
  /-- Removes a local subscription, if there is one. -/
  | removeLocal (appId : UInt64)
  /-- Removes and aborts a forwarded subscription, if there is one. -/
  | removeFwd (appId : UInt64)
  /-- Awaits `peer_streams.unsubscribe`. -/
  | unsubscribePeer (peer topic : String)

inductive DispatchStage where
  | loop
  /-- The loop is left and the two senders are dropped. -/
  | awaitWriter
  /-- The subscriptions are drained. -/
  | cleanup
  | ended
  /-- `subscribe` panicked, and with it the task. -/
  | panicked
  deriving Repr, DecidableEq

/-! ### The other tasks -/

/-- Where the writer stands. -/
inductive WriterPhase where
  /-- The select, at `terminal_rx.recv()`. -/
  | terminal
  /-- The select, at `out_rx.recv()`. -/
  | out
  /-- In `send_text`. -/
  | sending (msg : OutboundMessage Json)
  /-- After the loop, in `sender.close()`; the receivers are not yet dropped. -/
  | closing
  | ended

/-- Where `forward_peer_subscription` stands. -/
inductive PeerForwarderPhase where
  | recv
  /-- With an event in hand, before `out_tx.try_send`. -/
  | send (msg : OutboundMessage Json)
  /-- Before the terminal `stream-gap`. -/
  | gap (reason : String)
  /-- The broadcast is closed, before the error is sent. -/
  | closed
  /-- Before `LagTerminated` is sent. -/
  | report
  | done

structure PeerForwarder where
  appId : UInt64
  fallbackTopic : String
  upstream : ℕ
  /-- The position of the receiver. -/
  next : ℕ
  phase : PeerForwarderPhase := .recv
  aborted : Bool := false

/-- `render_peer_event`. -/
def renderPeerEvent (now : ℤ) (appId : UInt64) (fallbackTopic : String) (v : Json) :
    OutboundMessage Json :=
  let str (key : String) : Option String := (v.get key).bind (·.asStr)
  .event ((str "topic").getD fallbackTopic) (.single appId)
    (((v.get "timestamp").bind (·.asI64)).getD now) ((v.get "data").getD .null)
    ((str "eventId").map .mk) ((str "streamId").map .mk) (str "stream")
    ((v.get "sequence").bind (·.asU64)) ((str "nodeId").map .mk) (str "resourceId")
    (str "resourceKind") (str "payloadKind")
    (((v.get "payloadVersion").bind (·.asU64)).map (·.toUInt32))
    (((v.get "envelopeVersion").bind (·.asU64)).map (·.toUInt8)) (str "isoTimestamp")

structure Socket (ρ : Type) extends AppState ρ where
  conn : ConnState := {}
  stage : DispatchStage := .loop
  todo : List (DispatchOp ρ) := []
  out : Mpsc (OutboundMessage Json) := { capacity := WS_OUTBOUND_CAPACITY }
  terminal : Mpsc (OutboundMessage Json) := { capacity := 1 }
  fwdEvents : List ForwarderEvent := []
  writer : WriterPhase := .terminal
  wire : List (OutboundMessage Json) := []
  locals : List (LocalForwarder Json) := []
  peers : List PeerForwarder := []

namespace Socket

variable {ρ κ : Type} [DecidableEq κ] (ops : SocketOps ρ κ)

/-! ### The dispatcher -/

/-- The subscription is accepted: it gets an id and its ack, and then its source. -/
def accept (s : Socket ρ) (r : Subscribing ρ) : Socket ρ :=
  let appId := s.conn.nextAppId
  { s with
    conn := { s.conn with nextAppId := appId + 1 }
    todo := .reply (.subscribeAck r.topic appId) ::
      (if r.isPeerTopic then .subscribePeer appId r else .subscribeLocal appId r) :: s.todo }

/-- A `Subscribe` message. -/
def onSubscribe (s : Socket ρ) (topic : String) (limit outboundCapacity : Option UInt64) :
    Socket ρ :=
  if WS_MAX_SUBSCRIPTIONS_PER_CONN ≤ s.conn.subscriptions then
    let reached := "subscription cap reached (" ++ toString WS_MAX_SUBSCRIPTIONS_PER_CONN ++
      " max per connection)"
    { s with todo := [.reply (.error 429 (some topic) (some reached) none)] }
  else
    let first := (Str.split '/' topic).headD ""
    let isPeerTopic := first != s.name && !first.isEmpty && s.peerSenders.isSome
    match TopicPattern.parse ops.topics topic with
    | .error e => { s with todo := [.reply (.error 400 (some topic) (some e.display) none)] }
    | .ok pattern =>
      let r : Subscribing ρ := { topic, first, isPeerTopic, pattern, limit, outboundCapacity }
      if isPeerTopic then { s with todo := [.peerContext r] } else s.accept r

/-- A text message. -/
def onText (s : Socket ρ) (text : String) : Socket ρ :=
  match ops.parseInbound text with
  | .ok (.subscribe topic limit outboundCapacity) =>
    s.onSubscribe ops topic limit outboundCapacity
  | .ok (.unsubscribe id) =>
    { s with todo := [.removeLocal id, .removeFwd id, .reply (.unsubscribeAck id)] }
  | .ok (.ping data) => { s with todo := [.reply (.pong data)] }
  | .error e =>
    { s with todo := [.reply (.error 400 none (some ("invalid json: " ++ e)) none)] }

/-- A message of a forwarder. -/
def onForwarderEvent (s : Socket ρ) : ForwarderEvent → Socket ρ
  | .lagTerminated appId => { s with todo := [.removeFwd appId] }
  | .localTerminated appId => { s with todo := [.removeLocal appId] }

/-- `AbortHandle::abort`. -/
def abortPeer (s : Socket ρ) (k : ℕ) : Socket ρ :=
  { s with peers := s.peers.modify k fun f => { f with aborted := true } }

/-- The first operation of `todo`, which is no longer on the list.  Those on the bus wait for its
mutex. -/
def runOp (s : Socket ρ) (now : ℤ) : DispatchOp ρ → Option (Socket ρ)
  | .reply r =>
    match s.out.trySend (r.message now) with
    | .ok out => some { s with out }
    | .error .full => some { s with todo := .fallback (r.message now) :: s.todo }
    | .error .closed => some s
  | .fallback msg =>
    match s.terminal.trySend msg with
    | .ok terminal => some { s with terminal }
    -- `let _ =`: the message is gone
    | .error _ => some s
  | .peerContext r =>
    match s.peerSenders.bind fun senders => senders.peerContext r.first with
    | some context =>
      if context.negotiatedCapabilities.contains .streamSubscribeCapability then some (s.accept r)
      else
        let denied := some "peer capability denied"
        some { s with todo := .reply (.error 403 (some r.topic) denied none) :: s.todo }
    | none => some (s.accept r)
  | .subscribePeer appId r =>
    match s.peerSenders.bind fun senders => s.peerStreams.subscribe r.first r.topic senders with
    | none =>
      let unknown := some ("unknown peer `" ++ r.first ++ "`")
      some { s with todo := .reply (.error 400 (some r.topic) unknown (some appId)) :: s.todo }
    | some ((upstream, next), hub) =>
      let fwd : FwdSub := { peer := r.first, topic := r.topic, abort := s.peers.length }
      some { s with
        peerStreams := hub
        peers := s.peers ++ [{ appId, fallbackTopic := r.topic, upstream, next }]
        conn := { s.conn with fwdSubs := s.conn.fwdSubs.insert appId fwd } }
  | .subscribeLocal appId r =>
    (s.bus.step ops.bus (.subscribe r.pattern r.opts)).map fun bus =>
      -- a capacity that the channel does not accept panics before the id is entered
      if (bus.subs s.bus.nextId).isSome then
        { s with
          bus
          locals := s.locals ++ [{ appId, sub := s.bus.nextId }]
          conn := { s.conn with localSubs := s.conn.localSubs.insert appId s.bus.nextId } }
      else { s with bus, stage := .panicked, todo := [] }
  | .removeLocal appId =>
    match s.conn.localSubs.lookup appId with
    | none => some s
    | some id =>
      (s.bus.step ops.bus (.unsubscribe id)).map fun bus =>
        { s with bus, conn := { s.conn with localSubs := s.conn.localSubs.erase appId } }
  | .removeFwd appId =>
    match s.conn.fwdSubs.lookup appId with
    | none => some s
    | some fwd =>
      some ({ s with
        conn := { s.conn with fwdSubs := s.conn.fwdSubs.erase appId }
        todo := .unsubscribePeer fwd.peer fwd.topic :: s.todo }.abortPeer fwd.abort)
  | .unsubscribePeer peer topic =>
    some { s with peerStreams := s.peerStreams.unsubscribe peer topic }

/-- The dispatcher runs; `now` is the clock.  Between two messages it waits for the next one. -/
def dispatch (s : Socket ρ) (now : ℤ) : Option (Socket ρ) :=
  match s.todo with
  | op :: rest => { s with todo := rest }.runOp ops now op
  | [] =>
    match s.stage, s.writer with
    | .awaitWriter, .ended => some { s with stage := .cleanup }
    | .cleanup, _ =>
      if s.conn.subscriptions = 0 then some { s with stage := .ended } else none
    | _, _ => none

/-- The drain of the maps after the loop, in any order: the local subscriptions first. -/
def drain (s : Socket ρ) (appId : UInt64) : Option (Socket ρ) :=
  if s.stage = .cleanup ∧ s.todo.isEmpty then
    if appId ∈ s.conn.localSubs then some { s with todo := [.removeLocal appId] }
    else if s.conn.localSubs.entries.isEmpty ∧ appId ∈ s.conn.fwdSubs then
      some { s with todo := [.removeFwd appId] }
    else none
  else none

/-! ### The writer and the forwarders -/

/-- Some sender of the outbound channel exists: the dispatcher's, or the clone of a forwarder. -/
def outSenderAlive (s : Socket ρ) : Bool :=
  s.stage == .loop ||
    s.locals.any (fun f => match f.phase with | .done => false | _ => true) ||
    s.peers.any (fun f => match f.phase with | .done => false | _ => true)

/-- The writer is polled; `sent` says whether the socket takes the message in hand. -/
def write (s : Socket ρ) (sent : Bool) : Option (Socket ρ) :=
  match s.writer with
  | .terminal =>
    match s.terminal.recv with
    | some (msg, terminal) => some { s with terminal, writer := .sending msg }
    | none => some { s with writer := .out }
  | .out =>
    match s.out.recv with
    | some (msg, out) => some { s with out, writer := .sending msg }
    | none => some { s with writer := if s.outSenderAlive then .terminal else .closing }
  | .sending msg =>
    if sent then some { s with writer := .terminal, wire := s.wire ++ [msg] }
    else some { s with writer := .closing }
  | .closing => some { s with writer := .ended, out := s.out.dropRx, terminal := s.terminal.dropRx }
  | .ended => none

/-- The connection as a local forwarder sees it. -/
def toWsConn (s : Socket ρ) (f : LocalForwarder Json) : WsConn Json (TopicPattern ρ) :=
  { bus := s.bus, out := s.out, terminal := s.terminal, fwdEvents := s.fwdEvents, fwd := some f }

/-- The local forwarder `k` is polled. -/
def pollLocal (s : Socket ρ) (k : ℕ) (now : ℤ) : Option (Socket ρ) :=
  match s.locals[k]? with
  | none => none
  | some f =>
    ((s.toWsConn f).poll ops.rfc3339 f now).map fun w =>
      { s with
        bus := w.bus
        out := w.out
        terminal := w.terminal
        fwdEvents := w.fwdEvents
        locals := s.locals.set k (w.fwd.getD f) }

def setPeer (s : Socket ρ) (k : ℕ) (f : PeerForwarder) : Socket ρ :=
  { s with peers := s.peers.set k f }

/-- The terminal `stream-gap` of a peer forwarder, which carries no position. -/
def peerGap (now : ℤ) (appId : UInt64) (reason : String) : OutboundMessage Json :=
  .streamGap now appId none none reason true

/-- The peer forwarder `k` is polled. -/
def pollPeer (s : Socket ρ) (k : ℕ) (now : ℤ) : Option (Socket ρ) :=
  match s.peers[k]? with
  | none => none
  | some f =>
    match f.phase with
    | .recv =>
      -- the values of the upstream stream, in the order of the broadcast
      match s.peerStreams.recv f.upstream f.next with
      | (.value v, next) =>
        some (s.setPeer k
          { f with next, phase := .send (renderPeerEvent now f.appId f.fallbackTopic v) })
      | (.lagged skipped, next) =>
        -- a receiver that was overtaken ends the subscription
        some (s.setPeer k
          { f with next, phase := .gap ("broadcast_lag(" ++ toString skipped ++ ")") })
      | (.closed, _) => some (s.setPeer k { f with phase := .closed })
      | (.pending, _) => none
    | .send msg =>
      match s.out.trySend msg with
      | .ok out => some ({ s with out }.setPeer k { f with phase := .recv })
      -- the connection does not keep up: the value is lost, and a gap is reported
      | .error .full => some (s.setPeer k { f with phase := .gap "ws_outbound_full" })
      | .error .closed => some (s.setPeer k { f with phase := .done })
    | .gap reason =>
      -- the gap goes out on the terminal channel, if that has room
      match s.terminal.trySend (peerGap now f.appId reason) with
      | .ok terminal => some ({ s with terminal }.setPeer k { f with phase := .report })
      | .error _ => some (s.setPeer k { f with phase := .report })
    | .closed =>
      -- the upstream stream ended: an error message, if there is room
      let msg := .error 502 now (some f.fallbackTopic) (some "peer stream closed") (some f.appId)
      match s.out.trySend msg with
      | .ok out => some ({ s with out }.setPeer k { f with phase := .report })
      | .error _ => some (s.setPeer k { f with phase := .report })
    | .report =>
      some ({ s with fwdEvents := s.fwdEvents ++ [ForwarderEvent.lagTerminated f.appId] }.setPeer k
        { f with phase := .done })
    | .done => none

/-- An aborted peer forwarder ends at its await. -/
def cancelPeer (s : Socket ρ) (k : ℕ) : Option (Socket ρ) :=
  match s.peers[k]? with
  | none => none
  | some f =>
    match f.phase, f.aborted with
    | .recv, true => some (s.setPeer k { f with phase := .done })
    | _, _ => none

end Socket

/-- What the client sends. -/
inductive ClientMessage where
  | text (s : String)
  /-- A binary message, a ping or a pong. -/
  | other
  /-- A close frame, an error, or the end. -/
  | close
  deriving Repr, DecidableEq

inductive SocketAction (ρ : Type) where
  /-- A publisher, or a subscriber of another connection. -/
  | bus (a : BusAction Json (TopicPattern ρ))
  /-- Another connection, or an upstream task. -/
  | hub (a : HubAction)
  /-- Peers connect or go away. -/
  | connected (senders : PeerSenders)
  /-- The dispatcher takes a message of the client. -/
  | inbound (m : ClientMessage)
  /-- The dispatcher takes a message of a forwarder. -/
  | forwarderEvent
  | dispatch (now : ℤ)
  | drain (appId : UInt64)
  | pollLocal (k : ℕ) (now : ℤ)
  | pollPeer (k : ℕ) (now : ℤ)
  | cancelPeer (k : ℕ)
  | write (sent : Bool)

namespace Socket

variable {ρ κ : Type} [DecidableEq κ] (ops : SocketOps ρ κ)

/-- Only the local forwarders hold the receivers of their subscriptions. -/
def othersMay (s : Socket ρ) : BusAction Json (TopicPattern ρ) → Bool
  | .recv j | .dropRx j => s.locals.all fun f => decide (j ≠ f.sub)
  | _ => true

def step (s : Socket ρ) : SocketAction ρ → Option (Socket ρ)
  -- what is not of this connection runs on its own
  | .bus a => if s.othersMay a then (s.bus.step ops.bus a).map fun bus => { s with bus } else none
  | .hub a =>
    (s.peerStreams.step s.peerSenders a).map fun peerStreams => { s with peerStreams }
  | .connected senders =>
    if s.peerSenders.isSome then some { s with peerSenders := some senders } else none
  | .inbound m =>
    -- the dispatcher takes its next input when it is done with the last one
    if s.stage = .loop ∧ s.todo.isEmpty then
      match m with
      -- binary, ping and pong frames are ignored
      | .text text => some (s.onText ops text)
      | .other => some s
      | .close => some { s with stage := .awaitWriter }
    else none
  | .forwarderEvent =>
    if s.stage = .loop ∧ s.todo.isEmpty then
      match s.fwdEvents with
      | [] => none
      | ev :: rest => some ({ s with fwdEvents := rest }.onForwarderEvent ev)
    else none
  | .dispatch now => s.dispatch ops now
  | .drain appId => s.drain appId
  | .pollLocal k now => s.pollLocal ops k now
  | .pollPeer k now => s.pollPeer k now
  | .cancelPeer k => s.cancelPeer k
  | .write sent => s.write sent

/-- A connection that is opened while the server is in the state `app`. -/
def machine (app : AppState ρ) : Machine (Socket ρ) (SocketAction ρ) where
  init := { app with }
  step := step ops

end Socket

end Boardwalk
