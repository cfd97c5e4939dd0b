import Boardwalk.Events.Bus

/-!
# A local subscription of a WebSocket connection

`local_forwarder` of `http/ws.rs`, together with the bus it reads from and the two outbound channels
of its connection.  A poll of a `select!` is one step for each branch it polls, in the order of
`biased`, so that publishers run between the poll of the notice and the poll of the queue.  A branch
that is not ready sends the select back to its first branch, where the next wake-up polls it again.

The messages are `InboundMessage` and `OutboundMessage` of `events/wire.rs`; timestamps are
milliseconds since the epoch.  The forwarder keeps three history variables: the envelopes it sent to
`out_tx`, those it dropped after taking them from the queue, and the notice it reported in a
`stream-gap`, with the envelopes that the bus had enqueued by then.
-/

namespace Boardwalk

/-! ### The messages -/

inductive InboundMessage where
  | subscribe (topic : String) (limit outboundCapacity : Option UInt64)
  | unsubscribe (subscriptionId : UInt64)
  | ping (data : Option String)
  deriving Repr, DecidableEq

/-- A single id or several. -/
inductive SubscriptionRef where
  | single (id : UInt64)
  | multiple (ids : List UInt64)
  deriving Repr, DecidableEq

inductive OutboundMessage (δ : Type) where
  | subscribeAck (timestamp : ℤ) (topic : String) (subscriptionId : UInt64)
  | unsubscribeAck (timestamp : ℤ) (subscriptionId : UInt64)
  | event (topic : String) (subscriptionId : SubscriptionRef) (timestamp : ℤ) (data : δ)
      (eventId : Option EventId) (streamId : Option StreamId) (stream : Option String)
      (sequence : Option UInt64) (nodeId : Option NodeId) (resourceId : Option String)
      (resourceKind : Option String) (payloadKind : Option String)
      (payloadVersion : Option UInt32) (envelopeVersion : Option UInt8)
      (isoTimestamp : Option String)
  | pong (timestamp : ℤ) (data : Option String)
  | error (code : UInt16) (timestamp : ℤ) (topic : Option String) (message : Option String)
      (subscriptionId : Option UInt64)
  | streamGap (timestamp : ℤ) (subscriptionId : UInt64) (streamId : Option StreamId)
      (lastDeliveredSequence : Option UInt64) (reason : String) (terminated : Bool)
  deriving Repr, DecidableEq

/-! ### The forwarder -/

/-- `WS_OUTBOUND_CAPACITY`. -/
def WS_OUTBOUND_CAPACITY : ℕ := 64

inductive ForwarderEvent where
  | lagTerminated (appId : UInt64)
  | localTerminated (appId : UInt64)
  deriving Repr, DecidableEq

/-- Where `local_forwarder` stands. -/
inductive ForwarderPhase (δ : Type) where
  /-- The outer select, at `slow_fut`. -/
  | outerNotice
  /-- The outer select, at `rx.recv()`. -/
  | outerRecv
  /-- The inner select with an envelope in hand, at `slow_fut`. -/
  | innerNotice (env : EventEnvelope δ)
  /-- The inner select, at `out_tx.send(msg)`. -/
  | innerSend (env : EventEnvelope δ)
  /-- After the loop. -/
  | exiting
  /-- `LocalTerminated` is sent, the receiver not yet dropped. -/
  | reported
  | done
  deriving Repr, DecidableEq

structure LocalForwarder (δ : Type) where
  appId : UInt64
  sub : SubscriptionId
  phase : ForwarderPhase δ := .outerNotice
  /-- `slow_fut.is_terminated()`. -/
  slowTerminated : Bool := false
  sent : List (EventEnvelope δ) := []
  lost : List (EventEnvelope δ) := []
  gap : Option (SlowConsumerNotice × List (EventEnvelope δ)) := none

structure WsConn (δ τ : Type) where
  bus : Bus δ τ := {}
  out : Mpsc (OutboundMessage δ) := { capacity := WS_OUTBOUND_CAPACITY }
  terminal : Mpsc (OutboundMessage δ) := { capacity := 1 }
  fwdEvents : List ForwarderEvent := []
  fwd : Option (LocalForwarder δ) := none

/-- `render_event_for_ws`; `rfc3339` is the timestamp formatter. -/
def renderEventForWs {δ : Type} (rfc3339 : OffsetDateTime → Option String) (appId : UInt64)
    (env : EventEnvelope δ) : OutboundMessage δ :=
  .event env.topic (.single appId) env.timestampMs env.data (some env.eventId) (some env.streamId)
    (some env.stream) (some env.sequence) (some env.nodeId) (some env.resourceId)
    (some env.resourceKind) (some env.payloadKind) (some env.payloadVersion)
    (some env.envelopeVersion) (rfc3339 env.timestamp)

/-- `send_or_terminate`: a full outbound channel makes the terminal one carry the message. -/
def sendOrTerminate {δ : Type} (out terminal : Mpsc (OutboundMessage δ)) (msg : OutboundMessage δ) :
    Mpsc (OutboundMessage δ) × Mpsc (OutboundMessage δ) :=
  match out.trySend msg with
  | .ok out => (out, terminal)
  | .error .full =>
    match terminal.trySend msg with
    | .ok terminal => (out, terminal)
    | .error _ => (out, terminal)
  | .error .closed => (out, terminal)

inductive WsAction (δ τ : Type) where
  /-- A publisher, another subscriber or an `unsubscribe`. -/
  | bus (a : BusAction δ τ)
  /-- The dispatcher creates the subscription and spawns the forwarder. -/
  | subscribe (appId : UInt64) (topic : τ) (limit outboundCapacity : Option ℕ)
  /-- The forwarder is polled; `now` is the clock. -/
  | poll (now : ℤ)
  /-- Another task of the connection sends. -/
  | control (msg : OutboundMessage δ)
  /-- The writer task takes the next message. -/
  | write
  /-- The writer task ends and drops its receivers. -/
  | close
  deriving Repr, DecidableEq

namespace WsConn

variable {δ τ κ : Type} [DecidableEq κ]

def setFwd (w : WsConn δ τ) (f : LocalForwarder δ) : WsConn δ τ := { w with fwd := some f }

/-- The final `stream-gap`, tried once on the terminal channel. -/
def emitGap (w : WsConn δ τ) (f : LocalForwarder δ) (now : ℤ) (n : SlowConsumerNotice) :
    WsConn δ τ :=
  let msg := .streamGap now f.appId n.streamId n.lastDeliveredSequence n.reason true
  match w.terminal.trySend msg with
  | .ok terminal =>
    { w with terminal }.setFwd
      { f with phase := .exiting, slowTerminated := true
               gap := some (n, (w.bus.mpsc f.sub).enqueued) }
  | .error _ => w.setFwd { f with phase := .exiting, slowTerminated := true }

/-- One poll of one select branch of `local_forwarder`. -/
def poll (rfc3339 : OffsetDateTime → Option String) (w : WsConn δ τ) (f : LocalForwarder δ)
    (now : ℤ) : Option (WsConn δ τ) :=
  match f.phase with
  | .outerNotice =>
    if f.slowTerminated then some (w.setFwd { f with phase := .outerRecv })
    else
      match w.bus.notify f.sub with
      | .pending => some (w.setFwd { f with phase := .outerRecv })
      | .sent n => some (w.emitGap f now n)
      | .dropped => some (w.setFwd { f with slowTerminated := true })
  | .outerRecv =>
    match w.bus.recv f.sub with
    | some (env, bus) => some ({ w with bus }.setFwd { f with phase := .innerNotice env })
    | none =>
      if w.bus.senderAlive f.sub then some (w.setFwd { f with phase := .outerNotice })
      else some (w.setFwd { f with phase := .exiting })
  | .innerNotice env =>
    if f.slowTerminated then some (w.setFwd { f with phase := .innerSend env })
    else
      match w.bus.notify f.sub with
      | .pending => some (w.setFwd { f with phase := .innerSend env })
      | .sent n => some (w.emitGap { f with lost := f.lost ++ [env] } now n)
      | .dropped =>
        -- the select drops `out_tx.send(msg)` and with it the message
        some (w.setFwd
          { f with slowTerminated := true, phase := .outerNotice, lost := f.lost ++ [env] })
  | .innerSend env =>
    match w.out.trySend (renderEventForWs rfc3339 f.appId env) with
    | .ok out =>
      some ({ w with out }.setFwd { f with phase := .outerNotice, sent := f.sent ++ [env] })
    | .error .full => some (w.setFwd { f with phase := .innerNotice env })
    | .error .closed => some (w.setFwd { f with phase := .exiting, lost := f.lost ++ [env] })
  | .exiting =>
    some ({ w with fwdEvents := w.fwdEvents ++ [ForwarderEvent.localTerminated f.appId] }.setFwd
      { f with phase := .reported })
  | .reported => some ({ w with bus := w.bus.dropRx f.sub }.setFwd { f with phase := .done })
  | .done => none

/-- The actions of the bus's other parties: only the forwarder holds the receiver of its
subscription. -/
def othersMay (w : WsConn δ τ) : BusAction δ τ → Bool
  | .recv j | .dropRx j => w.fwd.all fun f => decide (j ≠ f.sub)
  | _ => true

def step (ops : BusOps δ τ κ) (rfc3339 : OffsetDateTime → Option String) (w : WsConn δ τ) :
    WsAction δ τ → Option (WsConn δ τ)
  | .bus a => if w.othersMay a then (w.bus.step ops a).map fun bus => { w with bus } else none
  | .subscribe appId topic limit outboundCapacity =>
    if w.fwd.isNone then
      (w.bus.step ops (.subscribe topic { limit, outboundCapacity })).map fun bus =>
        -- a capacity that the channel does not accept panics before the task is spawned
        { w with bus, fwd := (bus.subs w.bus.nextId).map fun _ => { appId, sub := w.bus.nextId } }
    else none
  | .poll now => w.fwd.bind fun f => w.poll rfc3339 f now
  | .control msg =>
    let (out, terminal) := sendOrTerminate w.out w.terminal msg
    some { w with out, terminal }
  | .write =>
    match w.terminal.recv with
    | some (_, terminal) => some { w with terminal }
    | none => w.out.recv.map fun (_, out) => { w with out }
  | .close => some { w with out := w.out.dropRx, terminal := w.terminal.dropRx }

def machine (ops : BusOps δ τ κ) (rfc3339 : OffsetDateTime → Option String) (replayCapacity : ℕ) :
    Machine (WsConn δ τ) (WsAction δ τ) where
  init := { bus := (Bus.machine ops replayCapacity).init }
  step := step ops rfc3339

end WsConn

end Boardwalk
