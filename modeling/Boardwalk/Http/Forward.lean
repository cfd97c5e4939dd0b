import Boardwalk.Peer.Acceptor

/-!
# Forwarding to peers

How requests reach a connected peer: `maybe_forward_or_404` of `http/routes.rs` and the peer branch
of the WebSocket subscribe in `http/ws.rs`, which goes through `PeerStreamHub::subscribe` of
`http/peer_streams.rs`.  Both read the route's admission and its sender under different locks, and
the gateway's acceptors go on in between.

A context that a request holds is a clone of the admission; the model keeps it together with the
connection whose admission it is.
-/

namespace Boardwalk

/-- What a forwarded request asks of the peer. -/
inductive ProxyIntent where
  | read
  | list
  | query
  | subscribe
  | invoke
  | register
  | metadata
  | admin
  deriving Repr, DecidableEq

def ProxyIntent.requiredCapability : ProxyIntent → PeerCapabilities
  | .read | .list | .metadata => .resourceRead
  | .query => .resourceQuery
  | .subscribe => .streamSubscribeCapability
  | .invoke => .transitionInvoke
  | .register => .resourceRegister
  | .admin => .peerAdmin

/-- An admission read from `contexts`, and the connection it belongs to. -/
structure ReadContext where
  conn : ConnId
  admitted : AdmittedPeerConnection
  deriving Repr, DecidableEq

/-- `PeerSenders::peer_context`, with the connection that the admission belongs to. -/
def PeerAcceptors.readContext (s : PeerAcceptors) (name : String) : Option ReadContext :=
  (s.contextConn name).bind fun c => (s.conns.get? c).map fun p => ⟨c, p.admitted⟩

/-- The gateway-owned values stamped onto a forwarded request. -/
structure ForwardAttestation where
  gatewayName : String
  renderCapabilities : PeerCapabilities
  caller : Option AdmittedPeerConnection
  deriving Repr, DecidableEq

/-- What was handed to the sender of a connection. -/
structure SentRequest where
  conn : ConnId
  required : PeerCapabilities
  /-- Absent on the requests of `run_stream`. -/
  attestation : Option ForwardAttestation
  deriving Repr, DecidableEq

/-- How `maybe_forward_or_404` ends. -/
inductive ForwardReply where
  /-- The caller serves the request locally. -/
  | notForwarded
  /-- `404`, "unknown server". -/
  | unknownServer
  /-- `403`, "caller capability denied". -/
  | callerCapabilityDenied
  /-- `403`, "peer capability denied". -/
  | peerCapabilityDenied
  /-- `500`, "forward build: …". -/
  | forwardBuild
  /-- Sent; the peer's answer or `502`. -/
  | forwarded
  deriving Repr, DecidableEq

/-- Where a request in `maybe_forward_or_404` is. -/
inductive ForwardPhase where
  /-- The caller is resolved; about to pass its gate and to read the context. -/
  | resolved
  /-- The context allows the intent; about to read the sender. -/
  | checked (context : ReadContext)
  /-- About to build the request and to send it. -/
  | sending (context : ReadContext) (sender : ConnId)
  | replied (reply : ForwardReply)
  deriving Repr, DecidableEq

/-- A request that `resolve_caller_ingress` let through.  `intent` is what `ProxyIntent::from_parts`
makes of it. -/
structure ForwardRequest where
  targetName : String
  intent : Option ProxyIntent
  caller : Option AdmittedPeerConnection
  phase : ForwardPhase := .resolved
  deriving Repr, DecidableEq

/-- Where the subscribe of a peer topic is. -/
inductive PeerSubscribePhase where
  /-- About to read the context. -/
  | parsed
  /-- The context, if there is one, allows `stream.subscribe`; about to lock the stream hub. -/
  | subscribing (context : Option ReadContext)
  /-- Holds the stream hub, about to read the sender. -/
  | connecting (context : Option ReadContext)
  /-- `run_stream` is spawned and has not sent its request. -/
  | spawned (sender : ConnId)
  /-- `run_stream` has sent its request. -/
  | streaming
  /-- `run_stream` was aborted before it sent its request. -/
  | aborted
  /-- Shares the stream of another subscriber. -/
  | joined
  /-- Error `403`, "peer capability denied". -/
  | capabilityDenied
  /-- Error `400`, "unknown peer". -/
  | unknownPeer
  deriving Repr, DecidableEq

/-- A WebSocket subscribe whose topic starts with the name of a peer. -/
structure PeerSubscribe where
  peer : String
  topic : String
  phase : PeerSubscribePhase := .parsed
  deriving Repr, DecidableEq

/-- `PeerStreamEntry`; `task` is the subscribe that spawned the stream. -/
structure PeerStreamEntry where
  task : ℕ
  refcount : ℕ
  deriving Repr, DecidableEq

structure Gateway where
  acceptors : PeerAcceptors := {}
  /-- The entries of `PeerStreamHub`. -/
  streams : Table (String × String) PeerStreamEntry := .empty
  /-- The subscribe that holds the lock of the stream hub. -/
  streamsGuard : Option ℕ := none
  requests : Table ℕ ForwardRequest := .empty
  subscribes : Table ℕ PeerSubscribe := .empty
  /-- Everything handed to a sender, in order. -/
  sent : List SentRequest := []

inductive GatewayAction where
  | acceptor (a : AcceptorAction)
  /-- A request comes out of `resolve_caller_ingress`. -/
  | receive (i : ℕ) (targetName : String) (intent : Option ProxyIntent)
    (caller : Option AdmittedPeerConnection)
  /-- The next step of a request; `built` is the outcome of `build_peer_forward_request`. -/
  | forward (i : ℕ) (built : Bool)
  /-- A WebSocket client subscribes to a peer topic. -/
  | peerTopic (i : ℕ) (peer topic : String)
  /-- The next step of a subscribe, or of the stream it spawned. -/
  | subscribe (i : ℕ)
  | unsubscribe (peer topic : String)
  deriving Repr, DecidableEq

namespace Gateway

/-- Replaces request `i`. -/
def setRequest (g : Gateway) (i : ℕ) (q : ForwardRequest) (phase : ForwardPhase) : Gateway :=
  { g with requests := g.requests.insert i { q with phase } }

/-- Replaces subscribe `i`. -/
def setSubscribe (g : Gateway) (i : ℕ) (w : PeerSubscribe) (phase : PeerSubscribePhase) :
    Gateway :=
  { g with subscribes := g.subscribes.insert i { w with phase } }

/-- Stores an entry in the stream hub. -/
def setStream (g : Gateway) (key : String × String) (entry : PeerStreamEntry) : Gateway :=
  { g with streams := g.streams.insert key entry }

/-- `SendRequest::send_request`: hands a request to a connection. -/
def sendRequest (g : Gateway) (request : SentRequest) : Gateway :=
  { g with sent := g.sent ++ [request] }

/-- The gates of `maybe_forward_or_404` up to the target's capability ceiling. -/
def gate (name : String) (acceptors : PeerAcceptors) (q : ForwardRequest) : ForwardPhase :=
  if q.targetName = name then .replied .notForwarded else
  match q.intent with
  | none => .replied .unknownServer
  | some intent =>
    if q.caller.any fun caller =>
        !caller.negotiatedCapabilities.contains intent.requiredCapability then
      .replied .callerCapabilityDenied
    else
      match acceptors.readContext q.targetName with
      | none => .replied .unknownServer
      | some context =>
        if context.admitted.negotiatedCapabilities.contains intent.requiredCapability then
          .checked context
        else .replied .peerCapabilityDenied

/-- `maybe_forward_or_404` of a gateway called `name`, after the ingress. -/
def maybeForwardOr404 (name : String) (g : Gateway) (i : ℕ) (q : ForwardRequest) (built : Bool) :
    Option Gateway :=
  match q.phase with
  -- the context is read and checked here, and the sender in a later step
  | .resolved => some <| g.setRequest i q (gate name g.acceptors q)
  | .checked context =>
    -- `sender` takes the mutex
    if g.acceptors.sendersGuard = none then
      some <| g.setRequest i q <|
        match g.acceptors.sender q.targetName with
        | none => .replied .unknownServer
        | some sender => .sending context sender
    else none
  | .sending context sender =>
    q.intent.map fun intent =>
      if built then
        -- whatever sender was read, the attestation is that of the context
        (g.sendRequest {
          conn := sender
          required := intent.requiredCapability
          attestation := some {
            gatewayName := name
            renderCapabilities := context.admitted.negotiatedCapabilities
            caller := q.caller } }).setRequest i q (.replied .forwarded)
      else g.setRequest i q (.replied .forwardBuild)
  | .replied _ => none

/-- The peer branch of the subscribe in `handle_socket`, with `PeerStreamHub::subscribe` and the
start of `run_stream` inlined. -/
def peerSubscribe (g : Gateway) (i : ℕ) (w : PeerSubscribe) : Option Gateway :=
  match w.phase with
  | .parsed =>
    let context := g.acceptors.readContext w.peer
    -- `if let Some(context)`: without one the check is skipped
    some <| g.setSubscribe i w <|
      if context.any fun context =>
          !context.admitted.negotiatedCapabilities.contains .streamSubscribeCapability then
        .capabilityDenied
      else .subscribing context
  | .subscribing context =>
    if g.streamsGuard = none then
      match g.streams.get? (w.peer, w.topic) with
      | some entry =>
        some <| (g.setStream (w.peer, w.topic)
          { entry with refcount := entry.refcount + 1 }).setSubscribe i w .joined
      | none => some <| { g with streamsGuard := some i }.setSubscribe i w (.connecting context)
    else none
  | .connecting _ =>
    -- the hub's lock is held across this read, and given back on both outcomes
    if g.acceptors.sendersGuard = none then
      match g.acceptors.sender w.peer with
      | none => some <| { g with streamsGuard := none }.setSubscribe i w .unknownPeer
      | some sender =>
        some <| ({ g with streamsGuard := none }.setStream (w.peer, w.topic)
          { task := i, refcount := 1 }).setSubscribe i w (.spawned sender)
    else none
  | .spawned sender =>
    some <| (g.sendRequest {
      conn := sender
      required := .streamSubscribeCapability
      attestation := none }).setSubscribe i w .streaming
  | .streaming | .aborted | .joined | .capabilityDenied | .unknownPeer => none

/-- Aborts the stream that subscribe `i` spawned. -/
def abortStream (g : Gateway) (i : ℕ) : Gateway :=
  match g.subscribes.get? i with
  | some w =>
    match w.phase with
    | .spawned _ => g.setSubscribe i w .aborted
    | _ => g
  | none => g

/-- `PeerStreamHub::unsubscribe`. -/
def peerUnsubscribe (g : Gateway) (peer topic : String) : Option Gateway :=
  if g.streamsGuard = none then
    match g.streams.get? (peer, topic) with
    | none => some g
    | some entry =>
      if entry.refcount = 1 then
        some <| { g with streams := g.streams.remove (peer, topic) }.abortStream entry.task
      else
        some <| g.setStream (peer, topic) { entry with refcount := entry.refcount - 1 }
  else none

/-- One step of a gateway called `name`. -/
def step (ops : HttpOps) (name : String) (g : Gateway) : GatewayAction → Option Gateway
  | .acceptor a => (g.acceptors.step ops a).map fun acceptors => { g with acceptors }
  | .receive i targetName intent caller =>
    if g.requests.get? i = none then
      some { g with requests := g.requests.insert i { targetName, intent, caller } }
    else none
  | .forward i built => (g.requests.get? i).bind fun q => maybeForwardOr404 name g i q built
  | .peerTopic i peer topic =>
    if g.subscribes.get? i = none then
      some { g with subscribes := g.subscribes.insert i { peer, topic } }
    else none
  | .subscribe i => (g.subscribes.get? i).bind fun w => g.peerSubscribe i w
  | .unsubscribe peer topic => g.peerUnsubscribe peer topic

/-- A gateway called `name`, from its start. -/
def machine (ops : HttpOps) (name : String) : Machine Gateway GatewayAction where
  init := {}
  step := step ops name

end Gateway

end Boardwalk
