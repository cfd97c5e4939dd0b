import Boardwalk.Peer.Acceptor
import Boardwalk.Peer.Client

/-!
# A hub and a gateway

The clients of one server and the acceptors of another, with the tunnels between them.  The acceptor
task of a tunnel sends `GET /_initiate_peer/{id}` through it, the server at its other end answers, and
the task goes on when the answer arrives or the tunnel breaks.  Other peers dial the gateway too, with
any connection id, and anybody can ask the hub for an id on its public listener.
-/

namespace Boardwalk

/-- The two servers, and the tunnels between them that the gateway knows as connections: what the hub
answered to the confirmation request, if it did. -/
structure PeerLink where
  hub : PeerClients
  gateway : PeerAcceptors := {}
  tunnels : Table ConnId (Option ℕ) := .empty

/-- What happens next. -/
inductive LinkAction where
  /-- A step of the hub, or a request to its public listener. -/
  | hub (a : ClientAction)
  /-- A step of the gateway, or the dial of another peer. -/
  | gateway (a : AcceptorAction)
  /-- The dial of a client of the hub is admitted as connection `c`. -/
  | arrive (c : ConnId) (admitted : AdmittedPeerConnection)
  /-- The hub answers the confirmation request of connection `c`. -/
  | confirm (c : ConnId)
  deriving Repr, DecidableEq

namespace PeerLink

/-- Whether the acceptor task of connection `c` waits for the answer to its confirmation request. -/
def awaits (s : PeerLink) (c : ConnId) : Bool :=
  ((s.gateway.conns.get? c).map PeerConn.task) == some .confirming

/-- The connection id that the confirmation request of connection `c` carries. -/
def connectionId? (s : PeerLink) (c : ConnId) : Option Uuid :=
  (s.gateway.conns.get? c).map fun p => p.admitted.connectionId

/-- What the acceptor task can see of the answer: `200` has arrived through the tunnel.  What other
peers answer is up to them. -/
def answerArrived (s : PeerLink) (c : ConnId) : Bool :=
  match s.tunnels.get? c with
  | some answer => answer == some 200
  | none => true

/-- One step of the two servers. -/
def step (ops : HttpOps) (s : PeerLink) : LinkAction → Option PeerLink
  | .hub a => (s.hub.step a).map fun hub => { s with hub := hub }
  | .gateway (.task c ok) =>
    -- a broken tunnel ends the wait too, with an error
    if s.awaits c && ok && !s.answerArrived c then none
    else (s.gateway.step ops (.task c ok)).map fun gateway => { s with gateway := gateway }
  | .gateway a => (s.gateway.step ops a).map fun gateway => { s with gateway := gateway }
  | .arrive c admitted =>
    if admitted.connectionId ∈ s.hub.dialed then
      (s.gateway.step ops (.dial c admitted)).map fun gateway =>
        { s with gateway := gateway, tunnels := s.tunnels.insert c none }
    else none
  | .confirm c =>
    match s.tunnels.get? c, s.connectionId? c with
    | some none, some id =>
      if s.awaits c then
        let status := if id ∈ s.hub.peerInit then 200 else 404
        some { s with
          hub := s.hub.initiatePeer id
          tunnels := s.tunnels.insert c (some status) }
      else none
    | _, _ => none

/-- A gateway and a hub with `n` clients, from their start. -/
def machine (ops : HttpOps) (n : ℕ) : Machine PeerLink LinkAction where
  init := { hub := (PeerClients.machine n).init }
  step := step ops

end PeerLink

end Boardwalk
