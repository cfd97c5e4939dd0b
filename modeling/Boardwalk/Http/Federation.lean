import Boardwalk.Http.Forward
import Boardwalk.Http.Routes

/-!
# Nodes that forward to each other

A set of servers with tunnels between them, and a request on its way through it.  The tunnel leg
serves the router of the public listener (`Boardwalk::build` of `server.rs`), so a node treats a
request that comes over a tunnel as it treats one of a client.  The path and the query are forwarded
as they are, and with them the target name and the intent; the credentials of the caller are not, so
that the next node finds none.  What a client can ask for is what the router forwards.
-/

namespace Boardwalk

/-- A server whose tunnels stay as they are: nobody holds the lock of the senders. -/
structure FederationNode where
  /-- `core.name`. -/
  name : String
  acceptors : PeerAcceptors
  /-- The node at the other end of a connection. -/
  far : ConnId → Option ℕ
  unlocked : acceptors.sendersGuard = none

/-- The nodes, by their numbers. -/
abbrev Federation := List FederationNode

/-- A request that node `node` is handling. -/
structure Journey where
  node : ℕ
  request : ForwardRequest
  /-- The tunnels it has crossed. -/
  tunnels : ℕ := 0

namespace Journey

/-- The request was handed to the connection `conn`. -/
def cross (s : Journey) (n : FederationNode) (conn : ConnId) : Journey :=
  match n.far conn with
  | some node =>
    { node
      request := { targetName := s.request.targetName, intent := s.request.intent, caller := none }
      tunnels := s.tunnels + 1 }
  | none => { s with request.phase := .replied .forwarded, tunnels := s.tunnels + 1 }

/-- The next step of `maybe_forward_or_404` at the node; `built` is the outcome of
`build_peer_forward_request`. -/
def step (fed : Federation) (s : Journey) (built : Bool) : Option Journey :=
  fed[s.node]?.bind fun n =>
    (Gateway.maybeForwardOr404 n.name { acceptors := n.acceptors } 0 s.request built).bind fun g =>
      match g.sent with
      | [] => (g.requests.get? 0).map fun request => { s with request }
      | sent :: _ => some (s.cross n sent.conn)

def machine (fed : Federation) (start : Journey) : Machine Journey Bool where
  init := start
  step := step fed

end Journey

/-- The node to which `run_stream` sends its request for the topics of a peer, if it does: the peer
branch of the subscribe in `handle_socket`. -/
def FederationNode.streamsTo (n : FederationNode) (peer : String) : Option ConnId :=
  if peer = n.name ∨ peer = "" then none
  else if (n.acceptors.readContext peer).any fun context =>
      !context.admitted.negotiatedCapabilities.contains .streamSubscribeCapability then none
  else n.acceptors.sender peer

/-- The router of the server `core` forwards some request of a client to `targetName` with this
intent. -/
def Forwardable {ρ : Type} (ops : RouterOps ρ) (core targetName : String)
    (intent : Option ProxyIntent) : Prop :=
  ∃ req call, ops.serve core req = .forwarded call ∧ call.targetName = targetName ∧
    call.intent ops.formParse = intent

/-- How a request that may be forwarded comes to a federation. -/
inductive Starts {ρ : Type} (ops : RouterOps ρ) (fed : Federation) : Journey → Prop
  /-- A client sends it to some node. -/
  | client (node : ℕ) (n : FederationNode) (hn : fed[node]? = some n) (targetName : String)
      (intent : Option ProxyIntent) (hasks : Forwardable ops n.name targetName intent)
      (caller : Option AdmittedPeerConnection) :
      Starts ops fed { node, request := { targetName, intent, caller } }
  /-- A client's subscription to a topic of `peer` makes a node send it over a tunnel. -/
  | stream (n : FederationNode) (hn : n ∈ fed) (peer : String) (conn : ConnId) (node : ℕ)
      (hconn : n.streamsTo peer = some conn) (hfar : n.far conn = some node) :
      Starts ops fed {
        node
        request := { targetName := peer, intent := some .subscribe, caller := none }
        tunnels := 1 }

end Boardwalk
