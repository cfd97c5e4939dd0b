import Boardwalk.Http.Headers
import Boardwalk.Peer.Acceptor
import Boardwalk.Peer.Admission

/-!
# Caller ingress

`resolve_caller_ingress` of `http/routes.rs`: which admitted peer a request to a gateway comes from.
It reads the contexts and the senders of the acceptors once for every verified admission, and the
acceptors go on between two reads, so the model takes a view of the acceptors for each read.
-/

namespace Boardwalk

/-- `PEER_TOKEN_ID_HEADER`. -/
def PEER_TOKEN_ID_HEADER : String := "boardwalk-peer-token-id"

/-- What one read of `dyn PeerSenders` sees. -/
structure PeerSenders where
  peerContext : String → Option AdmittedPeerConnection
  sender : String → Option ConnId

/-- The view that `PeerAcceptors` gives. -/
def PeerAcceptors.toPeerSenders (s : PeerAcceptors) : PeerSenders := ⟨s.peerContext, s.sender⟩

/-- One deny decision; the answer has the status and the reason. -/
structure AdmissionDeny where
  kind : String
  status : ℕ
  reason : String
  route : Option String
  tokenId : Option String
  nodeId : Option String
  requested : Option String
  allowed : Option String
  connectionId : Option Uuid
  deriving Repr, DecidableEq

/-- The loop over the verified admissions, with the contexts of the live tunnels under the token id
and the connection id of the last tunnel under another one.  The `k`-th read sees `senders k`. -/
def liveContexts (senders : ℕ → PeerSenders) (tokenId : String) :
    ℕ → List PeerAdmissionConfig → List AdmittedPeerConnection × Option Uuid →
      List AdmittedPeerConnection × Option Uuid
  | _, [], found => found
  | k, config :: rest, (live, mismatchedConnection) =>
    let route := config.allowedRouteName.asStr
    liveContexts senders tokenId (k + 2) rest <|
      match (senders k).peerContext route with
      | none => (live, mismatchedConnection)
      | some context =>
        if context.tokenId ≠ some tokenId then (live, some context.connectionId)
        else if ((senders (k + 1)).sender route).isSome then
          (live ++ [context], mismatchedConnection)
        else (live, mismatchedConnection)

/-- An ingress denial: it never enumerates capabilities. -/
def refuseIngress (tokenId : String) (status : ℕ) (reason : String) (route : Option String)
    (connectionId : Option Uuid) : AdmissionDeny where
  kind := "ingress"
  status := status
  reason := reason
  route := route
  tokenId := some tokenId
  nodeId := none
  requested := none
  allowed := none
  connectionId := connectionId

/-- `resolve_caller_ingress`. -/
def resolveCallerIngress (headers : HeaderMap) (admissions : List PeerAdmissionConfig)
    (senders : ℕ → PeerSenders) : Except AdmissionDeny (Option AdmittedPeerConnection) :=
  match optionalHeader headers PEER_TOKEN_ID_HEADER with
  -- no token id: the caller is anonymous
  | none => .ok none
  | some tokenId =>
    let refuse := refuseIngress tokenId
    if admissions.isEmpty then
      .error (refuse 403 "peer admission is not configured" none none)
    else
      match bearerToken headers with
      | none => .error (refuse 401 "missing bearer token" none none)
      | some bearer =>
        -- every admission whose token and secret match
        match verifiedAdmissions admissions tokenId bearer with
        | .error reason => .error (refuse 401 reason none none)
        | .ok verified =>
          let (live, mismatchedConnection) := liveContexts senders tokenId 0 verified ([], none)
          let verifiedRoute :=
            match verified with
            | [config] => some config.allowedRouteName.asStr
            | _ => none
          -- exactly one of them has to have a connected peer
          match live with
          | [] =>
            .error (refuse 403 "caller peer is not connected" verifiedRoute mismatchedConnection)
          | [context] => .ok (some context)
          | _ => .error (refuse 403 "ambiguous caller admission" none none)

end Boardwalk
