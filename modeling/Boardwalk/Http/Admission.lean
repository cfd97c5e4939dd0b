import Boardwalk.Http.Ingress

/-!
# Admission of peer connections

`admit_peer_connection` of `http/routes.rs`: the decision that `POST /peers/{name}` takes on a
dialing peer before the upgrade.  A denial is the record that is logged; the answer has its status
and its reason.
-/

namespace Boardwalk

/-- `PEER_NODE_ID_HEADER`. -/
def PEER_NODE_ID_HEADER : String := "boardwalk-node-id"

/-- `PEER_NODE_NAME_HEADER`. -/
def PEER_NODE_NAME_HEADER : String := "boardwalk-node-name"

/-- `PEER_CAPABILITIES_HEADER`. -/
def PEER_CAPABILITIES_HEADER : String := "boardwalk-peer-capabilities"

/-- The opt-in for peers without a token. -/
structure UnauthenticatedPeerPolicy where
  allowedCapabilities : PeerCapabilities
  deriving Repr, DecidableEq

/-- `UnauthenticatedPeerPolicy::local_development`. -/
def UnauthenticatedPeerPolicy.localDevelopment : UnauthenticatedPeerPolicy := ⟨.all⟩

/-- `required_header`. -/
def requiredHeader (headers : HeaderMap) (name : String) : Except String String :=
  match ((headers.get name).bind HeaderValue.toStr).filter
      fun value => !(Str.trim value).isEmpty with
  | some value => .ok value
  | none => .error ("missing " ++ name)

/-- A denial of the handshake. -/
def denyAdmission (peerName : String) (connectionId : Uuid) (status : ℕ) (reason : String)
    (tokenId nodeId : Option String) : AdmissionDeny where
  kind := "admission"
  status := status
  reason := reason
  route := some peerName
  tokenId := tokenId
  nodeId := nodeId
  requested := none
  allowed := none
  connectionId := some connectionId

/-- What is left of `admit_peer_connection` once a configuration is found. -/
def negotiate (peerName : String) (connectionId : Uuid) (headers : HeaderMap) (tokenId : String)
    (config : PeerAdmissionConfig) : Except AdmissionDeny AdmittedPeerConnection :=
  let deny := denyAdmission peerName connectionId
  match requiredHeader headers PEER_NODE_ID_HEADER with
  | .error message => .error (deny 400 message (some tokenId) none)
  | .ok nodeId =>
    if config.expectedNodeId.any fun expected => expected != nodeId then
      .error (deny 403 "peer node id mismatch" (some tokenId) (some nodeId))
    else
      match requiredHeader headers PEER_CAPABILITIES_HEADER with
      | .error message => .error (deny 400 message (some tokenId) none)
      | .ok raw =>
        match PeerCapabilities.parseList raw with
        | .error err => .error (deny 400 err.toText (some tokenId) none)
        | .ok requested =>
          let negotiated := requested.intersection config.allowedCapabilities
          if negotiated.isEmpty then
            -- the one denial that enumerates capabilities
            .error { deny 403 "peer capabilities are not allowed" (some tokenId) none with
              requested := some requested.toText
              allowed := some config.allowedCapabilities.toText }
          else
            .ok (.tokenBound peerName tokenId connectionId nodeId
              (optionalHeader headers PEER_NODE_NAME_HEADER) config.allowedCapabilities negotiated)

/-- `admit_peer_connection`. -/
def admitPeerConnection (peerName : String) (connectionId : Uuid) (headers : HeaderMap)
    (admissions : List PeerAdmissionConfig) (unauthenticated : Option UnauthenticatedPeerPolicy) :
    Except AdmissionDeny AdmittedPeerConnection :=
  let deny := denyAdmission peerName connectionId
  if admissions.isEmpty then
    match unauthenticated with
    | none => .error (deny 403 "peer admission is not configured" none none)
    | some policy => .ok (.unauthenticated peerName connectionId policy.allowedCapabilities)
  else
    match requiredHeader headers PEER_TOKEN_ID_HEADER with
    | .error _ => .error (deny 401 "missing peer token id" none none)
    | .ok tokenId =>
      match bearerToken headers with
      | none => .error (deny 401 "missing bearer token" (some tokenId) none)
      | some bearer =>
        match verifiedAdmissions admissions tokenId bearer with
        | .error reason => .error (deny 401 reason (some tokenId) none)
        | .ok verified =>
          match verified.find? fun config => config.allowedRouteName.asStr == peerName with
          | none => .error (deny 403 "peer token is not valid for route" (some tokenId) none)
          | some config => negotiate peerName connectionId headers tokenId config

end Boardwalk
