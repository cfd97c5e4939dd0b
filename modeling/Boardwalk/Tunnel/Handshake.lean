import Boardwalk.Http.Admission
import Boardwalk.Http.Routes
import Boardwalk.Lib.Ascii

/-!
# The handshake of a tunnel

The two ends of an upgrade: `dial_initiator` of `tunnel.rs` with what `PeerClient` gives it, and
`peers_upgrade` of `http/routes.rs` with `build_upgrade_response`.  Resolving the URL, the proxy, TLS
and the byte stream are not here; the connection carries the request to the gateway and the answer
back, each value without the blanks around it.

At the end stands `no_proxy_matches` of `tunnel.rs`, by which a dial passes the proxy by: the entries
of `NO_PROXY` name hosts that are dialed directly, each with its subdomains.  The source compares the
end of the host by its bytes; no result is a panic of an index or of a slice.
-/

namespace Boardwalk

/-- `tunnel::SUBPROTOCOL`. -/
def SUBPROTOCOL : String := "boardwalk-peer/3"

/-- `http::header::UPGRADE`. -/
def UPGRADE : String := "upgrade"

def SEC_WEBSOCKET_KEY : String := "sec-websocket-key"

def SEC_WEBSOCKET_VERSION : String := "sec-websocket-version"

def SEC_WEBSOCKET_PROTOCOL : String := "sec-websocket-protocol"

def SEC_WEBSOCKET_ACCEPT : String := "sec-websocket-accept"

/-! ### Values on the connection -/

/-- The blanks that a header value does not keep at its ends. -/
def HeaderValue.isBlank (b : UInt8) : Bool := b == 32 || b == 9

/-- A value as the other end parses it. -/
def HeaderValue.received (v : HeaderValue) : HeaderValue where
  bytes := (v.bytes.dropWhile isBlank).rdropWhile isBlank
  valid := by
    rw [List.all_eq_true]
    intro b hb
    have hb' := (List.dropWhile_sublist isBlank).subset ((List.rdropWhile_prefix isBlank _).subset hb)
    exact List.all_eq_true.mp v.valid b hb'

/-- Headers as the other end parses them. -/
def HeaderMap.received (headers : HeaderMap) : HeaderMap :=
  headers.map fun h => (h.1, h.2.received)

/-! ### The initiator -/

/-- `PeerLinkConfig`, less the gateway's URL and the proxy. -/
structure PeerLinkConfig where
  routeName : RouteName
  tokenId : Option String
  tokenSecret : Option String
  localNodeId : Option String
  localNodeName : Option String
  requestedCapabilities : PeerCapabilities
  deriving DecidableEq

/-- `PeerClient`, by what its handshake reads. -/
structure PeerClient where
  localName : String
  admission : Option PeerLinkConfig
  deriving DecidableEq

/-- `PeerClient::from_link`. -/
def PeerClient.fromLink (link : PeerLinkConfig) : PeerClient := ⟨link.routeName.asStr, some link⟩

structure InitiatorAdmission where
  tokenId : String
  tokenSecret : String
  nodeId : String
  nodeName : Option String
  requestedCapabilities : String
  deriving Repr, DecidableEq

/-- The admission that `attempt_registered` presents: all of it or nothing. -/
def PeerClient.initiatorAdmission (client : PeerClient) : Option InitiatorAdmission := do
  let link ← client.admission
  let tokenId ← link.tokenId
  let tokenSecret ← link.tokenSecret
  let nodeId ← link.localNodeId
  return {
    tokenId := tokenId
    tokenSecret := tokenSecret
    nodeId := nodeId
    nodeName := link.localNodeName
    requestedCapabilities := link.requestedCapabilities.toText }

/-- The headers of an admission, in the order they are added. -/
def InitiatorAdmission.headers (admission : InitiatorAdmission) : List (String × String) :=
  [(PEER_TOKEN_ID_HEADER, admission.tokenId),
    (AUTHORIZATION, "Bearer " ++ admission.tokenSecret),
    (PEER_NODE_ID_HEADER, admission.nodeId),
    (PEER_CAPABILITIES_HEADER, admission.requestedCapabilities)] ++
  (admission.nodeName.map fun nodeName => (PEER_NODE_NAME_HEADER, nodeName)).toList

/-- `TunnelError`: the variants that the handshake raises. -/
inductive TunnelError where
  | upgrade (message : String)
  /-- `Response`, of the message `expected 101, got …`. -/
  | response (status : ℕ)
  deriving Repr, DecidableEq

/-- The `Display` text of the handshake's own errors. -/
def TunnelError.upgradeText (message : String) : String := "websocket upgrade: " ++ message

/-- What the two ends take from their libraries. -/
structure HandshakeOps extends HttpOps where
  /-- `ws_accept_key`: SHA-1 and base64. -/
  wsAcceptKey : String → String
  /-- How `Path` decodes a parameter. -/
  decode : String → Option String
  formParse : FormParse
  /-- How serde reads a `Uuid`. -/
  parseUuid : String → Option Uuid
  /-- The `Display` text of an `http::Error`. -/
  displayError : HttpError → String

/-- The headers of a dial, in the order they are added. -/
def dialHeaders (authority key : String) (admission : Option InitiatorAdmission) :
    List (String × String) :=
  [(HOST, authority),
    (CONNECTION, "Upgrade"),
    (UPGRADE, "websocket"),
    (SEC_WEBSOCKET_KEY, key),
    (SEC_WEBSOCKET_VERSION, "13"),
    (SEC_WEBSOCKET_PROTOCOL, SUBPROTOCOL)] ++
  (admission.map InitiatorAdmission.headers).getD []

/-- The target of a dial. -/
def dialPath (localName : String) (connectionId : Uuid) : String :=
  "/peers/" ++ Str.percentEncode localName ++ "?connectionId=" ++ connectionId.toText

/-- The request of `dial_initiator`. -/
def dialRequest (ops : HandshakeOps) (client : PeerClient) (connectionId : Uuid)
    (authority key : String) : Except HttpError (HttpRequest Unit) := do
  let uri := dialPath client.localName connectionId
  if !ops.parsesUri uri then .error .invalidUri
  else
    let headers ← (dialHeaders authority key client.initiatorAdmission).foldlM
      (stampHeader ops.toHttpOps) []
    return { method := "POST", uri := uri, headers := headers, body := () }

/-! ### The acceptor -/

/-- `build_upgrade_response`: the headers of the 101, or the message of the `Upgrade` error. -/
def buildUpgradeResponse (ops : HandshakeOps) (headers : HeaderMap) : Except String HeaderMap :=
  match headerText headers SEC_WEBSOCKET_KEY with
  | none => .error "missing Sec-WebSocket-Key"
  | some key =>
    if headerText headers SEC_WEBSOCKET_VERSION ≠ some "13" then
      .error "missing or wrong Sec-WebSocket-Version"
    else
      let offered := (headerText headers SEC_WEBSOCKET_PROTOCOL).getD ""
      if !(Str.split ',' offered).any fun tok => Str.trim tok == SUBPROTOCOL then
        .error ("client did not offer `" ++ SUBPROTOCOL ++ "` subprotocol; got `" ++ offered ++ "`")
      else
        match [(CONNECTION, "upgrade"), (UPGRADE, "websocket"),
            (SEC_WEBSOCKET_ACCEPT, ops.wsAcceptKey key),
            (SEC_WEBSOCKET_PROTOCOL, SUBPROTOCOL)].foldlM (stampHeader ops.toHttpOps) [] with
        | .ok response => .ok response
        | .error err => .error ("build response: " ++ ops.displayError err)

/-- The state that `peers_upgrade` reads. -/
structure UpgradeState where
  /-- There is a `peer_handler`. -/
  peering : Bool
  admissions : List PeerAdmissionConfig
  unauthenticated : Option UnauthenticatedPeerPolicy
  /-- `has_active_peer` of the `peer_senders`, where there are any. -/
  hasActivePeer : String → Bool

/-- The answer to an upgrade request. -/
inductive UpgradeAnswer where
  /-- No route takes the request, or an extractor rejects it. -/
  | rejected (status : ℕ)
  | refused (status : ℕ) (body : String)
  /-- The 101, and the connection that the handler is spawned with. -/
  | switched (headers : HeaderMap) (admitted : AdmittedPeerConnection)

/-- The connection that the handler gets. -/
def UpgradeAnswer.admitted? : UpgradeAnswer → Option AdmittedPeerConnection
  | .switched _ admitted => some admitted
  | _ => none

/-- `peers_upgrade`. -/
def peersUpgrade (ops : HandshakeOps) (gateway : UpgradeState) (peerName : String)
    (connectionId : Option Uuid) (headers : HeaderMap) : UpgradeAnswer :=
  match connectionId with
  | none => .refused 400 "missing connectionId"
  | some connectionId =>
    if !gateway.peering then .refused 503 "peering disabled"
    else
      match admitPeerConnection peerName connectionId headers gateway.admissions
          gateway.unauthenticated with
      | .error deny => .refused deny.status deny.reason
      | .ok admitted =>
        if gateway.hasActivePeer peerName then
          .refused 409 ("peer `" ++ peerName ++ "` is already connected")
        else
          match buildUpgradeResponse ops headers with
          | .error message => .refused 400 ("upgrade: " ++ TunnelError.upgradeText message)
          | .ok response => .switched response admitted

/-- The extractor `Query<PeerQuery>`: outside is the rejection, inside a parameter that is absent. -/
def peerQuery (ops : HandshakeOps) (query : Option String) : Option (Option Uuid) :=
  match queryParam (ops.formParse (query.getD "")) "connectionId" with
  | none => none
  | some none => some none
  | some (some text) => (ops.parseUuid text).map some

/-- The router, as far as it leads to `peers_upgrade`. -/
def UpgradeState.receive (ops : HandshakeOps) (gateway : UpgradeState) (req : HttpRequest Unit) :
    UpgradeAnswer :=
  match routed req.method (TopicPattern.splitSuffix req.uri).1 with
  | some (.peersUpgrade, [param]) =>
    match ops.decode param, peerQuery ops (hrefQuery req.uri) with
    | some peerName, some connectionId =>
      peersUpgrade ops gateway peerName connectionId req.headers.received
    | _, _ => .rejected 400
  | _ => .rejected 404

/-! ### The exchange -/

/-- What `dial_initiator` makes of the answer. -/
def checkAnswer (ops : HandshakeOps) (key : String) : UpgradeAnswer → Except TunnelError Unit
  | .rejected status => .error (.response status)
  | .refused status _ => .error (.response status)
  | .switched headers _ =>
    match headers.received.get SEC_WEBSOCKET_ACCEPT with
    | some got =>
      if got.toStr ≠ some (ops.wsAcceptKey key) then
        .error (.upgrade "invalid Sec-WebSocket-Accept")
      else .ok ()
    | none => .error (.upgrade "missing Sec-WebSocket-Accept")

/-- The handshake: what the gateway's handler gets, and what `dial_initiator` returns. -/
def handshake (ops : HandshakeOps) (gateway : UpgradeState) (client : PeerClient) (connectionId : Uuid)
    (authority key : String) : Option AdmittedPeerConnection × Except TunnelError Unit :=
  match dialRequest ops client connectionId authority key with
  | .error err => (none, .error (.upgrade ("build request: " ++ ops.displayError err)))
  | .ok req =>
    let answer := gateway.receive ops req
    (answer.admitted?, checkAnswer ops key answer)

/-! ### The bypass list of the proxy -/

namespace NoProxy

/-- An entry of the list, as the source cleans it. -/
def cleanEntry (entry : String) : String := Str.trimStartMatches '.' (Str.trim entry)

/-- The test of one entry. -/
def entryMatches (host entry : String) : Option Bool :=
  if entry = "*" then some true
  else if Str.eqIgnoreAsciiCase host entry then some true
  else if entry.utf8ByteSize < host.utf8ByteSize then do
    let before ← (Str.asBytes host)[host.utf8ByteSize - entry.utf8ByteSize - 1]?
    -- `&&`: the host is sliced only after a dot
    if before = 46 then
      let tail ← Str.sliceFrom host (host.utf8ByteSize - entry.utf8ByteSize)
      return Str.eqIgnoreAsciiCase tail entry
    else return false
  else some false

/-- The loop over the entries, which ends at the first match. -/
def anyEntry (host : String) : List String → Option Bool
  | [] => some false
  | entry :: entries => do
    if ← entryMatches host entry then return true else anyEntry host entries

end NoProxy

/-- `no_proxy_matches`. -/
def noProxyMatches (list host : String) : Option Bool :=
  NoProxy.anyEntry host
    (((Str.split ',' list).map NoProxy.cleanEntry).filter fun entry => !entry.isEmpty)

end Boardwalk
