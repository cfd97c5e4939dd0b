import Boardwalk.Http.Forward
import Boardwalk.Http.Headers

/-!
# Forwarded requests

`build_peer_forward_request` of `http/routes.rs`, which copies what may be copied of an inbound
request and stamps the gateway's own headers onto it, and `caller_provenance`, which reads those
headers at the other end of the tunnel.
-/

namespace Boardwalk

/-- `http::header::HOST`. -/
def HOST : String := "host"

/-- `http::header::CONNECTION`. -/
def CONNECTION : String := "connection"

def RENDER_CAPABILITIES_HEADER : String := "boardwalk-render-capabilities"

def CALLER_PEER_ID_HEADER : String := "boardwalk-caller-peer-id"

def CALLER_ROUTE_HEADER : String := "boardwalk-caller-route"

def CALLER_TOKEN_ID_HEADER : String := "boardwalk-caller-token-id"

def CALLER_NODE_ID_HEADER : String := "boardwalk-caller-node-id"

def CALLER_NODE_NAME_HEADER : String := "boardwalk-caller-node-name"

def CALLER_CAPABILITIES_HEADER : String := "boardwalk-caller-capabilities"

def CALLER_CONNECTION_ID_HEADER : String := "boardwalk-caller-connection-id"

/-! ### Sanitizing -/

/-- `connection_header_tokens`: the names that the `Connection` values nominate. -/
def connectionHeaderTokens (headers : HeaderMap) : List String :=
  (((headers.filter fun h => h.1 = CONNECTION).filterMap fun h => h.2.toStr).flatMap
    (Str.split ',')).map (fun token => Str.toAsciiLowercase (Str.trim token))
    |>.filter fun token => !token.isEmpty

/-- The names that `should_forward_header` lists. -/
def unforwardedNames : List String :=
  ["authorization", "cookie", "connection", "forwarded", "keep-alive", "proxy-authenticate",
    "proxy-authorization", "proxy-connection", "te", "trailer", "transfer-encoding", "upgrade"]

/-- The prefixes that `should_forward_header` lists. -/
def unforwardedPrefixes : List String :=
  ["proxy-", "x-forwarded-", "x-boardwalk-", "boardwalk-", "sec-websocket-"]

/-- `should_forward_header`. -/
def shouldForwardHeader (name : String) (connectionHeaders : List String) : Bool :=
  if name = HOST then false
  else
    let name := Str.toAsciiLowercase name
    if name ∈ connectionHeaders then false
    else if name ∈ unforwardedNames then false
    else if unforwardedPrefixes.any (Str.startsWith name) then false
    else true

/-- `sanitize_forward_headers`. -/
def sanitizeForwardHeaders (headers : HeaderMap) (connectionHeaders : List String) : HeaderMap :=
  headers.filter fun h => shouldForwardHeader h.1 connectionHeaders

/-! ### Building the request -/

/-- `http::Uri`, by what its accessors return. -/
structure Uri where
  schemeStr : Option String
  pathAndQuery : Option String
  path : String
  deriving Repr, DecidableEq

structure ForwardedExternalBases where
  host : String
  scheme : String
  http : String
  ws : String
  deriving Repr, DecidableEq

/-- `forwarded_external_bases`. -/
def forwardedExternalBases (headers : HeaderMap) (uri : Uri) (targetName : String) :
    ForwardedExternalBases :=
  let host := ((headers.get HOST).bind HeaderValue.toStr).getD "localhost"
  let scheme := uri.schemeStr.getD "http"
  let wsScheme := if scheme = "https" then "wss" else "ws"
  let peer := Str.percentEncode targetName
  { host := host
    scheme := scheme
    http := scheme ++ "://" ++ host ++ "/servers/" ++ peer ++ "/"
    ws := wsScheme ++ "://" ++ host ++ "/servers/" ++ peer ++ "/" }

/-- `http::Error`: the builder keeps the first one. -/
inductive HttpError where
  | invalidUri
  | invalidHeaderValue
  | maxSizeReached
  deriving Repr, DecidableEq

/-- `Builder::header` with a header value: the map appends. -/
def appendHeader (ops : HttpOps) (headers : HeaderMap) (header : String × HeaderValue) :
    Except HttpError HeaderMap :=
  if ops.hasRoom headers header.1 then .ok (headers ++ [header]) else .error .maxSizeReached

/-- `Builder::header` with a text. -/
def stampHeader (ops : HttpOps) (headers : HeaderMap) (header : String × String) :
    Except HttpError HeaderMap :=
  match HeaderValue.fromStr header.2 with
  | none => .error .invalidHeaderValue
  | some value => appendHeader ops headers (header.1, value)

/-- The headers that attest the caller, in the order they are stamped. -/
def callerHeaders (caller : AdmittedPeerConnection) : List (String × String) :=
  [(CALLER_PEER_ID_HEADER, caller.peerId),
    (CALLER_ROUTE_HEADER, caller.routeName),
    (CALLER_CAPABILITIES_HEADER, caller.negotiatedCapabilities.toText),
    (CALLER_CONNECTION_ID_HEADER, caller.connectionId.toText)] ++
  (caller.tokenId.map fun tokenId => (CALLER_TOKEN_ID_HEADER, tokenId)).toList ++
  (caller.nodeId.map fun nodeId => (CALLER_NODE_ID_HEADER, nodeId)).toList ++
  (caller.displayName.map fun nodeName => (CALLER_NODE_NAME_HEADER, nodeName)).toList

/-- The gateway's headers, in the order they are stamped. -/
def gatewayHeaders (attestation : ForwardAttestation) (bases : ForwardedExternalBases)
    (correlationId : Uuid) : List (String × String) :=
  [("x-forwarded-host", bases.host),
    ("x-forwarded-proto", bases.scheme),
    ("boardwalk-external-base", bases.http),
    ("boardwalk-external-ws-base", bases.ws),
    ("boardwalk-forwarded-by", attestation.gatewayName),
    (RENDER_CAPABILITIES_HEADER, attestation.renderCapabilities.toText),
    ("boardwalk-correlation-id", correlationId.toText)] ++
  (attestation.caller.map callerHeaders).getD []

/-- `build_peer_forward_request`; `correlationId` is the fresh id that it draws. -/
def buildPeerForwardRequest {β : Type} (ops : HttpOps) (attestation : ForwardAttestation)
    (targetName method : String) (uri : Uri) (headers : HeaderMap) (body : β)
    (correlationId : Uuid) : Except HttpError (HttpRequest β) := do
  let pathAndQuery := uri.pathAndQuery.getD uri.path
  let targetUri :=
    "http://" ++ Str.percentEncode targetName ++ ".peer.boardwalk.invalid" ++ pathAndQuery
  if !ops.parsesUri targetUri then .error .invalidUri
  else
    let connectionHeaders := connectionHeaderTokens headers
    let copied ← (sanitizeForwardHeaders headers connectionHeaders).foldlM (appendHeader ops) []
    let bases := forwardedExternalBases headers uri targetName
    let stamped ← (gatewayHeaders attestation bases correlationId).foldlM (stampHeader ops) copied
    return { method := method, uri := targetUri, headers := stamped, body := body }

/-! ### Reading the attestation -/

/-- The identity of an admitted caller, as transitions see it. -/
structure AdmittedPeer where
  routeName : String
  peerId : String
  tokenId : Option String
  nodeId : Option String
  displayName : Option String
  capabilities : List PeerCapability
  connectionId : String
  deriving Repr, DecidableEq

/-- Where an invocation came from.  The default is a local one. -/
structure CallerProvenance where
  forwardedBy : Option String := none
  peer : Option AdmittedPeer := none
  deriving Repr, DecidableEq

/-- `CallerProvenance::forwarded`. -/
def CallerProvenance.forwarded (gateway : String) (peer : Option AdmittedPeer) :
    CallerProvenance :=
  ⟨some gateway, peer⟩

/-- The `header` closure of `caller_provenance`. -/
def headerText (headers : HeaderMap) (name : String) : Option String :=
  (headers.get name).bind HeaderValue.toStr

/-- The attested caller: an unparsable capability list makes it anonymous. -/
def attestedCaller (headers : HeaderMap) : Option AdmittedPeer :=
  let header := headerText headers
  (header CALLER_PEER_ID_HEADER).bind fun peerId =>
    let capabilities : Option (List PeerCapability) :=
      match header CALLER_CAPABILITIES_HEADER with
      | some raw =>
        match PeerCapabilities.parseList raw with
        | .ok caps => some caps.toCapabilities
        | .error _ => none
      | none => some []
    capabilities.map fun capabilities =>
      { routeName := (header CALLER_ROUTE_HEADER).getD ""
        peerId := peerId
        tokenId := header CALLER_TOKEN_ID_HEADER
        nodeId := header CALLER_NODE_ID_HEADER
        displayName := header CALLER_NODE_NAME_HEADER
        capabilities := capabilities
        connectionId := (header CALLER_CONNECTION_ID_HEADER).getD "" }

/-- `caller_provenance`; `tunnelLeg` is the presence of the `TunnelLeg` extension. -/
def callerProvenance (tunnelLeg : Bool) (headers : HeaderMap) : CallerProvenance :=
  if !tunnelLeg then {}
  else
    match headerText headers "boardwalk-forwarded-by" with
    | none => {}
    | some gateway => .forwarded gateway (attestedCaller headers)

end Boardwalk
