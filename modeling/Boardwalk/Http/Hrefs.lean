import Boardwalk.Http.ForwardRequest
import Boardwalk.Server.Identity

/-!
# Links and their bases

The stream links of `render_resource` in `http/render.rs`: each carries its topic as the query
parameter `topic`, encoded by the URL builder and decoded by the events routes.  And `build_hrefs`
and `render_policy_from_headers` of `http/routes.rs`: what a read handler takes from the request for
the links that it renders.  A gateway that forwards a request states the bases and the capabilities
of its own response in headers (`gatewayHeaders`).
-/

namespace Boardwalk

/-! ### Links to streams -/

/-- The server name of `Hrefs`, which its links are built from. -/
structure Hrefs where
  server : String
  deriving Repr, DecidableEq

/-- `build_hrefs`, which every handler calls with `core.name`. -/
def buildHrefs (s : Built) : Hrefs := ⟨s.coreName⟩

/-- The topic of `Hrefs::stream_url`. -/
def Hrefs.streamTopic (h : Hrefs) (ty id stream : String) : String :=
  h.server ++ "/" ++ ty ++ "/" ++ id ++ "/" ++ stream

structure RenderPolicy where
  capabilities : PeerCapabilities
  deriving Repr, DecidableEq

/-- `RenderPolicy::can_stream`. -/
def RenderPolicy.canStream (policy : RenderPolicy) : Bool :=
  policy.capabilities.contains .streamSubscribeCapability

/-! ### Bases and policies -/

/-- What `url::Url` does and the source does not: which texts are URLs, and how the scheme of one is
read and set.  A refused scheme leaves the URL as it is. -/
structure UrlOps (υ : Type) where
  parse : String → Option υ
  scheme : υ → String
  setScheme : υ → String → υ

namespace Render

/-- `Hrefs`, with the bases of its links. -/
structure Hrefs (υ : Type) where
  http : υ
  ws : υ
  server : String
  deriving Repr, DecidableEq

variable {υ : Type}

/-- A header with the text of a URL. -/
def headerUrl (ops : UrlOps υ) (headers : HeaderMap) (name : String) : Option υ :=
  (headerText headers name).bind ops.parse

/-- `build_hrefs`; no result is a panic, on a host that is none of a URL. -/
def buildHrefs (ops : UrlOps υ) (headers : HeaderMap) (uri : Uri) (server : String) :
    Option (Hrefs υ) :=
  match headerUrl ops headers "boardwalk-external-base" with
  | some httpBase =>
    let wsBase := (headerUrl ops headers "boardwalk-external-ws-base").getD
      (ops.setScheme httpBase (if ops.scheme httpBase = "https" then "wss" else "ws"))
    some { http := httpBase, ws := wsBase, server := server }
  | none => do
    let host := (headerText headers HOST).getD "localhost"
    let scheme := ((headerText headers "x-forwarded-proto").or uri.schemeStr).getD "http"
    let httpBase ← ops.parse (scheme ++ "://" ++ host ++ "/")
    let wsScheme := if scheme = "https" then "wss" else "ws"
    let wsBase ← ops.parse (wsScheme ++ "://" ++ host ++ "/")
    return { http := httpBase, ws := wsBase, server := server }

end Render

/-- `RenderPolicy::local`. -/
def RenderPolicy.local : RenderPolicy := ⟨PeerCapabilities.all⟩

/-- `render_policy_from_headers`. -/
def renderPolicyFromHeaders (headers : HeaderMap) : RenderPolicy :=
  match headers.get RENDER_CAPABILITIES_HEADER with
  | none => .local
  | some value =>
    match value.toStr with
    | none => ⟨PeerCapabilities.empty⟩
    | some value =>
      match PeerCapabilities.parseList value with
      | .ok capabilities => ⟨capabilities⟩
      | .error _ => ⟨PeerCapabilities.empty⟩

/-- A request as a handler gets it; `tunnelLeg` is the presence of the `TunnelLeg` extension. -/
structure InboundRequest where
  tunnelLeg : Bool
  headers : HeaderMap
  uri : Uri
  deriving DecidableEq

end Boardwalk
