import Boardwalk.Http.EventsRequest
import Boardwalk.Http.Links
import Boardwalk.Http.Targets
import Boardwalk.Lib.Ascii

/-!
# Routes and intents

The router of `http/routes.rs` (`router_with`) with what each handler makes of a request: whom it
forwards it to, or what it asks of the server's own `Core`.  `ProxyIntent::from_parts` classifies
the same request by reading its path and its query again.

The renderers, the registration of resources, the WebSocket and the tunnels are not here.
-/

namespace Boardwalk

/-! ### Requests -/

/-- `Uri::query`. -/
def Uri.query (uri : Uri) : Option String := uri.pathAndQuery.bind hrefQuery

/-- A request as the router gets it; `body` is what the handler's extractor reads of it. -/
structure ServerRequest where
  method : String
  uri : Uri
  headers : HeaderMap
  body : List UInt8

/-- The arguments of `maybe_forward_or_404` that say what is forwarded. -/
structure ForwardCall where
  targetName : String
  method : String
  uri : Uri
  deriving Repr, DecidableEq

/-- The request as it arrives at the target: its method, its path and its query are the ones of the
call (`build_peer_forward_request`). -/
def ForwardCall.arrive (call : ForwardCall) (headers : HeaderMap) (body : List UInt8) :
    ServerRequest where
  method := call.method
  uri := { call.uri with schemeStr := some "http" }
  headers := headers
  body := body

/-! ### `ProxyIntent` -/

/-- `form_urlencoded::parse`. -/
abbrev FormParse := String → List (String × String)

/-- `has_query_param`. -/
def hasQueryParam (formParse : FormParse) (query : Option String) (key : String) : Bool :=
  query.any fun query => (formParse query).any fun kv => kv.1 == key

namespace ProxyIntent

variable (formParse : FormParse)

/-- `ProxyIntent::read_or_query`. -/
def readOrQuery (query : Option String) : ProxyIntent :=
  if hasQueryParam formParse query "ql" then .query else .read

/-- `ProxyIntent::list_or_query`. -/
def listOrQuery (query : Option String) : ProxyIntent :=
  if hasQueryParam formParse query "ql" then .query else .list

/-- `ProxyIntent::from_parts`. -/
def fromParts (method path : String) (query : Option String) : Option ProxyIntent :=
  match (Str.split '/' path).filter fun segment => !segment.isEmpty with
  | "servers" :: peer :: rest =>
    if peer.isEmpty then none
    else
      match method, rest with
      | "GET", [] => some (readOrQuery formParse query)
      | "GET", ["resources"] => some (listOrQuery formParse query)
      | "POST", ["resources"] => some .register
      | "GET", ["resources", resourceId] => if !resourceId.isEmpty then some .read else none
      | "POST", ["resources", resourceId, "transitions", transition] =>
        if !resourceId.isEmpty && !transition.isEmpty then some .invoke else none
      | "GET", ["meta"] => some .metadata
      | "GET", ["meta", _] => some .metadata
      | "GET", ["events"] => if hasQueryParam formParse query "topic" then some .subscribe else none
      | "POST", ["events", "unsubscribe"] => some .subscribe
      | "GET", ["peer-management"] => some .admin
      | _, _ => none
  | _ => none

end ProxyIntent

/-- The intent of a forwarded request. -/
def ForwardCall.intent (formParse : FormParse) (call : ForwardCall) : Option ProxyIntent :=
  ProxyIntent.fromParts formParse call.method call.uri.path call.uri.query

/-! ### The table of `router_with` -/

/-- The handlers, under the names of the source. -/
inductive Handler where
  | root
  | resourcesGet
  | resourcesPost
  | resourceGet
  | resourceTransitionPost
  | localMetaGet
  | localMetaTypeGet
  | serverGet
  | serverResourcesGet
  | serverResourceGet
  | serverResourceTransitionPost
  | metaGet
  | metaTypeGet
  | serverEventsStream
  | eventsUnsubscribe
  | eventsWs
  | peersUpgrade
  | initiatePeer
  deriving Repr, DecidableEq

/-- The methods of a route. -/
inductive MethodFilter where
  | get
  | post
  | any
  deriving Repr, DecidableEq

/-- A route for `GET` takes `HEAD` too. -/
def MethodFilter.takes : MethodFilter → String → Bool
  | get, method => method == "GET" || method == "HEAD"
  | post, method => method == "POST"
  | any, _ => true

/-- A segment of a route. -/
inductive RouteSegment where
  | text (text : String)
  | param
  deriving Repr, DecidableEq

structure Route where
  segments : List RouteSegment
  methods : MethodFilter
  handler : Handler
  deriving Repr, DecidableEq

/-- The parameters of a path that matches: a parameter is one segment, and not empty. -/
def matchSegments : List RouteSegment → List String → Option (List String)
  | [], [] => some []
  | .text text :: pattern, segment :: segments =>
    if segment = text then matchSegments pattern segments else none
  | .param :: pattern, segment :: segments =>
    if segment = "" then none else (matchSegments pattern segments).map (segment :: ·)
  | _, _ => none

/-- The routes of `router_with`; no two of them match one path and method. -/
def routes : List Route := [
  ⟨[.text ""], .get, .root⟩,
  ⟨[.text "resources"], .get, .resourcesGet⟩,
  ⟨[.text "resources"], .post, .resourcesPost⟩,
  ⟨[.text "resources", .param], .get, .resourceGet⟩,
  ⟨[.text "resources", .param, .text "transitions", .param], .post, .resourceTransitionPost⟩,
  ⟨[.text "meta"], .get, .localMetaGet⟩,
  ⟨[.text "meta", .param], .get, .localMetaTypeGet⟩,
  ⟨[.text "servers", .param], .get, .serverGet⟩,
  ⟨[.text "servers", .param, .text "resources"], .get, .serverResourcesGet⟩,
  ⟨[.text "servers", .param, .text "resources", .param], .get, .serverResourceGet⟩,
  ⟨[.text "servers", .param, .text "resources", .param, .text "transitions", .param], .post,
    .serverResourceTransitionPost⟩,
  ⟨[.text "servers", .param, .text "meta"], .get, .metaGet⟩,
  ⟨[.text "servers", .param, .text "meta", .param], .get, .metaTypeGet⟩,
  ⟨[.text "servers", .param, .text "events"], .get, .serverEventsStream⟩,
  ⟨[.text "servers", .param, .text "events", .text "unsubscribe"], .post, .eventsUnsubscribe⟩,
  ⟨[.text "events"], .get, .eventsWs⟩,
  ⟨[.text "peers", .param], .any, .peersUpgrade⟩,
  ⟨[.text "_initiate_peer", .param], .get, .initiatePeer⟩]

/-- The handler of a request, and the parameters as they stand in the path. -/
def routed (method path : String) : Option (Handler × List String) :=
  match Str.split '/' path with
  | "" :: segments =>
    routes.findSome? fun route =>
      if route.methods.takes method then
        (matchSegments route.segments segments).map fun params => (route.handler, params)
      else none
  | _ => none

/-! ### Handlers -/

/-- What the source takes from its libraries. -/
structure RouterOps (ρ : Type) where
  topics : TopicOps ρ
  http : HttpOps
  appendPair : AppendPair
  formParse : FormParse
  /-- How `Path` decodes a parameter. -/
  decode : String → Option String
  /-- `serde_json::from_slice`. -/
  fromSlice : List UInt8 → Option Json

/-- What a handler asks of `Core`. -/
inductive CoreCall (ρ : Type) where
  | queryResources (ql : String)
  | listResources
  | getResource (id : String)
  | runResourceTransition (id transition : String) (fields : List (String × Json))
  /-- With `replay`, the handler reads the replay cache too. -/
  | subscribeEvents (request : EventsRequest ρ)
  | actorSpecs

/-- What becomes of a request. -/
inductive Served (ρ : Type) where
  /-- No route takes it, or an extractor of the handler rejects it. -/
  | rejected
  /-- `maybe_forward_or_404` gets past the check for the server's own name. -/
  | forwarded (call : ForwardCall)
  /-- An answer of the server itself, after these calls. -/
  | answered (calls : List (CoreCall ρ))
  /-- An answer of a handler that is not modelled here. -/
  | other
  | panicked

structure QueryParams where
  ql : Option String
  server : Option String
  deriving Repr, DecidableEq

/-- What serde derives. -/
def QueryParams.ofPairs (pairs : List (String × String)) : Option QueryParams := do
  let ql ← queryParam pairs "ql"
  let server ← queryParam pairs "server"
  return { ql, server }

/-- `http::header::CONTENT_TYPE`. -/
def CONTENT_TYPE : String := "content-type"

/-- `is_json_content_type`. -/
def isJsonContentType (headers : HeaderMap) : Bool :=
  ((headers.get CONTENT_TYPE).bind HeaderValue.toStr).any fun value =>
    (Str.split ';' value).head?.any fun mime =>
      Str.eqIgnoreAsciiCase (Str.trim mime) "application/json"

/-- The fields of a transition, where `transition_response` accepts the body. -/
def transitionFields (fromSlice : List UInt8 → Option Json) (headers : HeaderMap)
    (body : List UInt8) : Option (List (String × Json)) :=
  if !isJsonContentType headers then none
  else
    match fromSlice body with
    | some (.object fields) => some fields
    | some .null => some []
    | _ => none

namespace RouterOps

variable {ρ : Type} (ops : RouterOps ρ) (core : String) (req : ServerRequest)

/-- The extractor `Query`. -/
def query {α : Type} (ofPairs : List (String × String) → Option α) : Option α :=
  ofPairs (ops.formParse (req.uri.query.getD ""))

/-- A call of `maybe_forward_or_404`, and what the handler does if it returns nothing. -/
def maybeForward (call : ForwardCall) (calls : List (CoreCall ρ)) : Served ρ :=
  if call.targetName = core then .answered calls else .forwarded call

/-- `maybe_forward_get_or_404`. -/
def maybeForwardGet (targetName : String) (uri : Uri) (calls : List (CoreCall ρ)) : Served ρ :=
  maybeForward core { targetName, method := "GET", uri } calls

/-- `resources_response`, and the local part of `server_get`. -/
def resourcesResponse (params : QueryParams) : List (CoreCall ρ) :=
  match params.ql with
  | some ql => [.queryResources ql]
  | none => [.listResources]

/-- `resource_response`. -/
def resourceResponse (id : String) : List (CoreCall ρ) := [.getResource id]

/-- `meta_response` and `meta_type_response`. -/
def metaResponse : List (CoreCall ρ) := [.actorSpecs]

/-- `transition_response`. -/
def transitionResponse (id transition : String) : List (CoreCall ρ) :=
  match transitionFields ops.fromSlice req.headers req.body with
  | some fields => [.runResourceTransition id transition fields]
  | none => []

/-- What `server_events_stream` does for the server itself. -/
def eventsResponse (q : EventsQuery) : List (CoreCall ρ) :=
  match serverEventsStream ops.topics q with
  | .ok request => [.subscribeEvents request]
  | .error _ => []

/-- `root`. -/
def root (params : QueryParams) : Served ρ :=
  let calls := match params.ql with
    | some ql => [.queryResources ql]
    | none => []
  match queryScopeFromServer params.server with
  | .local => .answered calls
  | .peer peer =>
    match peerServerQueryUri ops.http ops.appendPair peer params.ql with
    | none => .panicked
    | some uri => maybeForwardGet core peer uri calls
  -- `unsupported_federation_query_response`
  | .federation _ _ => .answered []

/-- A handler with its extractors. -/
def handle : Handler → List String → Served ρ
  | .root, [] => (ops.query req QueryParams.ofPairs).elim .rejected (ops.root core)
  | .resourcesGet, [] => (ops.query req QueryParams.ofPairs).elim .rejected fun params =>
      .answered (resourcesResponse params)
  | .resourceGet, [id] => .answered (resourceResponse id)
  | .resourceTransitionPost, [id, transition] =>
    .answered (ops.transitionResponse req id transition)
  | .localMetaGet, [] => .answered metaResponse
  | .localMetaTypeGet, [_] => .answered metaResponse
  | .serverGet, [name] => (ops.query req QueryParams.ofPairs).elim .rejected fun params =>
      maybeForwardGet core name req.uri (resourcesResponse params)
  | .serverResourcesGet, [name] => (ops.query req QueryParams.ofPairs).elim .rejected fun params =>
      maybeForwardGet core name req.uri (resourcesResponse params)
  | .serverResourceGet, [name, id] => maybeForwardGet core name req.uri (resourceResponse id)
  | .serverResourceTransitionPost, [name, id, transition] =>
    maybeForward core { targetName := name, method := "POST", uri := req.uri }
      (ops.transitionResponse req id transition)
  | .metaGet, [name] => maybeForwardGet core name req.uri metaResponse
  | .metaTypeGet, [name, _] => maybeForwardGet core name req.uri metaResponse
  | .serverEventsStream, [name] => (ops.query req EventsQuery.ofPairs).elim .rejected fun q =>
      maybeForwardGet core name req.uri (ops.eventsResponse q)
  -- a stub: the server itself does nothing
  | .eventsUnsubscribe, [name] =>
    maybeForward core { targetName := name, method := "POST", uri := req.uri } []
  | .resourcesPost, _ => .other
  | .eventsWs, _ => .other
  | .peersUpgrade, _ => .other
  | .initiatePeer, _ => .other
  -- `Path` wants as many parameters as the handler has
  | _, _ => .rejected

/-- The router of a server called `core`. -/
def serve : Served ρ :=
  match routed req.method req.uri.path with
  | none => .rejected
  | some (handler, params) =>
    match params.mapM ops.decode with
    | none => .rejected
    | some params => ops.handle core req handler params

end RouterOps

end Boardwalk
