import Boardwalk.Http.HrefUrls
import Boardwalk.Http.Routes
import Boardwalk.Query.Eval
import Boardwalk.Server.Identity

/-!
# Pages

The Siren documents of `siren.rs`, the renderers of `http/render.rs` that make them, and the pages
that the handlers of `http/routes.rs` answer with.  A page has no result where one of its links
panics.
-/

namespace Boardwalk

/-! ### Siren -/

namespace rels

def SELF : String := "self"

def UP : String := "up"

def MONITOR : String := "monitor"

def EDIT : String := "edit"

def SERVER : String := "https://rels.boardwalk.to/server"

def RESOURCE : String := "https://rels.boardwalk.to/resource"

def RESOURCES : String := "https://rels.boardwalk.to/resources"

def PEER : String := "https://rels.boardwalk.to/peer"

def EVENTS : String := "https://rels.boardwalk.to/events"

def TYPE : String := "https://rels.boardwalk.to/type"

def OBJECT_STREAM : String := "https://rels.boardwalk.to/object-stream"

end rels

namespace Siren

/-- `Link`; no renderer gives one a class or a type. -/
structure Link (υ : Type) where
  rel : List String
  href : υ
  title : Option String := none
  deriving Repr

structure Field where
  name : String
  type : String
  value : Option Json := none
  title : Option String := none
  deriving Repr

structure Action (υ : Type) where
  name : String
  «class» : List String := []
  method : String
  href : υ
  type : Option String := none
  fields : List Field := []
  deriving Repr

/-- `EmbeddedEntity`, and so every `SubEntity` of a renderer. -/
structure EmbeddedEntity (υ : Type) where
  rel : List String
  «class» : List String := []
  properties : List (String × Json) := []
  links : List (Link υ) := []
  actions : List (Action υ) := []
  deriving Repr

structure Entity (υ : Type) where
  «class» : List String := []
  properties : List (String × Json) := []
  entities : List (EmbeddedEntity υ) := []
  actions : List (Action υ) := []
  links : List (Link υ) := []
  deriving Repr

variable {υ : Type}

/-- `Action::form_urlencoded`. -/
def Action.formUrlencoded (a : Action υ) : Action υ :=
  { a with type := some "application/x-www-form-urlencoded" }

/-- `Action::json`. -/
def Action.json (a : Action υ) : Action υ := { a with type := some "application/json" }

/-- `Field::typed`. -/
def Field.typed (name ty : String) : Field := { name := name, type := ty }

namespace Entity

def withAction (e : Entity υ) (a : Action υ) : Entity υ := { e with actions := e.actions ++ [a] }

def withSubEntity (e : Entity υ) (sub : EmbeddedEntity υ) : Entity υ :=
  { e with entities := e.entities ++ [sub] }

end Entity

end Siren

/-! ### What is rendered -/

namespace Render

open Siren

inductive TransitionResultKind where
  | sync
  | asyncJob
  deriving Repr, DecidableEq

inductive Idempotency where
  | none
  | supported
  | required
  deriving Repr, DecidableEq

/-- `Effect`; `unsafeEffect` is its `Unsafe`. -/
inductive Effect where
  | safe
  | unsafeIdempotent
  | unsafeEffect
  deriving Repr, DecidableEq

structure FieldSpec where
  name : String
  type : String
  title : Option String
  value : Option Json
  deriving Repr

structure TransitionSpec where
  name : String
  title : Option String := none
  allowedStates : List String := []
  inputSchema : Option Json := none
  outputSchema : Option Json := none
  result : TransitionResultKind := .sync
  idempotency : Idempotency := .none
  effect : Effect := .unsafeEffect
  requiredScopes : List String := []
  fields : List FieldSpec := []
  deriving Repr

structure TransitionAffordance where
  spec : TransitionSpec
  available : Bool
  deriving Repr

/-- A `ResourceSnapshot` with everything that is rendered of one. -/
structure Snapshot extends ResourceSnapshot where
  name : Option String := none
  state : Option String := none
  properties : List (String × Json) := []
  labels : List (String × String) := []
  transitions : List TransitionAffordance := []
  revision : Option String := none
  deriving Repr

inductive StreamKind where
  | object
  | binary
  deriving Repr, DecidableEq

structure StreamSpec where
  name : String
  kind : StreamKind
  deriving Repr, DecidableEq

/-- The `resource` of an `ActorSpec`. -/
structure KindSpec extends ResourceSpec where
  labels : List (String × String) := []
  propertySchema : Option Json := none
  streams : List StreamSpec := []
  deriving Repr

structure ActorSpec where
  resource : KindSpec
  transitions : List TransitionSpec := []
  deriving Repr

/-! ### The renderers -/

end Render

/-- `RenderPolicy::can_query`. -/
def RenderPolicy.canQuery (policy : RenderPolicy) : Bool :=
  policy.capabilities.contains .resourceQuery

/-- `RenderPolicy::can_read_resources`. -/
def RenderPolicy.canReadResources (policy : RenderPolicy) : Bool :=
  policy.capabilities.contains .resourceRead

/-- `RenderPolicy::can_invoke_transition`. -/
def RenderPolicy.canInvokeTransition (policy : RenderPolicy) : Bool :=
  policy.capabilities.contains .transitionInvoke

structure PeerRenderPolicy where
  routeName : String
  capabilities : PeerCapabilities
  deriving Repr, DecidableEq

/-- `PeerRenderPolicy::can_read_resources`. -/
def PeerRenderPolicy.canReadResources (peer : PeerRenderPolicy) : Bool :=
  peer.capabilities.contains .resourceRead

namespace Render

open Siren

variable {υ : Type} (ops : UrlBuild υ) (h : Hrefs υ) (policy : RenderPolicy)

def optionString (s : Option String) : Json := (s.map Json.string).getD .null

def labelsJson (labels : List (String × String)) : Json :=
  .object (labels.map fun kv => (kv.1, .string kv.2))

/-- `query_action`. -/
def queryAction : Option (Action υ) := do
  let href ← h.resourcesUrl ops
  let action : Action υ := { name := "query-resources", method := "GET", href := href }
  return { action.formUrlencoded with fields := [Field.typed "ql" "text"] }

/-- `with_query_action`. -/
def withQueryAction (entity : Entity υ) : Option (Entity υ) :=
  if policy.canQuery then (queryAction ops h).map entity.withAction else some entity

/-- `render_root`. -/
def renderRoot (peers : List PeerRenderPolicy) : Option (Entity υ) := do
  let resources ← h.resourcesUrl ops
  let server ← h.serverUrl ops
  let peerLinks ← (peers.filter (·.canReadResources)).mapM fun peer =>
    (h.peerUrl ops peer.routeName).map fun url =>
      ({ rel := [rels.PEER, rels.SERVER], href := url, title := some peer.routeName } : Link υ)
  let events ← (if policy.canStream then
    (h.eventsUrl ops).map fun url => [({ rel := [rels.EVENTS], href := url } : Link υ)]
    else some [])
  let links : List (Link υ) := [
    { rel := [rels.SELF], href := h.root },
    { rel := [rels.RESOURCES], href := resources },
    { rel := [rels.SERVER], href := server, title := some h.server }]
  withQueryAction ops h policy { «class» := ["root"], links := links ++ peerLinks ++ events }

/-- `apply_resource_properties`, on the properties of the entity. -/
def applyResourceProperties (properties : List (String × Json)) (snap : Snapshot) :
    List (String × Json) :=
  let own := snap.properties.foldl (fun props kv => insertKey props kv.1 kv.2) properties
  let named := [("id", Json.string snap.id), ("kind", .string snap.kind),
    ("node", .string snap.node), ("name", optionString snap.name),
    ("state", optionString snap.state)].foldl (fun props kv => insertKey props kv.1 kv.2) own
  let labelled := if snap.labels.isEmpty then named
    else insertKey named "labels" (labelsJson snap.labels)
  match snap.revision with
  | some revision => insertKey labelled "revision" (.string revision)
  | none => labelled

/-- `resource_sub_entity`. -/
def resourceSubEntity (snap : Snapshot) : Option (EmbeddedEntity υ) := do
  let e : EmbeddedEntity υ := {
    rel := [rels.RESOURCE]
    «class» := ["resource", snap.kind]
    properties := applyResourceProperties [] snap }
  if policy.canReadResources then
    let self ← h.resourceUrl ops snap.id
    let resources ← h.resourcesUrl ops
    return { e with links := [
      { rel := [rels.SELF], href := self },
      { rel := [rels.UP, rels.RESOURCES], href := resources }] }
  else return e

/-- What `render_resources`, `render_server` and `render_search_results` end with. -/
def withResources (e : Entity υ) (snaps : List Snapshot) : Option (Entity υ) := do
  let e ← withQueryAction ops h policy e
  let subs ← snaps.mapM (resourceSubEntity ops h policy)
  return subs.foldl Entity.withSubEntity e

/-- `render_resources`. -/
def renderResources (snaps : List Snapshot) : Option (Entity υ) := do
  let self ← h.resourcesUrl ops
  withResources ops h policy {
    «class» := ["resources"]
    properties := [("node", .string h.server)]
    links := [{ rel := [rels.SELF], href := self }] } snaps

/-- `render_server`. -/
def renderServer (snaps : List Snapshot) : Option (Entity υ) := do
  let self ← h.serverUrl ops
  let resources ← h.resourcesUrl ops
  withResources ops h policy {
    «class» := ["server"]
    properties := [("name", .string h.server)]
    links := [
      { rel := [rels.SELF], href := self },
      { rel := [rels.RESOURCES], href := resources }] } snaps

/-- `render_search_results`. -/
def renderSearchResults (ql : String) (snaps : List Snapshot) : Option (Entity υ) := do
  let self ← h.searchUrl ops ql
  withResources ops h policy {
    «class» := ["resources", "search-results"]
    properties := [("name", .string h.server), ("ql", .string ql)]
    links := [{ rel := [rels.SELF], href := self }] } snaps

/-- The action of a transition. -/
def transitionAction (id : String) (spec : TransitionSpec) : Option (Action υ) := do
  let href ← h.resourceTransitionUrl ops id spec.name
  let action : Action υ := {
    name := spec.name, «class» := ["transition"], method := "POST", href := href }
  return { action.json with fields := spec.fields.map fun f =>
    { Field.typed f.name f.type with title := f.title, value := f.value } }

/-- The actions of `render_resource`. -/
def transitionActions (snap : Snapshot) : Option (List (Action υ)) :=
  if policy.canInvokeTransition then
    (snap.transitions.filter (·.available)).mapM fun t => transitionAction ops h snap.id t.spec
  else some []

/-- The stream links of `render_resource`. -/
def streamLinks (snap : Snapshot) : Option (List (Link υ)) :=
  if policy.canStream then
    snap.streams.mapM fun stream => (h.streamUrl ops snap.kind snap.id stream).map fun url =>
      { rel := [rels.MONITOR, rels.OBJECT_STREAM], href := url, title := some stream }
  else some []

/-- `render_resource`. -/
def renderResource (snap : Snapshot) : Option (Entity υ) := do
  let self ← h.resourceUrl ops snap.id
  let resources ← h.resourcesUrl ops
  let ty ← h.metaTypeUrl ops snap.kind
  let actions ← transitionActions ops h policy snap
  let streams ← streamLinks ops h policy snap
  let links : List (Link υ) := [
    { rel := [rels.SELF, rels.EDIT], href := self },
    { rel := [rels.UP, rels.RESOURCES], href := resources },
    { rel := [rels.TYPE, "describedby"], href := ty }]
  return {
    «class» := ["resource", snap.kind]
    properties := applyResourceProperties [] snap
    actions := actions
    links := links ++ streams }

/-- `stream_spec_json`. -/
def streamSpecJson (spec : StreamSpec) : Json :=
  .object [("name", .string spec.name), ("kind", .string (match spec.kind with
    | .object => "object"
    | .binary => "binary"))]

/-- `transition_spec_json`. -/
def transitionSpecJson (spec : TransitionSpec) : Json :=
  .object <| [
    ("name", .string spec.name),
    ("allowedStates", .array (spec.allowedStates.map .string)),
    ("result", .string (match spec.result with
      | .sync => "sync"
      | .asyncJob => "async-job")),
    ("idempotency", .string (match spec.idempotency with
      | .none => "none"
      | .supported => "supported"
      | .required => "required")),
    ("effect", .string (match spec.effect with
      | .safe => "safe"
      | .unsafeIdempotent => "unsafe-idempotent"
      | .unsafeEffect => "unsafe")),
    ("requiredScopes", .array (spec.requiredScopes.map .string))] ++
    Json.member "title" .string spec.title ++ Json.member "inputSchema" id spec.inputSchema ++
    Json.member "outputSchema" id spec.outputSchema

/-- `meta_type_sub_entity`. -/
def metaTypeSubEntity (ty : ActorSpec) : Option (EmbeddedEntity υ) := do
  let resource := ty.resource
  let self ← h.metaTypeUrl ops resource.kind
  return {
    rel := [rels.TYPE, "item"]
    «class» := ["type"]
    properties := [
      ("kind", .string resource.kind),
      ("name", optionString resource.name),
      ("labels", labelsJson resource.labels),
      ("propertySchema", resource.propertySchema.getD .null),
      ("properties", .array (["id", "kind", "node", "state"].map .string)),
      ("streams", .array (resource.streams.map streamSpecJson)),
      ("transitions", .array (ty.transitions.map transitionSpecJson))]
    links := [{ rel := [rels.SELF], href := self }] }

/-- The specs of `render_meta`'s loop: the first one of every kind that was not seen. -/
def unseenKinds (seen : List String) : List ActorSpec → List ActorSpec
  | [] => []
  | ty :: types =>
    if seen.contains ty.resource.kind then unseenKinds seen types
    else ty :: unseenKinds (ty.resource.kind :: seen) types

/-- `render_meta`. -/
def renderMeta (types : List ActorSpec) : Option (Entity υ) := do
  let self ← h.metaUrl ops
  let resources ← h.resourcesUrl ops
  let monitor ← (if policy.canStream then
    (h.metaEventsUrl ops).map fun url => [({ rel := [rels.MONITOR], href := url } : Link υ)]
    else some [])
  let subs ← (unseenKinds [] types).mapM (metaTypeSubEntity ops h)
  let links : List (Link υ) := [
    { rel := [rels.SELF], href := self },
    { rel := [rels.RESOURCES], href := resources }]
  let e : Entity υ := {
    «class» := ["metadata"]
    properties := [("name", .string h.server)]
    links := links ++ monitor }
  return subs.foldl Entity.withSubEntity e

/-- `render_meta_type`. -/
def renderMetaType (ty : ActorSpec) : Option (Entity υ) := do
  let sub ← metaTypeSubEntity ops h ty
  return {
    «class» := sub.class
    properties := sub.properties
    actions := sub.actions
    links := sub.links }

end Render

/-! ### The handlers -/

/-- What `Core` answers the calls of a handler with, where it answers them. -/
structure CoreReads where
  queryResources : String → Option (List Render.Snapshot)
  listResources : List Render.Snapshot
  getResource : String → Option Render.Snapshot
  actorSpecs : List Render.ActorSpec

namespace Render

open Siren

variable {υ : Type} (ops : UrlBuild υ) (h : Hrefs υ) (policy : RenderPolicy) (reads : CoreReads)

/-- What `root`, `server_get` and `resources_response` answer a query with. -/
def searchPage (ql : String) : Option (Entity υ) :=
  (reads.queryResources ql).bind fun snaps => renderSearchResults ops h policy ql snaps

/-- `resources_response`. -/
def resourcesPage (params : QueryParams) : Option (Entity υ) :=
  match params.ql with
  | some ql => searchPage ops h policy reads ql
  | none => renderResources ops h policy reads.listResources

/-- The local part of `server_get`. -/
def serverPage (params : QueryParams) : Option (Entity υ) :=
  match params.ql with
  | some ql => searchPage ops h policy reads ql
  | none => renderServer ops h policy reads.listResources

/-- `resource_response`. -/
def resourcePage (id : String) : Option (Entity υ) :=
  (reads.getResource id).bind (renderResource ops h policy)

/-- `meta_type_response`. -/
def metaTypePage (ty : String) : Option (Entity υ) :=
  (reads.actorSpecs.find? fun spec => spec.resource.kind == ty).bind (renderMetaType ops h)

/-- The local part of `root`; the peers are the ones of `peer_render_policies`. -/
def rootPage (peers : List PeerRenderPolicy) (params : QueryParams) : Option (Entity υ) :=
  match params.ql with
  | some ql => searchPage ops h policy reads ql
  | none => renderRoot ops h policy peers

end Render

namespace RouterOps

variable {ρ υ : Type} (ops : RouterOps ρ) (urls : UrlBuild υ) (core : String) (reads : CoreReads)
  (peers : List PeerRenderPolicy) (req : ServerRequest)

/-- The page that a handler of a server called `core` renders under the bases and the policy, where
it does not forward the request and answers with a page. -/
def pageUnder (h : Render.Hrefs υ) (policy : RenderPolicy) :
    Handler → List String → Option (Siren.Entity υ)
  | .root, [] => do
    let params ← ops.query req QueryParams.ofPairs
    match queryScopeFromServer params.server with
    | .local => Render.rootPage urls h policy reads peers params
    | .peer peer =>
      if peer = core then do
        let uri ← peerServerQueryUri ops.http ops.appendPair peer params.ql
        -- a query is rendered under the bases of this URI
        let bases ← (match params.ql with
          | some _ => Render.buildHrefs urls.toUrlOps req.headers uri core
          | none => some h)
        Render.rootPage urls bases policy reads peers params
      else none
    | .federation _ _ => none
  | .resourcesGet, [] =>
    (ops.query req QueryParams.ofPairs).bind (Render.resourcesPage urls h policy reads)
  | .resourceGet, [id] => Render.resourcePage urls h policy reads id
  | .localMetaGet, [] => Render.renderMeta urls h policy reads.actorSpecs
  | .localMetaTypeGet, [ty] => Render.metaTypePage urls h reads ty
  | .serverGet, [name] =>
    if name = core then
      (ops.query req QueryParams.ofPairs).bind (Render.serverPage urls h policy reads)
    else none
  | .serverResourcesGet, [name] =>
    if name = core then
      (ops.query req QueryParams.ofPairs).bind (Render.resourcesPage urls h policy reads)
    else none
  | .serverResourceGet, [name, id] =>
    if name = core then Render.resourcePage urls h policy reads id else none
  | .metaGet, [name] =>
    if name = core then Render.renderMeta urls h policy reads.actorSpecs else none
  | .metaTypeGet, [name, ty] =>
    if name = core then Render.metaTypePage urls h reads ty else none
  | _, _ => none

/-- A handler takes the bases and the policy from the request. -/
def page (handler : Handler) (params : List String) : Option (Siren.Entity υ) :=
  (Render.buildHrefs urls.toUrlOps req.headers req.uri core).bind fun h =>
    ops.pageUnder urls core reads peers req h (renderPolicyFromHeaders req.headers) handler params

/-- The page that a request is answered with, as `serve` finds the handler. -/
def servePage : Option (Siren.Entity υ) :=
  (routed req.method req.uri.path).bind fun hp =>
    (hp.2.mapM ops.decode).bind (ops.page urls core reads peers req hp.1)

end RouterOps

end Boardwalk
