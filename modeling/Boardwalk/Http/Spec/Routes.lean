import Boardwalk.Http.Routes
import Boardwalk.Http.Spec.Targets
import Boardwalk.Events.Spec.TopicText

/-!
# Intents agree with what is asked of a server

A request that a handler forwards goes to one of eight routes of its target (`Forwards`).  There the
router comes to the same parameters and the extractors to the same values as at the gateway, so the
call that the target's handler makes can be read off beside the intent (`intent_agrees`).  The
handlers check more than the intent says: a transition needs a JSON body, a subscription a topic
and a policy that parse.
-/

namespace Boardwalk

/-- Reading resources or metadata. -/
def CoreCall.isRead {ρ : Type} : CoreCall ρ → Bool
  | .listResources => true
  | .getResource _ => true
  | .actorSpecs => true
  | _ => false

/-- `/servers/{name}/events`. -/
def IsEventsPath (path : String) : Prop :=
  ∃ raw, Str.split '/' path = ["", "servers", raw, "events"]

namespace RouterOps

variable {ρ : Type} {ops : RouterOps ρ} {call : ForwardCall} {core : String}

/-! ### Matching -/

/-- The segments match a pattern, and its parameters decode. -/
def Matches (ops : RouterOps ρ) (pattern : List RouteSegment) (segments params : List String) :
    Prop :=
  ∃ raw, matchSegments pattern segments = some raw ∧ raw.mapM ops.decode = some params

theorem matches_nil_iff {segments params : List String} :
    ops.Matches [] segments params ↔ segments = [] ∧ params = [] := by
  cases segments with
  | nil => simp [Matches, matchSegments, eq_comm]
  | cons segment rest => simp [Matches, matchSegments]

theorem matches_text_iff {text : String} {pattern : List RouteSegment}
    {segments params : List String} :
    ops.Matches (.text text :: pattern) segments params ↔
      ∃ rest, segments = text :: rest ∧ ops.Matches pattern rest params := by
  cases segments with
  | nil => simp [Matches, matchSegments]
  | cons segment rest =>
    by_cases h : segment = text <;> simp [Matches, matchSegments, h]

/-- A parameter of a pattern takes one segment that is not empty and decodes. -/
theorem matches_param_iff {pattern : List RouteSegment} {segments params : List String} :
    ops.Matches (.param :: pattern) segments params ↔
      ∃ raw value, (raw ≠ "" ∧ ops.decode raw = some value) ∧
        ∃ rest values, segments = raw :: rest ∧ params = value :: values ∧
          ops.Matches pattern rest values := by
  cases segments with
  | nil => simp [Matches, matchSegments]
  | cons segment rest =>
    by_cases h : segment = ""
    · simp [Matches, matchSegments, h]
    · simp only [Matches, matchSegments, if_neg h, Option.map_eq_some_iff]
      constructor
      · rintro ⟨raw, ⟨tail, htail, rfl⟩, hparams⟩
        simp only [List.mapM_cons, Option.bind_eq_bind, Option.bind_eq_some_iff, Option.pure_def,
          Option.some.injEq] at hparams
        obtain ⟨value, hvalue, values, hvalues, rfl⟩ := hparams
        exact ⟨segment, value, ⟨h, hvalue⟩, rest, values, rfl, rfl, tail, htail, hvalues⟩
      · rintro ⟨raw, value, ⟨-, hvalue⟩, rest', values, heq, rfl, tail, htail, hvalues⟩
        cases heq
        exact ⟨segment :: tail, ⟨tail, htail, rfl⟩, by simp [hvalue, hvalues]⟩

/-- A request that is forwarded goes to a handler by a route of the table. -/
theorem exists_route {req : ServerRequest} (h : ops.serve core req = .forwarded call) :
    ∃ route ∈ routes, ∃ segments params, Str.split '/' req.uri.path = "" :: segments ∧
      route.methods.takes req.method = true ∧ ops.Matches route.segments segments params ∧
      ops.handle core req route.handler params = .forwarded call := by
  -- the router's choice, then the handler's
  unfold serve at h
  split at h
  · cases h
  · rename_i handler raw hrouted
    split at h
    · cases h
    · rename_i params hparams
      unfold routed at hrouted
      split at hrouted
      · rename_i segments hsplit
        obtain ⟨route, hroute, hrouted⟩ := List.exists_of_findSome?_eq_some hrouted
        split at hrouted
        · rename_i htakes
          obtain ⟨raw', hraw, heq⟩ := Option.map_eq_some_iff.mp hrouted
          cases heq
          exact ⟨route, hroute, segments, params, hsplit, htakes, ⟨raw, hraw, hparams⟩, h⟩
        · cases hrouted
      · cases hrouted

/-! ### Forwarded requests -/

/-- The path is one of the target, whose name is the decoded second segment. -/
def Addressed (ops : RouterOps ρ) (call : ForwardCall) (rest : List String) : Prop :=
  ∃ raw, Str.split '/' call.uri.path = "" :: "servers" :: raw :: rest ∧ raw ≠ "" ∧
    ops.decode raw = some call.targetName

/-- What the parameters of the query are. -/
def Reads {α : Type} (ops : RouterOps ρ) (call : ForwardCall)
    (ofPairs : List (String × String) → Option α) (a : α) : Prop :=
  ofPairs (ops.formParse (call.uri.query.getD "")) = some a

/-- A forwarded request, and what its target asks of its own `Core` for it. -/
inductive Forwards (ops : RouterOps ρ) (call : ForwardCall) :
    (HeaderMap → List UInt8 → List (CoreCall ρ)) → Prop
  | server {params : QueryParams} (hpath : Addressed ops call []) (hmethod : call.method = "GET")
      (hquery : Reads ops call QueryParams.ofPairs params) :
      Forwards ops call fun _ _ => resourcesResponse params
  | resources {params : QueryParams} (hpath : Addressed ops call ["resources"])
      (hmethod : call.method = "GET") (hquery : Reads ops call QueryParams.ofPairs params) :
      Forwards ops call fun _ _ => resourcesResponse params
  | resource {raw id : String} (hpath : Addressed ops call ["resources", raw])
      (hmethod : call.method = "GET") (hraw : raw ≠ "") (hid : ops.decode raw = some id) :
      Forwards ops call fun _ _ => resourceResponse id
  | transition {raw id rawName name : String}
      (hpath : Addressed ops call ["resources", raw, "transitions", rawName])
      (hmethod : call.method = "POST") (hraw : raw ≠ "") (hid : ops.decode raw = some id)
      (hrawName : rawName ≠ "") (hname : ops.decode rawName = some name) :
      Forwards ops call fun headers body =>
        ops.transitionResponse ⟨call.method, call.uri, headers, body⟩ id name
  | metadata (hpath : Addressed ops call ["meta"]) (hmethod : call.method = "GET") :
      Forwards ops call fun _ _ => metaResponse
  | metadataType {raw ty : String} (hpath : Addressed ops call ["meta", raw])
      (hmethod : call.method = "GET") (hraw : raw ≠ "") (hty : ops.decode raw = some ty) :
      Forwards ops call fun _ _ => metaResponse
  | events {q : EventsQuery} (hpath : Addressed ops call ["events"])
      (hmethod : call.method = "GET") (hquery : Reads ops call EventsQuery.ofPairs q) :
      Forwards ops call fun _ _ => ops.eventsResponse q
  | unsubscribe (hpath : Addressed ops call ["events", "unsubscribe"])
      (hmethod : call.method = "POST") : Forwards ops call fun _ _ => []

theorem maybeForward_eq_forwarded_iff {c : ForwardCall}
    {calls : List (CoreCall ρ)} :
    maybeForward core c calls = .forwarded call ↔ c.targetName ≠ core ∧ c = call := by
  unfold maybeForward
  by_cases h : c.targetName = core <;> simp [h]

/-- The handlers that serve what is the server's own. -/
def localHandlers : List Handler :=
  [.resourcesGet, .resourcesPost, .resourceGet, .resourceTransitionPost, .localMetaGet,
    .localMetaTypeGet, .eventsWs, .peersUpgrade, .initiatePeer]

theorem elim_eq_forwarded_iff {α : Type} {o : Option α} {f : α → Served ρ} :
    o.elim .rejected f = .forwarded call ↔ ∃ a, o = some a ∧ f a = .forwarded call := by
  cases o <;> simp

/-- A handler of the local routes forwards nothing. -/
theorem handle_ne_forwarded {req : ServerRequest} {handler : Handler}
    {params : List String} (hlocal : handler ∈ localHandlers) :
    ops.handle core req handler params ≠ .forwarded call := by
  intro h
  unfold handle at h
  split at h
  all_goals first
    | cases h
    | exact absurd hlocal (by decide)
    | skip
  · obtain ⟨_, -, h⟩ := elim_eq_forwarded_iff.mp h
    cases h

/-- A request that is forwarded under its own path. -/
theorem exists_forwards_of_route {req : ServerRequest} {route : Route}
    {segments params : List String} (hroute : route ∈ routes) (hroot : route.handler ≠ .root)
    (hsplit : Str.split '/' req.uri.path = "" :: segments)
    (htakes : route.methods.takes req.method = true)
    (hmatch : ops.Matches route.segments segments params)
    (h : ops.handle core req route.handler params = .forwarded call) :
    call.targetName ≠ core ∧ ∃ calls, Forwards ops call calls := by
  have hlocal : route.handler ∉ localHandlers := fun hlocal => handle_ne_forwarded hlocal h
  have hserver : ∀ route ∈ routes, route.handler ∉ localHandlers → route.handler ≠ .root →
      route ∈ (routes.drop 7).take 8 := by
    decide
  have hroute := hserver route hroute hlocal hroot
  simp only [routes, List.drop_succ_cons, List.drop_zero, List.take_succ_cons, List.take_zero,
    List.mem_cons, List.not_mem_nil, or_false] at hroute
  clear hserver hlocal hroot
  -- in the order of the table
  rcases hroute with rfl | rfl | rfl | rfl | rfl | rfl | rfl | rfl <;>
    simp only [matches_nil_iff, matches_text_iff, matches_param_iff] at hmatch
  · obtain ⟨_, rfl, raw, name, ⟨hraw, hname⟩, _, _, rfl, rfl, rfl, rfl⟩ := hmatch
    simp only [handle, elim_eq_forwarded_iff, maybeForwardGet, maybeForward_eq_forwarded_iff] at h
    obtain ⟨params, hquery, hne, rfl⟩ := h
    exact ⟨hne, _, .server ⟨raw, hsplit, hraw, hname⟩ rfl hquery⟩
  · obtain ⟨_, rfl, raw, name, ⟨hraw, hname⟩, _, _, rfl, rfl, _, rfl, rfl, rfl⟩ := hmatch
    simp only [handle, elim_eq_forwarded_iff, maybeForwardGet, maybeForward_eq_forwarded_iff] at h
    obtain ⟨params, hquery, hne, rfl⟩ := h
    exact ⟨hne, _, .resources ⟨raw, hsplit, hraw, hname⟩ rfl hquery⟩
  · obtain ⟨_, rfl, raw, name, ⟨hraw, hname⟩, _, _, rfl, rfl, _, rfl, rawId, id, ⟨hrawId, hid⟩, _,
      _, rfl, rfl, rfl, rfl⟩ := hmatch
    simp only [handle, maybeForwardGet, maybeForward_eq_forwarded_iff] at h
    obtain ⟨hne, rfl⟩ := h
    exact ⟨hne, _, .resource ⟨raw, hsplit, hraw, hname⟩ rfl hrawId hid⟩
  · obtain ⟨_, rfl, raw, name, ⟨hraw, hname⟩, _, _, rfl, rfl, _, rfl, rawId, id, ⟨hrawId, hid⟩, _,
      _, rfl, rfl, _, rfl, rawTransition, transition, ⟨hrawTransition, htransition⟩, _, _, rfl,
      rfl, rfl, rfl⟩ := hmatch
    simp only [handle, maybeForward_eq_forwarded_iff] at h
    obtain ⟨hne, rfl⟩ := h
    exact ⟨hne, _, .transition ⟨raw, hsplit, hraw, hname⟩ rfl hrawId hid hrawTransition
      htransition⟩
  · obtain ⟨_, rfl, raw, name, ⟨hraw, hname⟩, _, _, rfl, rfl, _, rfl, rfl, rfl⟩ := hmatch
    simp only [handle, maybeForwardGet, maybeForward_eq_forwarded_iff] at h
    obtain ⟨hne, rfl⟩ := h
    exact ⟨hne, _, .metadata ⟨raw, hsplit, hraw, hname⟩ rfl⟩
  · obtain ⟨_, rfl, raw, name, ⟨hraw, hname⟩, _, _, rfl, rfl, _, rfl, rawTy, ty, ⟨hrawTy, hty⟩, _,
      _, rfl, rfl, rfl, rfl⟩ := hmatch
    simp only [handle, maybeForwardGet, maybeForward_eq_forwarded_iff] at h
    obtain ⟨hne, rfl⟩ := h
    exact ⟨hne, _, .metadataType ⟨raw, hsplit, hraw, hname⟩ rfl hrawTy hty⟩
  · obtain ⟨_, rfl, raw, name, ⟨hraw, hname⟩, _, _, rfl, rfl, _, rfl, rfl, rfl⟩ := hmatch
    simp only [handle, elim_eq_forwarded_iff, maybeForwardGet, maybeForward_eq_forwarded_iff] at h
    obtain ⟨q, hquery, hne, rfl⟩ := h
    exact ⟨hne, _, .events ⟨raw, hsplit, hraw, hname⟩ rfl hquery⟩
  · obtain ⟨_, rfl, raw, name, ⟨hraw, hname⟩, _, _, rfl, rfl, _, rfl, _, rfl, rfl, rfl⟩ := hmatch
    simp only [handle, maybeForward_eq_forwarded_iff] at h
    obtain ⟨hne, rfl⟩ := h
    exact ⟨hne, _, .unsubscribe ⟨raw, hsplit, hraw, hname⟩ rfl⟩

/-! ### The root -/

/-- How the libraries undo the encodings of a target. -/
structure Lawful (ops : RouterOps ρ) : Prop where
  decode : ∀ s, ops.decode (Str.percentEncode s) = some s
  noQuery : ops.formParse "" = []
  pair : ∀ ql, ops.formParse (ops.appendPair "ql" ql) = [("ql", ql)]

theorem peer_ne_empty {server : Option String} {peer : String}
    (h : queryScopeFromServer server = .peer peer) : peer ≠ "" := by
  unfold queryScopeFromServer at h
  split at h
  · cases h
  · rename_i name hname
    split at h
    · cases h
    · cases h
      have := (Option.filter_eq_some_iff.mp hname).2
      simpa using this

theorem split_peerServer {e : String} (h : '/' ∉ e.toList) :
    Str.split '/' ("/servers/" ++ e) = ["", "servers", e] := by
  have hpath : "/servers/" ++ e = "/servers" ++ String.singleton '/' ++ e := by
    rw [show "/servers/" = "/servers" ++ String.singleton '/' by decide]
  have hservers : Str.split '/' "/servers" = ["", "servers"] := by decide
  rw [hpath, Str.split_append_cons, hservers, Str.split_of_not_mem h]
  rfl

/-- The parameters of the URI that the root forwards to. -/
theorem reads_peerServerQueryUri (hops : ops.Lawful) {peer : String} {ql : Option String}
    {uri : Uri} (h : peerServerQueryUri ops.http ops.appendPair peer ql = some uri) :
    uri.path = "/servers/" ++ Str.percentEncode peer ∧
      QueryParams.ofPairs (ops.formParse (uri.query.getD "")) = some ⟨ql, none⟩ := by
  -- so the query begins where it is put
  have hpath : '?' ∉ ("/servers/" ++ Str.percentEncode peer).toList := by
    rw [String.toList_append, List.mem_append, not_or]
    exact ⟨by decide, Str.question_not_mem_percentEncode peer⟩
  simp only [peerServerQueryUri, Option.ite_none_right_eq_some, Option.some.injEq] at h
  obtain ⟨-, rfl⟩ := h
  refine ⟨rfl, ?_⟩
  cases ql with
  | none =>
    have hquery : hrefQuery ("/servers/" ++ Str.percentEncode peer) = none := by
      rw [hrefQuery, TopicPattern.splitSuffix_of_not_mem hpath]
    simp [Uri.query, qlSuffix, hquery, hops.noQuery, QueryParams.ofPairs, queryParam]
  | some ql =>
    have hquery : hrefQuery ("/servers/" ++ Str.percentEncode peer ++
        ("?" ++ ops.appendPair "ql" ql)) = some (ops.appendPair "ql" ql) := by
      rw [← String.append_assoc, hrefQuery, TopicPattern.splitSuffix_append hpath]
    simp [Uri.query, qlSuffix, hquery, hops.pair, QueryParams.ofPairs, queryParam]

/-- Decoding tells an encoded name from that of the empty text. -/
theorem percentEncode_ne_empty (hops : ops.Lawful) {name : String} (hname : name ≠ "") :
    Str.percentEncode name ≠ "" := by
  intro hempty
  have hdecode := hops.decode name
  have hnothing : Str.percentEncode "" = "" := by decide
  rw [hempty, ← hnothing, hops.decode] at hdecode
  exact hname (Option.some.inj hdecode).symm

/-- A request to the root that is forwarded has the far end run what it asks for. -/
theorem exists_forwards_of_root (hops : ops.Lawful) {req : ServerRequest}
    (h : ops.handle core req .root [] = .forwarded call) :
    call.targetName ≠ core ∧ ∃ calls, Forwards ops call calls := by
  simp only [handle, elim_eq_forwarded_iff] at h
  obtain ⟨params, -, h⟩ := h
  cases hscope : queryScopeFromServer params.server with
  | «local» => simp [root, hscope] at h
  | federation peers includeLocal => simp [root, hscope] at h
  | peer peer =>
    cases huri : peerServerQueryUri ops.http ops.appendPair peer params.ql with
    | none => simp [root, hscope, huri] at h
    | some uri =>
      simp only [root, hscope, huri, maybeForwardGet, maybeForward_eq_forwarded_iff] at h
      obtain ⟨hne, rfl⟩ := h
      obtain ⟨hpath, hreads⟩ := reads_peerServerQueryUri hops huri
      have hslash : '/' ∉ (Str.percentEncode peer).toList := fun hmem =>
        absurd (Str.isEncodedChar_of_mem_percentEncode hmem) (by decide)
      have hencoded := percentEncode_ne_empty hops (peer_ne_empty hscope)
      have hsplit : Str.split '/' uri.path = ["", "servers", Str.percentEncode peer] := by
        rw [hpath, split_peerServer hslash]
      exact ⟨hne, _, .server ⟨_, hsplit, hencoded, hops.decode peer⟩ rfl hreads⟩

/-- Every request that is forwarded has the far end run what it asks for. -/
theorem exists_forwards (hops : ops.Lawful) {req : ServerRequest}
    (h : ops.serve core req = .forwarded call) :
    call.targetName ≠ core ∧ ∃ calls, Forwards ops call calls := by
  obtain ⟨route, hroute, segments, params, hsplit, htakes, hmatch, h⟩ := exists_route h
  by_cases hroot : route.handler = .root
  · have hfirst : ∀ route ∈ routes, route.handler = .root →
        route = ⟨[.text ""], .get, .root⟩ := by
      decide
    rw [hfirst route hroute hroot] at hmatch h
    simp only [matches_text_iff, matches_nil_iff] at hmatch
    obtain ⟨_, -, -, rfl⟩ := hmatch
    exact exists_forwards_of_root hops h
  · exact exists_forwards_of_route hroute hroot hsplit htakes hmatch h

/-! ### At the target -/

theorem serve_of_routed {handler : Handler} {raw params : List String}
    (hrouted : routed call.method call.uri.path = some (handler, raw))
    (hparams : raw.mapM ops.decode = some params) (hub : String) (headers : HeaderMap)
    (body : List UInt8) : ops.serve hub (call.arrive headers body) =
      ops.handle hub (call.arrive headers body) handler params := by
  unfold serve
  rw [show (call.arrive headers body).method = call.method from rfl,
    show (call.arrive headers body).uri.path = call.uri.path from rfl, hrouted]
  simp only [hparams]

/-- The target comes to the same calls, if the name is its own; otherwise it forwards in turn. -/
theorem serve_arrive {calls : HeaderMap → List UInt8 → List (CoreCall ρ)}
    (h : Forwards ops call calls) (hub : String) (headers : HeaderMap) (body : List UInt8) :
    ops.serve hub (call.arrive headers body) =
      maybeForward hub { call with uri := (call.arrive headers body).uri }
        (calls headers body) := by
  -- each case: the route is found again, and its parameters decode as before
  cases h with
  | server hpath hmethod hquery =>
    obtain ⟨raw, hsplit, hraw, hname⟩ := hpath
    have hrouted : routed call.method call.uri.path = some (.serverGet, [raw]) := by
      simp [routed, routes, matchSegments, MethodFilter.takes, hsplit, hmethod, hraw]
    have hparams : [raw].mapM ops.decode = some [call.targetName] := by simp [hname]
    -- the handler reads the same query
    have hread : ops.query (call.arrive headers body) QueryParams.ofPairs = _ := hquery
    rw [serve_of_routed hrouted hparams, handle, hread, hmethod]
    rfl
  | resources hpath hmethod hquery =>
    obtain ⟨raw, hsplit, hraw, hname⟩ := hpath
    have hrouted : routed call.method call.uri.path = some (.serverResourcesGet, [raw]) := by
      simp [routed, routes, matchSegments, MethodFilter.takes, hsplit, hmethod, hraw]
    have hparams : [raw].mapM ops.decode = some [call.targetName] := by simp [hname]
    have hread : ops.query (call.arrive headers body) QueryParams.ofPairs = _ := hquery
    rw [serve_of_routed hrouted hparams, handle, hread, hmethod]
    rfl
  | @resource rawId id hpath hmethod hrawId hid =>
    obtain ⟨raw, hsplit, hraw, hname⟩ := hpath
    have hrouted : routed call.method call.uri.path = some (.serverResourceGet, [raw, rawId]) := by
      simp [routed, routes, matchSegments, MethodFilter.takes, hsplit, hmethod, hraw, hrawId]
    have hparams : [raw, rawId].mapM ops.decode = some [call.targetName, id] := by
      simp [hname, hid]
    rw [serve_of_routed hrouted hparams, handle, hmethod]
    rfl
  | @transition rawId id rawName name hpath hmethod hrawId hid hrawName hname' =>
    obtain ⟨raw, hsplit, hraw, hname⟩ := hpath
    have hrouted : routed call.method call.uri.path =
        some (.serverResourceTransitionPost, [raw, rawId, rawName]) := by
      simp [routed, routes, matchSegments, MethodFilter.takes, hsplit, hmethod, hraw, hrawId,
        hrawName]
    have hparams : [raw, rawId, rawName].mapM ops.decode = some [call.targetName, id, name] := by
      simp [hname, hid, hname']
    rw [serve_of_routed hrouted hparams, handle, hmethod]
    rfl
  | metadata hpath hmethod =>
    obtain ⟨raw, hsplit, hraw, hname⟩ := hpath
    have hrouted : routed call.method call.uri.path = some (.metaGet, [raw]) := by
      simp [routed, routes, matchSegments, MethodFilter.takes, hsplit, hmethod, hraw]
    have hparams : [raw].mapM ops.decode = some [call.targetName] := by simp [hname]
    rw [serve_of_routed hrouted hparams, handle, hmethod]
    rfl
  | @metadataType rawTy ty hpath hmethod hrawTy hty =>
    obtain ⟨raw, hsplit, hraw, hname⟩ := hpath
    have hrouted : routed call.method call.uri.path = some (.metaTypeGet, [raw, rawTy]) := by
      simp [routed, routes, matchSegments, MethodFilter.takes, hsplit, hmethod, hraw, hrawTy]
    have hparams : [raw, rawTy].mapM ops.decode = some [call.targetName, ty] := by
      simp [hname, hty]
    rw [serve_of_routed hrouted hparams, handle, hmethod]
    rfl
  | events hpath hmethod hquery =>
    obtain ⟨raw, hsplit, hraw, hname⟩ := hpath
    have hrouted : routed call.method call.uri.path = some (.serverEventsStream, [raw]) := by
      simp [routed, routes, matchSegments, MethodFilter.takes, hsplit, hmethod, hraw]
    have hparams : [raw].mapM ops.decode = some [call.targetName] := by simp [hname]
    have hread : ops.query (call.arrive headers body) EventsQuery.ofPairs = _ := hquery
    rw [serve_of_routed hrouted hparams, handle, hread, hmethod]
    rfl
  | unsubscribe hpath hmethod =>
    obtain ⟨raw, hsplit, hraw, hname⟩ := hpath
    have hrouted : routed call.method call.uri.path = some (.eventsUnsubscribe, [raw]) := by
      simp [routed, routes, matchSegments, MethodFilter.takes, hsplit, hmethod, hraw]
    have hparams : [raw].mapM ops.decode = some [call.targetName] := by simp [hname]
    rw [serve_of_routed hrouted hparams, handle, hmethod]

/-! ### The intent -/

/-- A parameter that can be read at all is there exactly when its key is among the pairs. -/
theorem isSome_of_queryParam {pairs : List (String × String)} {key : String} {v : Option String}
    (h : queryParam pairs key = some v) : v.isSome = pairs.any fun kv => kv.1 == key := by
  rw [Bool.eq_iff_iff, List.any_eq_true]
  unfold queryParam at h
  split at h
  · rename_i hnone
    cases h
    have hnot : ∀ kv ∈ pairs, ¬ (kv.1 == key) = true := List.filter_eq_nil_iff.mp hnone
    simp only [Option.isSome_none, Bool.false_eq_true, false_iff, not_exists, not_and]
    exact hnot
  · rename_i kv hone
    cases h
    have hmem : kv ∈ pairs.filter fun kv => kv.1 == key := by simp [hone]
    exact iff_of_true rfl ⟨kv, List.mem_filter.mp hmem⟩
  · cases h

theorem hasQueryParam_eq (hops : ops.Lawful) (query : Option String) (key : String) :
    hasQueryParam ops.formParse query key =
      (ops.formParse (query.getD "")).any fun kv => kv.1 == key := by
  cases query with
  | none => simp [hasQueryParam, hops.noQuery]
  | some query => rfl

/-- The extractor of a query finds `ql` exactly when the classification does. -/
theorem hasQueryParam_ql (hops : ops.Lawful) {params : QueryParams}
    (h : Reads ops call QueryParams.ofPairs params) :
    hasQueryParam ops.formParse call.uri.query "ql" = params.ql.isSome := by
  obtain ⟨ql, hql, h⟩ := Option.bind_eq_some_iff.mp h
  obtain ⟨server, -, h⟩ := Option.bind_eq_some_iff.mp h
  cases h
  rw [hasQueryParam_eq hops, isSome_of_queryParam hql]

/-- The extractor of an event request finds `topic` exactly when the classification does. -/
theorem hasQueryParam_topic (hops : ops.Lawful) {q : EventsQuery}
    (h : Reads ops call EventsQuery.ofPairs q) :
    hasQueryParam ops.formParse call.uri.query "topic" = q.topic.isSome := by
  obtain ⟨topic, htopic, h⟩ := Option.bind_eq_some_iff.mp h
  have hq : q.topic = topic := by
    simp only [Option.bind_eq_bind, Option.bind_eq_some_iff, Option.pure_def,
      Option.some.injEq] at h
    obtain ⟨_, -, _, -, _, -, _, -, _, -, _, -, rfl⟩ := h
    rfl
  rw [hasQueryParam_eq hops, hq, isSome_of_queryParam htopic]

/-- What the target asks of its `Core` for a request is what the intent of the request says. -/
structure Agrees (ops : RouterOps ρ) (call : ForwardCall) (headers : HeaderMap)
    (body : List UInt8) (calls : List (CoreCall ρ)) : Prop where
  query : (∃ ql, .queryResources ql ∈ calls) ↔ call.intent ops.formParse = some .query
  invoke : (∃ id transition fields, .runResourceTransition id transition fields ∈ calls) ↔
    call.intent ops.formParse = some .invoke ∧
      (transitionFields ops.fromSlice headers body).isSome = true
  /-- Where the intent is to subscribe by `unsubscribe`, the target does nothing. -/
  subscribe : (∃ request, .subscribeEvents request ∈ calls) ↔
    call.intent ops.formParse = some .subscribe ∧ IsEventsPath call.uri.path ∧
      ∃ q request, Reads ops call EventsQuery.ofPairs q ∧
        serverEventsStream ops.topics q = .ok request
  reads : (∀ intent ∈ [.query, .invoke, .subscribe], call.intent ops.formParse ≠ some intent) →
    ∀ c ∈ calls, c.isRead = true
  unclassified : call.intent ops.formParse = none ↔
    IsEventsPath call.uri.path ∧ hasQueryParam ops.formParse call.uri.query "topic" = false

/-- Where the intent is to read, and the calls only read. -/
theorem agrees_of_reads {intent : ProxyIntent} {calls : List (CoreCall ρ)} {headers : HeaderMap}
    {body : List UInt8} (hintent : call.intent ops.formParse = some intent)
    (hother : intent ∉ [.query, .invoke]) (hevents : ¬ IsEventsPath call.uri.path)
    (hreads : ∀ c ∈ calls, c.isRead = true) : Agrees ops call headers body calls := by
  -- a call that is no read is not among them
  have hnot : ∀ c : CoreCall ρ, c.isRead = false → c ∉ calls := by
    intro c hc hmem
    rw [hreads c hmem] at hc
    contradiction
  rw [List.mem_cons, List.mem_singleton, not_or] at hother
  refine ⟨iff_of_false ?_ ?_, iff_of_false ?_ ?_, iff_of_false ?_ ?_, fun _ => hreads,
    iff_of_false ?_ ?_⟩
  · rintro ⟨ql, hmem⟩
    exact hnot _ rfl hmem
  · rw [hintent]
    exact fun h => hother.1 (Option.some.inj h)
  · rintro ⟨id, transition, fields, hmem⟩
    exact hnot _ rfl hmem
  · rw [hintent]
    exact fun h => hother.2 (Option.some.inj h.1)
  · rintro ⟨request, hmem⟩
    exact hnot _ rfl hmem
  · exact fun h => hevents h.2.1
  · rw [hintent]
    exact nofun
  · exact fun h => hevents h.1

/-- The calls of a query or a listing. -/
theorem agrees_of_params {params : QueryParams} {other : ProxyIntent} {headers : HeaderMap}
    {body : List UInt8} (hother : other ∉ [.query, .invoke])
    (hintent : call.intent ops.formParse = some (if params.ql.isSome then .query else other))
    (hevents : ¬ IsEventsPath call.uri.path) :
    Agrees ops call headers body (resourcesResponse params) := by
  cases hql : params.ql with
  | none =>
    rw [hql] at hintent
    exact agrees_of_reads hintent hother hevents (by simp [resourcesResponse, hql, CoreCall.isRead])
  | some ql =>
    rw [hql] at hintent
    constructor <;> simp [hintent, resourcesResponse, hql, hevents]

/-- The call of a transition whose body is accepted. -/
theorem agrees_of_transition {headers : HeaderMap} {body : List UInt8} {method : String} {uri : Uri}
    {id transition : String} (hintent : call.intent ops.formParse = some .invoke)
    (hevents : ¬ IsEventsPath call.uri.path) :
    Agrees ops call headers body
      (ops.transitionResponse ⟨method, uri, headers, body⟩ id transition) := by
  cases hfields : transitionFields ops.fromSlice headers body with
  | none => constructor <;> simp [hintent, transitionResponse, hfields, hevents]
  | some fields => constructor <;> simp [hintent, transitionResponse, hfields, hevents]

/-- The call of an event request whose parameters are accepted. -/
theorem agrees_of_events {headers : HeaderMap} {body : List UInt8} {q : EventsQuery}
    (hquery : Reads ops call EventsQuery.ofPairs q)
    (hintent : call.intent ops.formParse = if q.topic.isSome then some .subscribe else none)
    (htopic : hasQueryParam ops.formParse call.uri.query "topic" = q.topic.isSome)
    (hevents : IsEventsPath call.uri.path) :
    Agrees ops call headers body (ops.eventsResponse q) := by
  have hread : ∀ q', Reads ops call EventsQuery.ofPairs q' ↔ q' = q := by
    intro q'
    rw [Reads, hquery, Option.some_inj, eq_comm]
  cases hserved : serverEventsStream ops.topics q with
  | ok request =>
    have hsome : q.topic.isSome = true := by
      rw [Option.isSome_iff_ne_none]
      intro hnone
      simp [serverEventsStream, hnone] at hserved
    constructor <;> simp [hintent, eventsResponse, hserved, hread, hevents, htopic, hsome]
  | error err =>
    cases hq : q.topic with
    | none => constructor <;> simp [hintent, eventsResponse, hserved, hread, hevents, htopic, hq]
    | some topic =>
      constructor <;> simp [hintent, eventsResponse, hserved, hread, hevents, htopic, hq]

/-! ### The intent of each route -/

section Intents

variable {formParse : FormParse} {raw : String} {rest : List String}

/-- The segments that the classification looks at. -/
theorem Addressed.segments (h : Addressed ops call rest) (hrest : ∀ s ∈ rest, s ≠ "") :
    ∃ peer, ¬ peer.isEmpty = true ∧
      (Str.split '/' call.uri.path).filter (fun segment => !segment.isEmpty) =
        "servers" :: peer :: rest := by
  obtain ⟨peer, hsplit, hpeer, -⟩ := h
  have hall : rest.filter (fun segment => !segment.isEmpty) = rest :=
    List.filter_eq_self.mpr fun s hs => by simpa using hrest s hs
  refine ⟨peer, by simpa using hpeer, ?_⟩
  rw [hsplit, List.filter_cons_of_neg (by simp), List.filter_cons_of_pos (by decide),
    List.filter_cons_of_pos (by simpa using hpeer), hall]

theorem Addressed.intent_server (h : Addressed ops call []) (hmethod : call.method = "GET") :
    call.intent formParse = some (ProxyIntent.readOrQuery formParse call.uri.query) := by
  obtain ⟨peer, hpeer, hsegments⟩ := h.segments (by simp)
  rw [ForwardCall.intent, ProxyIntent.fromParts, hsegments, hmethod]
  exact if_neg hpeer

theorem Addressed.intent_resources (h : Addressed ops call ["resources"])
    (hmethod : call.method = "GET") :
    call.intent formParse = some (ProxyIntent.listOrQuery formParse call.uri.query) := by
  obtain ⟨peer, hpeer, hsegments⟩ := h.segments (by simp)
  rw [ForwardCall.intent, ProxyIntent.fromParts, hsegments, hmethod]
  exact if_neg hpeer

theorem Addressed.intent_resource (h : Addressed ops call ["resources", raw])
    (hmethod : call.method = "GET") (hraw : raw ≠ "") : call.intent formParse = some .read := by
  obtain ⟨peer, hpeer, hsegments⟩ := h.segments (by simp [hraw])
  rw [ForwardCall.intent, ProxyIntent.fromParts, hsegments, hmethod]
  exact (if_neg hpeer).trans (if_pos (by simpa using hraw))

theorem Addressed.intent_transition {rawName : String}
    (h : Addressed ops call ["resources", raw, "transitions", rawName])
    (hmethod : call.method = "POST") (hraw : raw ≠ "") (hrawName : rawName ≠ "") :
    call.intent formParse = some .invoke := by
  obtain ⟨peer, hpeer, hsegments⟩ := h.segments (by simp [hraw, hrawName])
  rw [ForwardCall.intent, ProxyIntent.fromParts, hsegments, hmethod]
  exact (if_neg hpeer).trans (if_pos (by simp [hraw, hrawName]))

theorem Addressed.intent_metadata (h : Addressed ops call ["meta"])
    (hmethod : call.method = "GET") : call.intent formParse = some .metadata := by
  obtain ⟨peer, hpeer, hsegments⟩ := h.segments (by simp)
  rw [ForwardCall.intent, ProxyIntent.fromParts, hsegments, hmethod]
  exact if_neg hpeer

theorem Addressed.intent_metadataType (h : Addressed ops call ["meta", raw])
    (hmethod : call.method = "GET") (hraw : raw ≠ "") :
    call.intent formParse = some .metadata := by
  obtain ⟨peer, hpeer, hsegments⟩ := h.segments (by simp [hraw])
  rw [ForwardCall.intent, ProxyIntent.fromParts, hsegments, hmethod]
  exact if_neg hpeer

theorem Addressed.intent_events (h : Addressed ops call ["events"])
    (hmethod : call.method = "GET") :
    call.intent formParse =
      if hasQueryParam formParse call.uri.query "topic" then some .subscribe else none := by
  obtain ⟨peer, hpeer, hsegments⟩ := h.segments (by simp)
  rw [ForwardCall.intent, ProxyIntent.fromParts, hsegments, hmethod]
  exact if_neg hpeer

theorem Addressed.intent_unsubscribe (h : Addressed ops call ["events", "unsubscribe"])
    (hmethod : call.method = "POST") : call.intent formParse = some .subscribe := by
  obtain ⟨peer, hpeer, hsegments⟩ := h.segments (by simp)
  rw [ForwardCall.intent, ProxyIntent.fromParts, hsegments, hmethod]
  exact if_neg hpeer

/-- Only the path for events reads the topic. -/
theorem Addressed.isEventsPath_iff (h : Addressed ops call rest) :
    IsEventsPath call.uri.path ↔ rest = ["events"] := by
  obtain ⟨name, hsplit, -, -⟩ := h
  simp [IsEventsPath, hsplit]

end Intents

/-- What the far end runs agrees with what the gateway forwarded it for. -/
theorem Forwards.agrees (hops : ops.Lawful) {calls : HeaderMap → List UInt8 → List (CoreCall ρ)}
    (h : Forwards ops call calls) (headers : HeaderMap) (body : List UInt8) :
    Agrees ops call headers body (calls headers body) := by
  -- the intent and the events path of each route
  cases h with
  | server hpath hmethod hquery =>
    refine agrees_of_params (by decide : ProxyIntent.read ∉ _) ?_ (by simp [hpath.isEventsPath_iff])
    rw [hpath.intent_server hmethod, ProxyIntent.readOrQuery, hasQueryParam_ql hops hquery]
  | resources hpath hmethod hquery =>
    refine agrees_of_params (by decide : ProxyIntent.list ∉ _) ?_ (by simp [hpath.isEventsPath_iff])
    rw [hpath.intent_resources hmethod, ProxyIntent.listOrQuery, hasQueryParam_ql hops hquery]
  | resource hpath hmethod hraw hid =>
    exact agrees_of_reads (hpath.intent_resource hmethod hraw) (by decide)
      (by simp [hpath.isEventsPath_iff]) (by simp [resourceResponse, CoreCall.isRead])
  | transition hpath hmethod hraw hid hrawName hname =>
    exact agrees_of_transition (hpath.intent_transition hmethod hraw hrawName)
      (by simp [hpath.isEventsPath_iff])
  | metadata hpath hmethod =>
    exact agrees_of_reads (hpath.intent_metadata hmethod) (by decide)
      (by simp [hpath.isEventsPath_iff]) (by simp [metaResponse, CoreCall.isRead])
  | metadataType hpath hmethod hraw hty =>
    exact agrees_of_reads (hpath.intent_metadataType hmethod hraw) (by decide)
      (by simp [hpath.isEventsPath_iff]) (by simp [metaResponse, CoreCall.isRead])
  | events hpath hmethod hquery =>
    have htopic := hasQueryParam_topic hops hquery
    refine agrees_of_events hquery ?_ htopic (hpath.isEventsPath_iff.mpr rfl)
    rw [hpath.intent_events hmethod, htopic]
  | unsubscribe hpath hmethod =>
    exact agrees_of_reads (hpath.intent_unsubscribe hmethod) (by decide)
      (by simp [hpath.isEventsPath_iff]) (by simp)

/-- **The intent is what the target does.**  A server of another name forwards the request in turn,
with the same intent. -/
theorem intent_agrees (ops : RouterOps ρ) (hops : ops.Lawful) (gateway : String)
    (req : ServerRequest) (call : ForwardCall) (h : ops.serve gateway req = .forwarded call)
    (hub : String) (headers : HeaderMap) (body : List UInt8) :
    (hub = call.targetName → ∃ calls,
      ops.serve hub (call.arrive headers body) = .answered calls ∧
        Agrees ops call headers body calls) ∧
    (hub ≠ call.targetName → ∃ again,
      ops.serve hub (call.arrive headers body) = .forwarded again ∧
        again.targetName = call.targetName ∧
        again.intent ops.formParse = call.intent ops.formParse) := by
  obtain ⟨-, calls, hcalls⟩ := exists_forwards hops h
  rw [serve_arrive hcalls hub headers body]
  constructor
  · rintro rfl
    exact ⟨calls headers body, if_pos rfl, hcalls.agrees hops headers body⟩
  · intro hne
    exact ⟨_, if_neg (Ne.symm hne), rfl, rfl⟩

end RouterOps

/-! ### Encodings, there and back -/

namespace Str

/-- The bytes of a percent-encoded text. -/
def percentBytes : List Char → List UInt8
  | '%' :: a :: b :: cs => (16 * hexValue a + hexValue b).toUInt8 :: percentBytes cs
  | c :: cs => String.utf8EncodeChar c ++ percentBytes cs
  | [] => []

/-- `urlencoding::decode`. -/
def percentDecode (s : String) : Option String := String.fromUTF8? ⟨(percentBytes s.toList).toArray⟩

/-- The characters stand for one byte. -/
def readsByte (b : UInt8) : List Char → Bool
  | [c] => c != '%' && String.utf8EncodeChar c == [b]
  | ['%', x, y] => (16 * hexValue x + hexValue y).toUInt8 == b
  | _ => false

theorem percentBytes_append {b : UInt8} {cs : List Char} (h : readsByte b cs = true)
    (rest : List Char) : percentBytes (cs ++ rest) = b :: percentBytes rest := by
  unfold readsByte at h
  split at h
  · rename_i c
    simp only [Bool.and_eq_true, bne_iff_ne, beq_iff_eq] at h
    simp [percentBytes, h.1, h.2]
  · simp only [beq_iff_eq] at h
    simp [percentBytes, h]
  · cases h

theorem percentBytes_flatMap {f : UInt8 → List Char}
    (hf : ∀ b, readsByte b (f b) = true) (bytes : List UInt8) :
    percentBytes (bytes.flatMap f) = bytes := by
  induction bytes with
  | nil => rfl
  | cons b rest ih => rw [List.flatMap_cons, percentBytes_append (hf b), ih]

theorem fromUTF8?_asBytes (s : String) : String.fromUTF8? ⟨(asBytes s).toArray⟩ = some s := by
  have hbytes : (⟨(asBytes s).toArray⟩ : ByteArray) = s.toByteArray := rfl
  rw [hbytes, String.fromUTF8?, dif_pos s.isValidUTF8]
  rfl

theorem percentDecode_percentEncode (s : String) : percentDecode (percentEncode s) = some s := by
  rw [percentDecode, percentEncode, String.toList_ofList,
    percentBytes_flatMap (forall_byte (by decide +kernel))]
  exact fromUTF8?_asBytes s

end Str

/-- A name or a value of a query, read back. -/
def formDecode (cs : List Char) : String :=
  (String.fromUTF8? ⟨(Str.percentBytes (cs.map fun c => if c = '+' then ' ' else c)).toArray⟩).getD
    "\uFFFD"

/-- What the serializer writes for a byte reads back, and is no separator. -/
theorem formByte_class (b : UInt8) :
    Str.readsByte b ((formByte b).map fun c => if c = '+' then ' ' else c) = true ∧
      '&' ∉ formByte b ∧ '=' ∉ formByte b := by
  revert b
  exact Str.forall_byte (by decide +kernel)

theorem formDecode_formText (s : String) : formDecode (formText s).toList = s := by
  rw [formDecode, formText, String.toList_ofList, List.map_flatMap,
    Str.percentBytes_flatMap fun b => (formByte_class b).1]
  exact congrArg (Option.getD · "\uFFFD") (Str.fromUTF8?_asBytes s)

def formPairs (s : String) : List (String × String) :=
  ((Str.split '&' s).filter (· ≠ "")).map fun pair =>
    (formDecode (pair.toList.takeWhile (· ≠ '=')),
      formDecode ((pair.toList.dropWhile (· ≠ '=')).drop 1))

/-- One pair of form text is read back as it was written. -/
theorem formPairs_pair (key value : String) :
    formPairs (formSerialize [(key, value)]) = [(key, value)] := by
  -- the serializer writes no `&` and no `=` inside a name or a value
  have hnot : ∀ s, '&' ∉ (formText s).toList ∧ '=' ∉ (formText s).toList := by
    intro s
    simp only [formText, String.toList_ofList, List.mem_flatMap, not_exists, not_and]
    exact ⟨fun b _ => (formByte_class b).2.1, fun b _ => (formByte_class b).2.2⟩
  have htext : formSerialize [(key, value)] = formText key ++ "=" ++ formText value := by
    simp [formSerialize]
  have hlist : (formText key ++ "=" ++ formText value).toList =
      (formText key).toList ++ '=' :: (formText value).toList := by
    simp
  have hamp : '&' ∉ (formText key ++ "=" ++ formText value).toList := by
    rw [hlist]
    simp only [List.mem_append, List.mem_cons, not_or]
    exact ⟨(hnot key).1, by decide, (hnot value).1⟩
  -- so the pair is split at its own `=`
  have hkey : ∀ c ∈ (formText key).toList, decide (c ≠ '=') = true := by
    intro c hc
    apply decide_eq_true
    rintro rfl
    exact (hnot key).2 hc
  rw [htext, formPairs, Str.split_of_not_mem hamp, List.filter_cons_of_pos (by simp),
    List.filter_nil, List.map_singleton, hlist, List.takeWhile_append_of_pos hkey,
    List.dropWhile_append_of_pos hkey]
  simp [formDecode_formText]

/-! ### A hub behind a gateway -/

/-- A router whose JSON bodies are `null`. -/
def textRouter : RouterOps (List (Char × Bool)) where
  topics := .optionals
  http := uriTexts
  appendPair := formPair
  formParse := formPairs
  decode := Str.percentDecode
  fromSlice body := if body = Str.asBytes "null" then some .null else none

theorem lawful_textRouter : textRouter.Lawful where
  decode := by
    rw [show textRouter.decode = Str.percentDecode from rfl]
    exact Str.percentDecode_percentEncode
  noQuery := by decide
  pair := by
    rw [show textRouter.formParse = formPairs from rfl,
      show textRouter.appendPair = formPair from rfl]
    exact formPairs_pair "ql"

/-- A transition of a resource of the hub, sent to the gateway. -/
def goRequest (headers : HeaderMap) (body : List UInt8) : ServerRequest where
  method := "POST"
  uri := {
    schemeStr := none
    pathAndQuery := some "/servers/hub/resources/r1/transitions/go"
    path := "/servers/hub/resources/r1/transitions/go" }
  headers := headers
  body := body

/-- What the gateway forwards. -/
def goCall : ForwardCall := ⟨"hub", "POST", (goRequest [] []).uri⟩

/-- A posted transition is forwarded or run under its resource and name. -/
theorem serve_go {req : ServerRequest} (hmethod : req.method = "POST")
    (hpath : req.uri.path = "/servers/hub/resources/r1/transitions/go") (core : String) :
    textRouter.serve core req = RouterOps.maybeForward core ⟨"hub", "POST", req.uri⟩
      (textRouter.transitionResponse req "r1" "go") := by
  have hrouted : routed req.method req.uri.path =
      some (.serverResourceTransitionPost, ["hub", "r1", "go"]) := by
    rw [hmethod, hpath]
    decide
  have hdecode : ["hub", "r1", "go"].mapM textRouter.decode = some ["hub", "r1", "go"] := by
    have hhub : Str.percentEncode "hub" = "hub" := by decide
    have hid : Str.percentEncode "r1" = "r1" := by decide
    have hgo : Str.percentEncode "go" = "go" := by decide
    have hhub := hhub ▸ Str.percentDecode_percentEncode "hub"
    have hid := hid ▸ Str.percentDecode_percentEncode "r1"
    have hgo := hgo ▸ Str.percentDecode_percentEncode "go"
    simp [textRouter, hhub, hid, hgo]
  unfold RouterOps.serve
  rw [hrouted]
  simp only [hdecode]
  rfl

/-- The header of a JSON body. -/
def jsonHeaders : HeaderMap :=
  [(CONTENT_TYPE, ⟨Str.asBytes "application/json", by decide⟩)]

theorem intent_agrees_go : ∃ calls,
    textRouter.serve "hub" (goCall.arrive jsonHeaders (Str.asBytes "null")) = .answered calls ∧
      textRouter.Agrees goCall jsonHeaders (Str.asBytes "null") calls := by
  have hserve : textRouter.serve "gateway" (goRequest jsonHeaders (Str.asBytes "null")) =
      .forwarded goCall := by
    rw [serve_go rfl rfl, RouterOps.maybeForward, if_neg (by decide)]
    rfl
  exact (RouterOps.intent_agrees textRouter lawful_textRouter "gateway" _ goCall hserve "hub"
    jsonHeaders (Str.asBytes "null")).1 rfl

/-- The intent of a transition without a JSON body is to invoke it, and nothing is invoked. -/
theorem invoke_without_call :
    textRouter.serve "gateway" (goRequest [] []) = .forwarded goCall ∧
      goCall.intent textRouter.formParse = some .invoke ∧
      textRouter.serve "hub" (goCall.arrive [] []) = .answered [] := by
  refine ⟨?_, by decide, ?_⟩
  · rw [serve_go rfl rfl, RouterOps.maybeForward, if_neg (by decide)]
    rfl
  · rw [serve_go rfl rfl, RouterOps.maybeForward, if_pos rfl]
    rfl

end Boardwalk
