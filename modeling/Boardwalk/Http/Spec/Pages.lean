import Boardwalk.Http.Ingress
import Boardwalk.Http.Pages
import Boardwalk.Http.Spec.HrefUrls
import Boardwalk.Http.Spec.Routes
import Boardwalk.Lib.Reference

/-!
# What a page offers, the gate lets through

A device renders its pages for the capabilities and under the bases that its gateway states.  Who
then uses a control of the page is back at the gateway, with another path.  Whatever is routed there
is forwarded to the device and passes the gate of its capabilities (`offered_controls_pass`); what
is not routed is the own link of a server's page, and what has a name that means something in a path
(`offered_controls_routed`).
-/

namespace Boardwalk

open Reference

/-! ### URLs -/

/-- `url::Url`, with the parts that go into a request. -/
structure UrlParts (υ : Type) extends UrlBuild υ where
  path : υ → String
  query : υ → Option String

/-- The schemes whose URLs have a host and segments. -/
def webSchemes : List String := ["http", "https", "ws", "wss"]

/-- A text that is a host and no more, where it is one. -/
def IsHostText (host : String) : Prop :=
  host ≠ "" ∧ ∀ c ∈ host.toList, c ∉ "/\\?#\t\n\r".toList

/-- The documented behaviour of `url::Url` on paths, and of `form_urlencoded`. -/
structure UrlParts.Lawful {υ : Type} (urls : UrlParts υ) (formParse : FormParse) : Prop where
  parse : ∀ scheme host ref url, scheme ∈ webSchemes → IsHostText host →
    isPathReference ref = true → urls.parse (scheme ++ "://" ++ host ++ "/" ++ ref) = some url →
      urls.scheme url = scheme ∧
      Str.split '/' (urls.path url) = "" :: resolve [] (Str.split '/' ref)
  join : ∀ base ref url dir, urls.scheme base ∈ webSchemes → isPathReference ref = true →
    Str.split '/' (urls.path base) = "" :: dir → urls.join base ref = some url →
      Str.split '/' (urls.path url) = "" :: resolve dir.dropLast (Str.split '/' ref) ∧
      urls.query url = none
  appendPair : ∀ url key value, urls.path (urls.appendPair url key value) = urls.path url ∧
    formParse ((urls.query (urls.appendPair url key value)).getD "") =
      formParse ((urls.query url).getD "") ++ [(key, value)]

/-! ### Controls -/

namespace Siren

variable {υ : Type}

/-- What a client can use of a page.  The fields are the ones of a query. -/
structure Control (υ : Type) where
  method : String
  href : υ
  fields : List String := []

def Link.control (l : Link υ) : Control υ := { method := "GET", href := l.href }

/-- The values of a form that is not posted are put into the query. -/
def Action.control (a : Action υ) : Control υ where
  method := a.method
  href := a.href
  fields := if a.method = "GET" then a.fields.map (·.name) else []

/-- The controls of the links and of the actions. -/
def controlsOf (links : List (Link υ)) (actions : List (Action υ)) : List (Control υ) :=
  links.map Link.control ++ actions.map Action.control

/-- The controls of a page and of the entities on it. -/
def Entity.controls (e : Entity υ) : List (Control υ) :=
  controlsOf e.links e.actions ++ e.entities.flatMap fun sub => controlsOf sub.links sub.actions

/-- Where the control leads a client that fills in the values. -/
def Control.url (urls : UrlParts υ) (c : Control υ) (values : String → String) : υ :=
  c.fields.foldl (fun url name => urls.appendPair url name (values name)) c.href

/-- The request that the client makes. -/
def Control.request (urls : UrlParts υ) (c : Control υ) (values : String → String)
    (schemeStr : Option String) (headers : HeaderMap) (body : List UInt8) : ServerRequest where
  method := c.method
  uri := {
    schemeStr := schemeStr
    path := urls.path (c.url urls values)
    pathAndQuery := some (urls.path (c.url urls values) ++
      ((urls.query (c.url urls values)).map ("?" ++ ·)).getD "") }
  headers := headers
  body := body

end Siren

/-! ### Destinations -/

/-- What a control is for. -/
inductive Destination where
  | server (name : String)
  | resources
  | search (ql : String)
  | resource (id : String)
  | transition (id name : String)
  | «meta»
  | metaType (ty : String)
  | events (topic : String)

namespace Destination

def method : Destination → String
  | transition _ _ => "POST"
  | _ => "GET"

/-- The path, from the base of the links. -/
def segments : Destination → List String
  | server name => ["servers", Str.percentEncode name]
  | resources => ["resources"]
  | search _ => ["resources"]
  | resource id => ["resources", Str.percentEncode id]
  | transition id name =>
    ["resources", Str.percentEncode id, "transitions", Str.percentEncode name]
  | «meta» => ["meta"]
  | metaType ty => ["meta", Str.percentEncode ty]
  | events _ => ["events"]

/-- The parameters of the query. -/
def pairs : Destination → List (String × String)
  | search ql => [("ql", ql)]
  | events topic => [("topic", topic)]
  | _ => []

/-- What a gateway that forwards the request takes it for. -/
def intent : Destination → ProxyIntent
  | server _ => .read
  | resources => .list
  | search _ => .query
  | resource _ => .read
  | transition _ _ => .invoke
  | «meta» => .metadata
  | metaType _ => .metadata
  | events _ => .subscribe

/-- The names in the path. -/
def names : Destination → List String
  | server name => [name]
  | resource id => [id]
  | transition id name => [id, name]
  | metaType ty => [ty]
  | _ => []

end Destination

/-- A name that means nothing else as a segment of a path. -/
def IsOrdinaryName (name : String) : Prop := name ≠ "" ∧ name ≠ "." ∧ name ≠ ".."

instance (name : String) : Decidable (IsOrdinaryName name) :=
  inferInstanceAs (Decidable (_ ∧ _ ∧ _))

/-! ### Names in a path -/

namespace Str

theorem percentEncode_eq_empty_iff {s : String} : percentEncode s = "" ↔ s = "" := by
  constructor
  · intro h
    have hdecode := percentDecode_percentEncode s
    rw [h] at hdecode
    have hempty : percentDecode "" = some "" := by decide
    exact Option.some.inj (hdecode.symm.trans hempty)
  · rintro rfl
    decide

/-- Spellings that decode to a text which is encoded differently are no encoded names. -/
theorem percentEncode_mem_iff {spellings : List String} {text s : String}
    (hdecode : ∀ t ∈ spellings, percentDecode t = some text)
    (hmem : percentEncode text ∈ spellings) : percentEncode s ∈ spellings ↔ s = text := by
  constructor
  · intro h
    have hs := hdecode _ h
    rw [percentDecode_percentEncode] at hs
    exact Option.some.inj hs
  · rintro rfl
    exact hmem

theorem percentEncode_mem_dots_iff {s : String} : percentEncode s ∈ dots ↔ s = "." :=
  percentEncode_mem_iff (by decide) (by decide)

theorem percentEncode_mem_dotDots_iff {s : String} : percentEncode s ∈ dotDots ↔ s = ".." :=
  percentEncode_mem_iff (by decide +kernel) (by decide)

theorem isPlain_percentEncode {s : String} (h : IsOrdinaryName s) : IsPlain (percentEncode s) :=
  ⟨fun hs => h.2.2 (percentEncode_mem_dotDots_iff.mp hs),
    fun hs => h.2.1 (percentEncode_mem_dots_iff.mp hs)⟩

end Str

/-- Where a name is entered in a path. -/
theorem enter_percentEncode (dir : List String) (s : String) : enter dir (Str.percentEncode s) =
    if s = ".." then dir.dropLast else if s = "." then dir else dir ++ [Str.percentEncode s] := by
  simp only [enter, Str.percentEncode_mem_dots_iff, Str.percentEncode_mem_dotDots_iff]

/-- Where a path ends in a name. -/
theorem finish_percentEncode (dir : List String) (s : String) : finish dir (Str.percentEncode s) =
    if s = ".." then dir.dropLast ++ [""] else if s = "." then dir ++ [""]
    else dir ++ [Str.percentEncode s] := by
  simp only [finish, Str.percentEncode_mem_dots_iff, Str.percentEncode_mem_dotDots_iff]

/-! ### Following a control -/

/-- The request is for the destination, on a server whose path is `dir`. -/
structure Asks (formParse : FormParse) (dir : List String) (d : Destination)
    (req : ServerRequest) : Prop where
  method : req.method = d.method
  path : Str.split '/' req.uri.path = "" :: resolve dir d.segments
  pairs : formParse (req.uri.query.getD "") = d.pairs

namespace Siren.Control

variable {υ : Type} {urls : UrlParts υ} {formParse : FormParse} {dir : List String}
  {values : String → String} {c : Control υ} {d : Destination}

/-- With these values, the control is for the destination. -/
structure LeadsTo (urls : UrlParts υ) (formParse : FormParse) (dir : List String)
    (values : String → String) (c : Control υ) (d : Destination) : Prop where
  method : c.method = d.method
  path : Str.split '/' (urls.path c.href) = "" :: resolve dir d.segments
  pairs : formParse ((urls.query c.href).getD "") ++
    c.fields.map (fun name => (name, values name)) = d.pairs

/-- The values go into the query and leave the path. -/
theorem path_url (hurls : urls.Lawful formParse) (c : Control υ) (values : String → String) :
    urls.path (c.url urls values) = urls.path c.href ∧
      formParse ((urls.query (c.url urls values)).getD "") =
        formParse ((urls.query c.href).getD "") ++
          c.fields.map fun name => (name, values name) := by
  unfold url
  generalize c.href = url
  induction c.fields generalizing url with
  | nil => exact ⟨rfl, (List.append_nil _).symm⟩
  | cons name rest ih =>
    obtain ⟨hpath, hpairs⟩ := ih (urls.appendPair url name (values name))
    obtain ⟨hpath', hpairs'⟩ := hurls.appendPair url name (values name)
    rw [List.foldl_cons]
    refine ⟨hpath.trans hpath', ?_⟩
    rw [hpairs, hpairs', List.map_cons, List.append_assoc, List.singleton_append]

/-- No path segment of a destination has a question mark. -/
theorem question_not_mem_segments (d : Destination) : ∀ s ∈ d.segments, '?' ∉ s.toList := by
  have hname := Str.question_not_mem_percentEncode
  have htext : ∀ t ∈ ["servers", "resources", "transitions", "meta", "events"],
      '?' ∉ t.toList := by
    decide
  simp only [List.forall_mem_cons] at htext
  obtain ⟨hservers, hresources, htransitions, hmeta, hevents, hnil⟩ := htext
  cases d <;> simp only [Destination.segments, List.forall_mem_cons]
  case server name => exact ⟨hservers, hname name, hnil⟩
  case resources => exact ⟨hresources, hnil⟩
  case search ql => exact ⟨hresources, hnil⟩
  case resource id => exact ⟨hresources, hname id, hnil⟩
  case transition id name => exact ⟨hresources, hname id, htransitions, hname name, hnil⟩
  case «meta» => exact ⟨hmeta, hnil⟩
  case metaType ty => exact ⟨hmeta, hname ty, hnil⟩
  case events topic => exact ⟨hevents, hnil⟩

/-- The path has no query in it. -/
theorem question_not_mem_path (hdir : ∀ s ∈ dir, '?' ∉ s.toList) {path : String}
    (hpath : Str.split '/' path = "" :: resolve dir d.segments) : '?' ∉ path.toList := by
  rw [← Str.intercalate_split '/' path, hpath]
  intro h
  rcases Str.mem_toList_intercalate h with h | ⟨s, hs, h⟩
  · exact absurd h (by decide)
  · rcases List.mem_cons.mp hs with rfl | hs
    · cases h
    · rcases mem_resolve hs with hs | hs | rfl
      · exact hdir s hs h
      · exact question_not_mem_segments d s hs h
      · cases h

/-- Who uses the control asks for its destination. -/
theorem LeadsTo.asks (hurls : urls.Lawful formParse) (hdir : ∀ s ∈ dir, '?' ∉ s.toList)
    (h : c.LeadsTo urls formParse dir values d) (schemeStr : Option String) (headers : HeaderMap)
    (body : List UInt8) :
    Asks formParse dir d (c.request urls values schemeStr headers body) := by
  obtain ⟨hpath, hpairs⟩ := path_url hurls c values
  have hsplit : Str.split '/' (urls.path (c.url urls values)) = "" :: resolve dir d.segments := by
    rw [hpath, h.path]
  have hquestion := question_not_mem_path hdir hsplit
  have hquery : (c.request urls values schemeStr headers body).uri.query =
      urls.query (c.url urls values) := by
    show hrefQuery (urls.path (c.url urls values) ++
      ((urls.query (c.url urls values)).map ("?" ++ ·)).getD "") = _
    cases urls.query (c.url urls values) with
    | none =>
      rw [Option.map_none, Option.getD_none, String.append_empty, hrefQuery,
        TopicPattern.splitSuffix_of_not_mem hquestion]
    | some query =>
      rw [Option.map_some, Option.getD_some, ← String.append_assoc, hrefQuery,
        TopicPattern.splitSuffix_append hquestion]
  refine ⟨h.method, hsplit, ?_⟩
  rw [hquery, hpairs, h.pairs]

end Siren.Control

/-! ### At the gateway -/

namespace Destination

/-- The destination is one that a gateway forwards a request for. -/
def isForwarded : Destination → Bool
  | server _ => false
  | _ => true

/-- The handler of a destination on `target`, and its parameters. -/
def route (target : String) : Destination → Option (Handler × List String)
  | server _ => none
  | resources => some (.serverResourcesGet, [target])
  | search _ => some (.serverResourcesGet, [target])
  | resource id => some (.serverResourceGet, [target, id])
  | transition id name => some (.serverResourceTransitionPost, [target, id, name])
  | «meta» => some (.metaGet, [target])
  | metaType ty => some (.metaTypeGet, [target, ty])
  | events _ => some (.serverEventsStream, [target])

/-- The path segments of a destination are plain, if its names are ordinary. -/
theorem isPlain_segments {d : Destination} (h : ∀ name ∈ d.names, IsOrdinaryName name) :
    ∀ s ∈ d.segments, IsPlain s := by
  have htext : ∀ t ∈ ["servers", "resources", "transitions", "meta", "events"], IsPlain t := by
    decide
  simp only [List.forall_mem_cons] at htext
  obtain ⟨hservers, hresources, htransitions, hmeta, hevents, hnil⟩ := htext
  have hname : ∀ name ∈ d.names, IsPlain (Str.percentEncode name) :=
    fun name hname => Str.isPlain_percentEncode (h name hname)
  cases d <;> simp only [segments, List.forall_mem_cons] <;>
    simp only [names, List.forall_mem_cons] at hname
  case server => exact ⟨hservers, hname.1, hnil⟩
  case resources => exact ⟨hresources, hnil⟩
  case search => exact ⟨hresources, hnil⟩
  case resource => exact ⟨hresources, hname.1, hnil⟩
  case transition => exact ⟨hresources, hname.1, htransitions, hname.2.1, hnil⟩
  case «meta» => exact ⟨hmeta, hnil⟩
  case metaType => exact ⟨hmeta, hname.1, hnil⟩
  case events => exact ⟨hevents, hnil⟩

end Destination

theorem QueryParams.ofPairs_nil : QueryParams.ofPairs [] = some ⟨none, none⟩ := rfl

theorem QueryParams.ofPairs_ql (ql : String) :
    QueryParams.ofPairs [("ql", ql)] = some ⟨some ql, none⟩ := by
  simp [QueryParams.ofPairs, queryParam]

theorem EventsQuery.ofPairs_topic (topic : String) :
    EventsQuery.ofPairs [("topic", topic)] = some { topic := some topic } := by
  simp [EventsQuery.ofPairs, queryParam]

namespace Asks

variable {ρ : Type} {ops : RouterOps ρ} {formParse : FormParse} {gateway target : String}
  {d : Destination} {req : ServerRequest}

/-- What a handler makes of a request for another server. -/
theorem serve_eq_forwarded {handler : Handler} {raw params : List String}
    (hrouted : routed req.method req.uri.path = some (handler, raw))
    (hparams : raw.mapM ops.decode = some params)
    (hhandle : ∃ calls, ops.handle gateway req handler params =
      RouterOps.maybeForward gateway ⟨target, req.method, req.uri⟩ calls)
    (hne : target ≠ gateway) :
    ops.serve gateway req = .forwarded ⟨target, req.method, req.uri⟩ := by
  obtain ⟨calls, hhandle⟩ := hhandle
  unfold RouterOps.serve
  rw [hrouted]
  simp only [hparams, hhandle]
  exact if_neg hne

/-- Names that mean nothing else in a path are the parameters of the route. -/
theorem routed_eq (h : Asks formParse ["servers", Str.percentEncode target] d req)
    (htarget : target ≠ "") (hnames : ∀ name ∈ d.names, IsOrdinaryName name) :
    routed req.method req.uri.path =
      (d.route target).map fun r => (r.1, r.2.map Str.percentEncode) := by
  -- encoded names are not empty, so each is a segment of its own
  have hraw : Str.percentEncode target ≠ "" := mt Str.percentEncode_eq_empty_iff.mp htarget
  have hname : ∀ name ∈ d.names, Str.percentEncode name ≠ "" :=
    fun name hmem => mt Str.percentEncode_eq_empty_iff.mp (hnames name hmem).1
  have hmethod := h.method
  have hsplit : Str.split '/' req.uri.path =
      "" :: (["servers", Str.percentEncode target] ++ d.segments) := by
    -- plain segments resolve to themselves
    rw [h.path, resolve_of_isPlain (Destination.isPlain_segments hnames)]
  cases d with
  | server name =>
    simp [routed, routes, matchSegments, hsplit, Destination.segments, Destination.route]
  | resource id =>
    have hid : Str.percentEncode id ≠ "" := hname id List.mem_cons_self
    simp [routed, routes, matchSegments, MethodFilter.takes, hsplit, hmethod, hraw, hid,
      Destination.segments, Destination.method, Destination.route]
  | transition id name =>
    have hid : Str.percentEncode id ≠ "" := hname id (by simp [Destination.names])
    have hname : Str.percentEncode name ≠ "" := hname name (by simp [Destination.names])
    simp [routed, routes, matchSegments, MethodFilter.takes, hsplit, hmethod, hraw, hid, hname,
      Destination.segments, Destination.method, Destination.route]
  | metaType ty =>
    have hty : Str.percentEncode ty ≠ "" := hname ty List.mem_cons_self
    simp [routed, routes, matchSegments, MethodFilter.takes, hsplit, hmethod, hraw, hty,
      Destination.segments, Destination.method, Destination.route]
  | _ =>
    simp [routed, routes, matchSegments, MethodFilter.takes, hsplit, hmethod, hraw,
      Destination.segments, Destination.method, Destination.route]

theorem mapM_decode (hops : ops.Lawful) (params : List String) :
    (params.map Str.percentEncode).mapM ops.decode = some params := by
  induction params with
  | nil => rfl
  | cons param rest ih => simp [hops.decode, ih]

/-- **Who asks for a destination with ordinary names** is routed, forwarded, and taken for that. -/
theorem forwarded (hops : ops.Lawful)
    (h : Asks ops.formParse ["servers", Str.percentEncode target] d req)
    (htarget : target ≠ "") (hne : target ≠ gateway) (hd : d.isForwarded = true)
    (hnames : ∀ name ∈ d.names, IsOrdinaryName name) :
    (routed req.method req.uri.path).isSome = true ∧
      ops.serve gateway req = .forwarded ⟨target, req.method, req.uri⟩ ∧
      ForwardCall.intent ops.formParse ⟨target, req.method, req.uri⟩ = some d.intent := by
  have hraw : Str.percentEncode target ≠ "" := mt Str.percentEncode_eq_empty_iff.mp htarget
  have hmethod := h.method
  have hsplit : Str.split '/' req.uri.path =
      "" :: (["servers", Str.percentEncode target] ++ d.segments) := by
    rw [h.path, resolve_of_isPlain (Destination.isPlain_segments hnames)]
  -- the query the gate reads is the destination's own
  have hintent : ∀ key, hasQueryParam ops.formParse req.uri.query key =
      d.pairs.any fun kv => kv.1 == key := by
    intro key
    rw [RouterOps.hasQueryParam_eq hops, h.pairs]
  have hname : ∀ name ∈ d.names, Str.percentEncode name ≠ "" :=
    fun name hmem => mt Str.percentEncode_eq_empty_iff.mp (hnames name hmem).1
  have hrouted := h.routed_eq htarget hnames
  -- one route for each destination
  cases d with
  | server name => cases hd
  | resources =>
    have hquery : ops.query req QueryParams.ofPairs = some ⟨none, none⟩ := by
      rw [RouterOps.query, h.pairs]
      exact QueryParams.ofPairs_nil
    refine ⟨by rw [hrouted]; rfl,
      serve_eq_forwarded hrouted (mapM_decode hops [target]) ?_ hne, ?_⟩
    · rw [RouterOps.handle, hquery, hmethod]
      exact ⟨_, rfl⟩
    · simp [ForwardCall.intent, ProxyIntent.fromParts, ProxyIntent.listOrQuery, hsplit, hmethod,
        hraw, hintent, Destination.segments, Destination.method, Destination.pairs,
        Destination.intent]
  | search ql =>
    have hquery : ops.query req QueryParams.ofPairs = some ⟨some ql, none⟩ := by
      rw [RouterOps.query, h.pairs]
      exact QueryParams.ofPairs_ql ql
    refine ⟨by rw [hrouted]; rfl,
      serve_eq_forwarded hrouted (mapM_decode hops [target]) ?_ hne, ?_⟩
    · rw [RouterOps.handle, hquery, hmethod]
      exact ⟨_, rfl⟩
    · simp [ForwardCall.intent, ProxyIntent.fromParts, ProxyIntent.listOrQuery, hsplit, hmethod,
        hraw, hintent, Destination.segments, Destination.method, Destination.pairs,
        Destination.intent]
  | resource id =>
    have hid : Str.percentEncode id ≠ "" := hname id List.mem_cons_self
    refine ⟨by rw [hrouted]; rfl,
      serve_eq_forwarded hrouted (mapM_decode hops [target, id]) ?_ hne, ?_⟩
    · rw [RouterOps.handle, hmethod]
      exact ⟨_, rfl⟩
    · simp [ForwardCall.intent, ProxyIntent.fromParts, hsplit, hmethod, hraw, hid,
        Destination.segments, Destination.method, Destination.intent]
  | transition id name =>
    have hid : Str.percentEncode id ≠ "" := hname id (by simp [Destination.names])
    have hname : Str.percentEncode name ≠ "" := hname name (by simp [Destination.names])
    refine ⟨by rw [hrouted]; rfl,
      serve_eq_forwarded hrouted (mapM_decode hops [target, id, name]) ?_ hne, ?_⟩
    · rw [RouterOps.handle, hmethod]
      exact ⟨_, rfl⟩
    · simp [ForwardCall.intent, ProxyIntent.fromParts, hsplit, hmethod, hraw, hid, hname,
        Destination.segments, Destination.method, Destination.intent]
  | «meta» =>
    refine ⟨by rw [hrouted]; rfl,
      serve_eq_forwarded hrouted (mapM_decode hops [target]) ?_ hne, ?_⟩
    · rw [RouterOps.handle, hmethod]
      exact ⟨_, rfl⟩
    · simp [ForwardCall.intent, ProxyIntent.fromParts, hsplit, hmethod, hraw,
        Destination.segments, Destination.method, Destination.intent]
  | metaType ty =>
    have hty : Str.percentEncode ty ≠ "" := hname ty List.mem_cons_self
    refine ⟨by rw [hrouted]; rfl,
      serve_eq_forwarded hrouted (mapM_decode hops [target, ty]) ?_ hne, ?_⟩
    · rw [RouterOps.handle, hmethod]
      exact ⟨_, rfl⟩
    · simp [ForwardCall.intent, ProxyIntent.fromParts, hsplit, hmethod, hraw, hty,
        Destination.segments, Destination.method, Destination.intent]
  | events topic =>
    have hquery : ops.query req EventsQuery.ofPairs = some { topic := some topic } := by
      rw [RouterOps.query, h.pairs]
      exact EventsQuery.ofPairs_topic topic
    refine ⟨by rw [hrouted]; rfl,
      serve_eq_forwarded hrouted (mapM_decode hops [target]) ?_ hne, ?_⟩
    · rw [RouterOps.handle, hquery, hmethod]
      exact ⟨_, rfl⟩
    · simp [ForwardCall.intent, ProxyIntent.fromParts, hsplit, hmethod, hraw, hintent,
        Destination.segments, Destination.method, Destination.pairs, Destination.intent]

theorem not_isOrdinaryName_iff {name : String} :
    ¬ IsOrdinaryName name ↔ name = "" ∨ name = "." ∨ name = ".." := by
  unfold IsOrdinaryName
  tauto

/-- No parameter is empty. -/
theorem matchSegments_of_empty {pattern : List RouteSegment} {segments : List String}
    (hpattern : ∀ segment ∈ pattern, segment ≠ .text "") (h : "" ∈ segments) :
    -- an empty segment matches no parameter and no fixed text
    matchSegments pattern segments = none := by
  induction pattern generalizing segments with
  | nil =>
    cases segments with
    | nil => cases h
    | cons s rest => rfl
  | cons part pattern ih =>
    -- on the pattern: the empty segment is the first one or a later one
    have hrest := fun segment hmem => hpattern segment (List.mem_cons_of_mem part hmem)
    cases segments with
    | nil => cases h
    | cons s rest =>
      cases part with
      | text text =>
        rw [matchSegments]
        split
        · rename_i heq
          refine ih hrest ((List.mem_cons.mp h).resolve_left fun hs => ?_)
          exact hpattern (.text text) List.mem_cons_self (by rw [← heq, ← hs])
        · rfl
      | param =>
        rw [matchSegments]
        split
        · rfl
        · rename_i hne
          rw [ih hrest ((List.mem_cons.mp h).resolve_left fun hs => hne hs.symm), Option.map_none]

/-- Only the root's path has an empty segment. -/
theorem routed_of_empty {method path : String} {segments : List String}
    (hsplit : Str.split '/' path = "" :: segments) (h : "" ∈ segments) (hroot : segments ≠ [""]) :
    routed method path = none := by
  -- only the root has an empty segment, and it has no other
  have hpattern : ∀ route ∈ routes, route.segments = [.text ""] ∨
      ∀ segment ∈ route.segments, segment ≠ .text "" := by
    decide
  rw [routed, hsplit]
  refine List.findSome?_eq_none_iff.mpr fun route hroute => ?_
  split
  · rw [Option.map_eq_none_iff]
    rcases hpattern route hroute with hsegments | hsegments
    · rw [hsegments]
      cases segments with
      | nil => rfl
      | cons s rest =>
        rw [matchSegments]
        split
        · rename_i hs
          cases rest with
          | nil => exact absurd (by rw [hs]) hroot
          | cons => rfl
        · rfl
    · exact matchSegments_of_empty hsegments h
  · rfl

/-- A path that ends in a name of another meaning leads into a directory. -/
theorem routed_of_last {method path name : String} {dir : List String}
    (hsplit : Str.split '/' path = "" :: finish dir (Str.percentEncode name))
    (hdir : 2 ≤ dir.length) (hname : ¬ IsOrdinaryName name) : routed method path = none := by
  -- the three names a path cannot carry: empty, `.` and `..`
  have hempty : Str.percentEncode "" = "" := by decide
  have hroot : ∀ (front : List String) (s : String), 0 < front.length → front ++ [s] ≠ [""] := by
    intro front s hfront h
    have hlength := congrArg List.length h
    rw [List.length_append, List.length_singleton, List.length_singleton] at hlength
    omega
  rw [finish_percentEncode] at hsplit
  rcases not_isOrdinaryName_iff.mp hname with rfl | rfl | rfl
  · apply routed_of_empty hsplit
    · simp [hempty]
    · exact hroot dir _ (by omega)
  · apply routed_of_empty hsplit
    · simp
    · exact hroot dir _ (by omega)
  · apply routed_of_empty hsplit
    · simp
    · apply hroot
      rw [List.length_dropLast]
      omega

/-- **A name that means something in a path** leads to no route, and neither does a server of the
server. -/
theorem unrouted {method path : String}
    (hpath : Str.split '/' path = "" :: resolve ["servers", Str.percentEncode target] d.segments)
    (hd : (d.isForwarded = true ∧ ∃ name ∈ d.names, ¬ IsOrdinaryName name) ∨
      ∃ name, IsOrdinaryName name ∧ d = .server name) :
    -- a fixed segment is entered as it stands
    routed method path = none := by
  have hplain : ∀ t ∈ ["resources", "transitions", "meta"], ∀ dir, enter dir t = dir ++ [t] := by
    intro t ht dir
    apply enter_of_isPlain
    revert t
    decide
  simp only [List.forall_mem_cons] at hplain
  obtain ⟨hresources, htransitions, hmeta, -⟩ := hplain
  -- each destination has its name at the end, or in the id of a transition
  rcases hd with ⟨hd, name, hmem, hname⟩ | ⟨name, hname, rfl⟩
  · cases d with
    | server name => cases hd
    | resources => cases hmem
    | search ql => cases hmem
    | «meta» => cases hmem
    | events topic => cases hmem
    | resource id =>
      rw [Destination.names, List.mem_singleton] at hmem
      rw [Destination.segments, resolve, resolve, hresources, ← hmem] at hpath
      exact routed_of_last hpath (by simp) hname
    | metaType ty =>
      rw [Destination.names, List.mem_singleton] at hmem
      rw [Destination.segments, resolve, resolve, hmeta, ← hmem] at hpath
      exact routed_of_last hpath (by simp) hname
    | transition id transition =>
      rw [Destination.segments, resolve, resolve, resolve, resolve, hresources, htransitions]
        at hpath
      by_cases hlast : IsOrdinaryName transition
      · -- then it is the id, and what is left is no path of a transition
        have hid : ¬ IsOrdinaryName id := by
          simp only [Destination.names, List.mem_cons, List.not_mem_nil, or_false] at hmem
          rcases hmem with rfl | rfl
          · exact hname
          · exact absurd hlast hname
        rw [finish_of_isPlain (Str.isPlain_percentEncode hlast), enter_percentEncode] at hpath
        have hempty : Str.percentEncode "" = "" := by decide
        rcases not_isOrdinaryName_iff.mp hid with rfl | rfl | rfl
        · exact routed_of_empty hpath (by simp [hempty]) (by simp)
        · simp [routed, routes, hpath, matchSegments]
        · simp [routed, routes, hpath, matchSegments]
      · apply routed_of_last hpath _ hlast
        unfold enter
        split_ifs <;> simp
  · rw [resolve_of_isPlain] at hpath
    · simp [routed, routes, hpath, matchSegments, Destination.segments]
    · apply Destination.isPlain_segments
      simpa [Destination.names] using hname

end Asks

/-! ### The links of a page -/

/-- A reference that ends in a name. -/
theorem split_name (pre name : String) :
    Str.split '/' (pre ++ String.singleton '/' ++ Str.percentEncode name) =
      Str.split '/' pre ++ [Str.percentEncode name] := by
  have hslash : '/' ∉ (Str.percentEncode name).toList := fun h =>
    absurd (Str.isEncodedChar_of_mem_percentEncode h) (by decide)
  rw [Str.split_append_cons, Str.split_of_not_mem hslash]

namespace Render

open Siren

/-- The names of a resource mean nothing else in a path. -/
structure Snapshot.Ordinary (snap : Snapshot) : Prop where
  id : IsOrdinaryName snap.id
  kind : IsOrdinaryName snap.kind
  transitions : ∀ t ∈ snap.transitions, IsOrdinaryName t.spec.name

/-- The base is the one of a server whose path is `dir`. -/
def IsBaseOf {υ : Type} (urls : UrlParts υ) (dir : List String) (base : υ) : Prop :=
  urls.scheme base ∈ webSchemes ∧ Str.split '/' (urls.path base) = "" :: (dir ++ [""])

/-- A page as it is used: what its links are made of, what a client fills in, and whether the names
on it mean nothing else in a path. -/
structure View (υ : Type) where
  urls : UrlParts υ
  formParse : FormParse
  dir : List String
  hrefs : Hrefs υ
  policy : RenderPolicy
  values : String → String
  ordinary : Prop

namespace View

variable {υ : Type} {v : View υ} {url : υ}

/-- Laws of the libraries, and the bases of the links. -/
structure Sound (v : View υ) : Prop where
  urls : v.urls.Lawful v.formParse
  noQuery : v.formParse "" = []
  http : IsBaseOf v.urls v.dir v.hrefs.http
  ws : IsBaseOf v.urls v.dir v.hrefs.ws

/-- The control is the own link of the server, or for what the page may offer. -/
def Vouches (v : View υ) (c : Control υ) : Prop :=
  (v.hrefs.serverUrl v.urls.toUrlBuild = some c.href ∧
    c.LeadsTo v.urls v.formParse v.dir v.values (.server v.hrefs.server)) ∨
  ∃ d, c.LeadsTo v.urls v.formParse v.dir v.values d ∧ d.isForwarded = true ∧
    v.policy.capabilities.contains d.intent.requiredCapability = true ∧
    (v.ordinary → ∀ name ∈ d.names, IsOrdinaryName name)

/-- A reference that is joined to a base. -/
theorem join {base : υ} {ref : String} {segments : List String} (hv : v.Sound)
    (hbase : IsBaseOf v.urls v.dir base) (href : isPathReference ref = true)
    (hsplit : Str.split '/' ref = segments) (hjoin : v.urls.join base ref = some url) :
    Str.split '/' (v.urls.path url) = "" :: resolve v.dir segments ∧
      v.formParse ((v.urls.query url).getD "") = [] := by
  obtain ⟨hpath, hquery⟩ := hv.urls.join base ref url (v.dir ++ [""]) hbase.1 href hbase.2 hjoin
  rw [List.dropLast_concat, hsplit] at hpath
  refine ⟨hpath, ?_⟩
  rw [hquery]
  exact hv.noQuery

theorem leadsTo_server (hv : v.Sound) (h : v.hrefs.serverUrl v.urls.toUrlBuild = some url) :
    Control.LeadsTo v.urls v.formParse v.dir v.values { method := "GET", href := url }
      (.server v.hrefs.server) := by
  obtain ⟨hpath, hpairs⟩ := join hv hv.http (isPathReference_encode (by decide) _)
    (split_name "servers" _) h
  exact ⟨rfl, hpath, by rw [hpairs]; rfl⟩

theorem leadsTo_resources (hv : v.Sound) (h : v.hrefs.resourcesUrl v.urls.toUrlBuild = some url) :
    Control.LeadsTo v.urls v.formParse v.dir v.values { method := "GET", href := url }
      .resources := by
  obtain ⟨hpath, hpairs⟩ := join hv hv.http (by decide) (Str.split_of_not_mem (by decide)) h
  exact ⟨rfl, hpath, by rw [hpairs]; rfl⟩

/-- The form of a query. -/
theorem leadsTo_query (hv : v.Sound) (h : v.hrefs.resourcesUrl v.urls.toUrlBuild = some url) :
    Control.LeadsTo v.urls v.formParse v.dir v.values
      { method := "GET", href := url, fields := ["ql"] } (.search (v.values "ql")) := by
  obtain ⟨hpath, hpairs⟩ := join hv hv.http (by decide) (Str.split_of_not_mem (by decide)) h
  exact ⟨rfl, hpath, by rw [hpairs]; rfl⟩

/-- A search link leads to the search for its query. -/
theorem leadsTo_search {ql : String} (hv : v.Sound)
    (h : v.hrefs.searchUrl v.urls.toUrlBuild ql = some url) :
    Control.LeadsTo v.urls v.formParse v.dir v.values { method := "GET", href := url }
      (.search ql) := by
  obtain ⟨base, hbase, rfl⟩ := Option.map_eq_some_iff.mp h
  obtain ⟨hpath, hpairs⟩ := join hv hv.http (by decide) (Str.split_of_not_mem (by decide)) hbase
  obtain ⟨hpath', hpairs'⟩ := hv.urls.appendPair base "ql" ql
  refine ⟨rfl, ?_, ?_⟩
  · show Str.split '/' (v.urls.path (v.urls.appendPair base "ql" ql)) = _
    rw [hpath', hpath, Destination.segments]
  · show v.formParse ((v.urls.query (v.urls.appendPair base "ql" ql)).getD "") ++ [] = _
    rw [hpairs', hpairs]
    rfl

theorem leadsTo_resource {id : String} (hv : v.Sound)
    (h : v.hrefs.resourceUrl v.urls.toUrlBuild id = some url) :
    Control.LeadsTo v.urls v.formParse v.dir v.values { method := "GET", href := url }
      (.resource id) := by
  obtain ⟨hpath, hpairs⟩ := join hv hv.http (isPathReference_encode (by decide) _)
    (split_name "resources" _) h
  exact ⟨rfl, hpath, by rw [hpairs]; rfl⟩

/-- A transition's url leads to the handler of that transition. -/
theorem leadsTo_transition {id name : String} (hv : v.Sound)
    (h : v.hrefs.resourceTransitionUrl v.urls.toUrlBuild id name = some url) :
    Control.LeadsTo v.urls v.formParse v.dir v.values { method := "POST", href := url }
      (.transition id name) := by
  have hpre : isPathReference ("resources/" ++ Str.percentEncode id ++ "/transitions/") = true :=
    isPathReference_append (isPathReference_encode (by decide) id) (List.all_eq_true.mp (by decide))
  have hcut : "resources/" ++ Str.percentEncode id ++ "/transitions/" ++ Str.percentEncode name =
      "resources" ++ String.singleton '/' ++ Str.percentEncode id ++ String.singleton '/' ++
        "transitions" ++ String.singleton '/' ++ Str.percentEncode name := by
    rw [show "/transitions/" = String.singleton '/' ++ "transitions" ++ String.singleton '/' by
      decide, show "resources/" = "resources" ++ String.singleton '/' by decide]
    simp only [String.append_assoc]
  have htransitions : Str.split '/' "transitions" = ["transitions"] := by decide
  have hresources : Str.split '/' "resources" = ["resources"] := by decide
  have hsplit : Str.split '/' ("resources/" ++ Str.percentEncode id ++ "/transitions/" ++
      Str.percentEncode name) = (Destination.transition id name).segments := by
    rw [hcut, split_name, Str.split_append_cons, split_name, htransitions, hresources]
    rfl
  obtain ⟨hpath, hpairs⟩ := join hv hv.http (isPathReference_encode hpre name) hsplit h
  exact ⟨rfl, hpath, by rw [hpairs]; rfl⟩

theorem leadsTo_meta (hv : v.Sound) (h : v.hrefs.metaUrl v.urls.toUrlBuild = some url) :
    Control.LeadsTo v.urls v.formParse v.dir v.values { method := "GET", href := url }
      .meta := by
  obtain ⟨hpath, hpairs⟩ := join hv hv.http (by decide) (Str.split_of_not_mem (by decide)) h
  exact ⟨rfl, hpath, by rw [hpairs]; rfl⟩

theorem leadsTo_metaType {ty : String} (hv : v.Sound)
    (h : v.hrefs.metaTypeUrl v.urls.toUrlBuild ty = some url) :
    Control.LeadsTo v.urls v.formParse v.dir v.values { method := "GET", href := url }
      (.metaType ty) := by
  obtain ⟨hpath, hpairs⟩ := join hv hv.http (isPathReference_encode (by decide) _)
    (split_name "meta" _) h
  exact ⟨rfl, hpath, by rw [hpairs]; rfl⟩

/-- A link to events with a topic. -/
theorem leadsTo_events {base : υ} (topic : String) (hv : v.Sound)
    (h : v.hrefs.eventsUrl v.urls.toUrlBuild = some base) :
    Control.LeadsTo v.urls v.formParse v.dir v.values
      { method := "GET", href := v.urls.appendPair base "topic" topic } (.events topic) := by
  obtain ⟨hpath, hpairs⟩ := join hv hv.ws (by decide) (Str.split_of_not_mem (by decide)) h
  obtain ⟨hpath', hpairs'⟩ := hv.urls.appendPair base "topic" topic
  refine ⟨rfl, ?_, ?_⟩
  · rw [hpath', hpath, Destination.segments]
  · rw [hpairs', hpairs]
    rfl

/-! ### Pages of links -/

/-- A result of `mapM` comes from an element. -/
theorem exists_of_mem_mapM {α β : Type} {f : α → Option β} {l : List α} {l' : List β}
    (h : l.mapM f = some l') {b : β} (hb : b ∈ l') : ∃ a ∈ l, f a = some b := by
  induction l generalizing l' with
  | nil =>
    rw [List.mapM_nil] at h
    cases h
    cases hb
  | cons a rest ih =>
    rw [List.mapM_cons] at h
    obtain ⟨x, hx, h⟩ := Option.bind_eq_some_iff.mp h
    obtain ⟨xs, hxs, h⟩ := Option.bind_eq_some_iff.mp h
    cases h
    rcases List.mem_cons.mp hb with rfl | hb
    · exact ⟨a, List.mem_cons_self, hx⟩
    · obtain ⟨a', ha', hfa'⟩ := ih hxs hb
      exact ⟨a', List.mem_cons_of_mem a ha', hfa'⟩

/-- The controls are all vouched for. -/
def VouchesAll (v : View υ) (controls : List (Control υ)) : Prop := ∀ c ∈ controls, v.Vouches c

theorem VouchesAll.withAction {e : Entity υ} {a : Action υ} (h : v.VouchesAll e.controls)
    (ha : v.Vouches a.control) : v.VouchesAll (e.withAction a).controls := by
  intro c hc
  simp only [Entity.controls, Entity.withAction, controlsOf, List.map_append, List.mem_append,
    List.map_cons, List.map_nil, List.mem_singleton] at hc
  rcases hc with (hc | hc | rfl) | hc
  · exact h c (by simp [Entity.controls, controlsOf, hc])
  · exact h c (by simp [Entity.controls, controlsOf, hc])
  · exact ha
  · exact h c (List.mem_append_right _ hc)

/-- A page vouches for its controls and for those of what it embeds. -/
theorem VouchesAll.withSubEntities {e : Entity υ} {subs : List (EmbeddedEntity υ)}
    (h : v.VouchesAll e.controls)
    (hsubs : ∀ sub ∈ subs, v.VouchesAll (controlsOf sub.links sub.actions)) :
    v.VouchesAll (subs.foldl Entity.withSubEntity e).controls := by
  induction subs generalizing e with
  | nil => exact h
  | cons sub rest ih =>
    rw [List.foldl_cons]
    refine ih (fun c hc => ?_) fun s hs => hsubs s (List.mem_cons_of_mem sub hs)
    simp only [Entity.controls, Entity.withSubEntity, List.flatMap_append, List.flatMap_cons,
      List.flatMap_nil, List.append_nil, List.mem_append] at hc
    rcases hc with hc | hc | hc
    · exact h c (List.mem_append_left _ hc)
    · exact h c (List.mem_append_right _ hc)
    · exact hsubs sub List.mem_cons_self c hc

/-- A link for something without names. -/
theorem vouches_of_plain {c : Control υ} {d : Destination}
    (h : c.LeadsTo v.urls v.formParse v.dir v.values d) (hd : d.isForwarded = true)
    (hnames : d.names = [])
    (hcaps : v.policy.capabilities.contains d.intent.requiredCapability = true) : v.Vouches c :=
  .inr ⟨d, h, hd, hcaps, fun _ name hname => by
    rw [hnames] at hname
    cases hname⟩

/-- The query action a page may add is one it vouches for. -/
theorem vouchesAll_withQueryAction (hv : v.Sound) {e e' : Entity υ} (he : v.VouchesAll e.controls)
    (h : withQueryAction v.urls.toUrlBuild v.hrefs v.policy e = some e') :
    v.VouchesAll e'.controls := by
  unfold withQueryAction at h
  split at h
  · rename_i hcan
    obtain ⟨a, ha, rfl⟩ := Option.map_eq_some_iff.mp h
    obtain ⟨url, hurl, ha⟩ := Option.bind_eq_some_iff.mp ha
    cases ha
    exact he.withAction (vouches_of_plain (leadsTo_query hv hurl) rfl rfl hcan)
  · cases h
    exact he

/-- What a page embeds of a resource it vouches for. -/
theorem vouchesAll_resourceSubEntity (hv : v.Sound) {snap : Snapshot} {sub : EmbeddedEntity υ}
    (hsnap : v.ordinary → snap.Ordinary)
    (h : resourceSubEntity v.urls.toUrlBuild v.hrefs v.policy snap = some sub) :
    v.VouchesAll (controlsOf sub.links sub.actions) := by
  unfold resourceSubEntity at h
  split at h
  · rename_i hcan
    simp only [Option.bind_eq_bind, Option.bind_eq_some_iff, Option.pure_def,
      Option.some.injEq] at h
    obtain ⟨self, hself, resources, hresources, rfl⟩ := h
    intro c hc
    simp only [controlsOf, List.map_cons, List.map_nil, List.append_nil, List.mem_cons,
      List.not_mem_nil, or_false] at hc
    rcases hc with rfl | rfl
    · refine .inr ⟨.resource snap.id, leadsTo_resource hv hself, rfl, hcan,
        fun hord name hname => ?_⟩
      rw [List.mem_singleton.mp hname]
      exact (hsnap hord).id
    · exact vouches_of_plain (leadsTo_resources hv hresources) rfl rfl hcan
  · cases h
    exact fun c hc => (by cases hc)

theorem vouchesAll_withResources (hv : v.Sound) {e e' : Entity υ} {snaps : List Snapshot}
    (he : v.VouchesAll e.controls) (hsnaps : v.ordinary → ∀ snap ∈ snaps, snap.Ordinary)
    (h : withResources v.urls.toUrlBuild v.hrefs v.policy e snaps = some e') :
    v.VouchesAll e'.controls := by
  simp only [withResources, Option.bind_eq_bind, Option.bind_eq_some_iff, Option.pure_def,
    Option.some.injEq] at h
  obtain ⟨queried, hqueried, subs, hsubs, rfl⟩ := h
  refine (vouchesAll_withQueryAction hv he hqueried).withSubEntities fun sub hsub => ?_
  obtain ⟨snap, hsnap, hsub⟩ := exists_of_mem_mapM hsubs hsub
  exact vouchesAll_resourceSubEntity hv (fun hord => hsnaps hord snap hsnap) hsub

section Listings

variable {e : Entity υ} {snaps : List Snapshot} (hv : v.Sound)
  (hsnaps : v.ordinary → ∀ snap ∈ snaps, snap.Ordinary)
include hv hsnaps

theorem vouchesAll_renderResources (hcan : v.policy.canReadResources = true)
    (h : renderResources v.urls.toUrlBuild v.hrefs v.policy snaps = some e) :
    v.VouchesAll e.controls := by
  obtain ⟨self, hself, h⟩ := Option.bind_eq_some_iff.mp h
  refine vouchesAll_withResources hv (fun c hc => ?_) hsnaps h
  obtain rfl := List.mem_singleton.mp hc
  exact vouches_of_plain (leadsTo_resources hv hself) rfl rfl hcan

theorem vouchesAll_renderServer (hcan : v.policy.canReadResources = true)
    (h : renderServer v.urls.toUrlBuild v.hrefs v.policy snaps = some e) :
    v.VouchesAll e.controls := by
  simp only [renderServer, Option.bind_eq_bind, Option.bind_eq_some_iff] at h
  obtain ⟨self, hself, resources, hresources, h⟩ := h
  refine vouchesAll_withResources hv (fun c hc => ?_) hsnaps h
  simp only [Entity.controls, controlsOf, List.map_cons, List.map_nil, List.append_nil,
    List.flatMap_nil, List.mem_cons, List.not_mem_nil, or_false] at hc
  rcases hc with rfl | rfl
  · exact .inl ⟨hself, leadsTo_server hv hself⟩
  · exact vouches_of_plain (leadsTo_resources hv hresources) rfl rfl hcan

theorem vouchesAll_renderSearchResults {ql : String} (hcan : v.policy.canQuery = true)
    (h : renderSearchResults v.urls.toUrlBuild v.hrefs v.policy ql snaps = some e) :
    v.VouchesAll e.controls := by
  obtain ⟨self, hself, h⟩ := Option.bind_eq_some_iff.mp h
  refine vouchesAll_withResources hv (fun c hc => ?_) hsnaps h
  obtain rfl := List.mem_singleton.mp hc
  exact vouches_of_plain (leadsTo_search hv hself) rfl rfl hcan

end Listings

/-- A transition offered is one its page vouches for. -/
theorem vouches_transitionAction (hv : v.Sound) {id : String} {spec : TransitionSpec}
    {a : Action υ} (hcan : v.policy.canInvokeTransition = true)
    (hnames : v.ordinary → IsOrdinaryName id ∧ IsOrdinaryName spec.name)
    (h : transitionAction v.urls.toUrlBuild v.hrefs id spec = some a) : v.Vouches a.control := by
  obtain ⟨url, hurl, h⟩ := Option.bind_eq_some_iff.mp h
  cases h
  refine .inr ⟨.transition id spec.name, leadsTo_transition hv hurl, rfl, hcan,
    fun hord name hname => ?_⟩
  simp only [Destination.names, List.mem_cons, List.not_mem_nil, or_false] at hname
  rcases hname with rfl | rfl
  · exact (hnames hord).1
  · exact (hnames hord).2

theorem vouches_metaType (hv : v.Sound) {ty : String} {url : υ}
    (hcan : v.policy.canReadResources = true) (hty : v.ordinary → IsOrdinaryName ty)
    (h : v.hrefs.metaTypeUrl v.urls.toUrlBuild ty = some url) :
    v.Vouches { method := "GET", href := url } := by
  refine .inr ⟨.metaType ty, leadsTo_metaType hv h, rfl, hcan, fun hord name hname => ?_⟩
  rw [List.mem_singleton.mp hname]
  exact hty hord

/-- The page of a resource vouches for all its controls. -/
theorem vouchesAll_renderResource (hv : v.Sound) {snap : Snapshot} {e : Entity υ}
    (hcan : v.policy.canReadResources = true) (hsnap : v.ordinary → snap.Ordinary)
    (h : renderResource v.urls.toUrlBuild v.hrefs v.policy snap = some e) :
    v.VouchesAll e.controls := by
  simp only [renderResource, Option.bind_eq_bind, Option.bind_eq_some_iff, Option.pure_def,
    Option.some.injEq] at h
  obtain ⟨self, hself, resources, hresources, ty, hty, actions, hactions, streams, hstreams,
    rfl⟩ := h
  -- the links, then the actions, each under the capability that shows it
  intro c hc
  simp only [Entity.controls, controlsOf, List.flatMap_nil, List.append_nil, List.mem_append,
    List.mem_map, List.mem_cons, List.not_mem_nil, or_false] at hc
  -- `self`, `resources` and the kind's page; then streams; then actions
  rcases hc with ⟨l, (rfl | rfl | rfl) | hl, rfl⟩ | ⟨a, ha, rfl⟩
  · refine .inr ⟨.resource snap.id, leadsTo_resource hv hself, rfl, hcan,
      fun hord name hname => ?_⟩
    rw [List.mem_singleton.mp hname]
    exact (hsnap hord).id
  · exact vouches_of_plain (leadsTo_resources hv hresources) rfl rfl hcan
  · exact vouches_metaType hv hcan (fun hord => (hsnap hord).kind) hty
  · unfold streamLinks at hstreams
    split at hstreams
    · rename_i hstream
      obtain ⟨stream, -, hl⟩ := exists_of_mem_mapM hstreams hl
      obtain ⟨url, hurl, rfl⟩ := Option.map_eq_some_iff.mp hl
      obtain ⟨base, hbase, rfl⟩ := Option.map_eq_some_iff.mp hurl
      exact vouches_of_plain (leadsTo_events _ hv hbase) rfl rfl hstream
    · cases hstreams
      cases hl
  · unfold transitionActions at hactions
    split at hactions
    · rename_i hinvoke
      obtain ⟨t, ht, ha⟩ := exists_of_mem_mapM hactions ha
      have hmem := (List.mem_filter.mp ht).1
      exact vouches_transitionAction hv hinvoke
        (fun hord => ⟨(hsnap hord).id, (hsnap hord).transitions t hmem⟩) ha
    · cases hactions
      cases ha

theorem mem_of_mem_unseenKinds {ty : ActorSpec} {seen : List String} {types : List ActorSpec}
    (h : ty ∈ unseenKinds seen types) : ty ∈ types := by
  induction types generalizing seen with
  | nil => exact h
  | cons t rest ih =>
    rw [unseenKinds] at h
    split at h
    · exact List.mem_cons_of_mem t (ih h)
    · rcases List.mem_cons.mp h with rfl | h
      · exact List.mem_cons_self
      · exact List.mem_cons_of_mem t (ih h)

section Kinds

variable {e : Entity υ} (hv : v.Sound) (hcan : v.policy.canReadResources = true)
include hv hcan

theorem vouchesAll_metaTypeSubEntity {ty : ActorSpec} {sub : EmbeddedEntity υ}
    (hty : v.ordinary → IsOrdinaryName ty.resource.kind)
    (h : metaTypeSubEntity v.urls.toUrlBuild v.hrefs ty = some sub) :
    v.VouchesAll (controlsOf sub.links sub.actions) := by
  obtain ⟨self, hself, h⟩ := Option.bind_eq_some_iff.mp h
  cases h
  intro c hc
  obtain rfl := List.mem_singleton.mp hc
  exact vouches_metaType hv hcan hty hself

theorem vouchesAll_renderMetaType {ty : ActorSpec}
    (hty : v.ordinary → IsOrdinaryName ty.resource.kind)
    (h : renderMetaType v.urls.toUrlBuild v.hrefs ty = some e) : v.VouchesAll e.controls := by
  obtain ⟨sub, hsub, h⟩ := Option.bind_eq_some_iff.mp h
  cases h
  intro c hc
  refine vouchesAll_metaTypeSubEntity hv hcan hty hsub c ?_
  simpa [Entity.controls] using hc

/-- The page of the kinds vouches for all its controls. -/
theorem vouchesAll_renderMeta {types : List ActorSpec}
    (htypes : v.ordinary → ∀ ty ∈ types, IsOrdinaryName ty.resource.kind)
    (h : renderMeta v.urls.toUrlBuild v.hrefs v.policy types = some e) :
    v.VouchesAll e.controls := by
  simp only [renderMeta, Option.bind_eq_bind, Option.bind_eq_some_iff, Option.pure_def,
    Option.some.injEq] at h
  obtain ⟨self, hself, resources, hresources, monitor, hmonitor, subs, hsubs, rfl⟩ := h
  refine VouchesAll.withSubEntities (fun c hc => ?_) fun sub hsub => ?_
  · simp only [Entity.controls, controlsOf, List.flatMap_nil, List.append_nil, List.mem_append,
      List.mem_map, List.mem_cons, List.not_mem_nil, or_false, List.map_nil] at hc
    -- `self` and `resources`; then the monitor
    obtain ⟨l, (rfl | rfl) | hl, rfl⟩ := hc
    · exact vouches_of_plain (leadsTo_meta hv hself) rfl rfl hcan
    · exact vouches_of_plain (leadsTo_resources hv hresources) rfl rfl hcan
    · split at hmonitor
      · rename_i hstream
        obtain ⟨url, hurl, rfl⟩ := Option.map_eq_some_iff.mp hmonitor
        obtain ⟨base, hbase, rfl⟩ := Option.map_eq_some_iff.mp hurl
        obtain rfl := List.mem_singleton.mp hl
        exact vouches_of_plain (leadsTo_events _ hv hbase) rfl rfl hstream
      · cases hmonitor
        cases hl
  · obtain ⟨ty, hty, hsub⟩ := exists_of_mem_mapM hsubs hsub
    exact vouchesAll_metaTypeSubEntity hv hcan
      (fun hord => htypes hord ty (mem_of_mem_unseenKinds hty)) hsub

end Kinds

end View

end Render

/-! ### The pages of a device -/

/-- The page of a destination. -/
def Render.destinationPage {υ : Type} (urls : UrlBuild υ) (h : Render.Hrefs υ)
    (policy : RenderPolicy) (reads : CoreReads) : Destination → Option (Siren.Entity υ)
  | .resources => Render.renderResources urls h policy reads.listResources
  | .search ql => Render.searchPage urls h policy reads ql
  | .resource id => Render.resourcePage urls h policy reads id
  | .meta => Render.renderMeta urls h policy reads.actorSpecs
  | .metaType ty => Render.metaTypePage urls h reads ty
  | _ => none

/-- The names of everything that is read mean nothing else in a path. -/
structure CoreReads.Ordinary (reads : CoreReads) : Prop where
  listed : ∀ snap ∈ reads.listResources, snap.Ordinary
  found : ∀ ql snaps, reads.queryResources ql = some snaps → ∀ snap ∈ snaps, snap.Ordinary
  read : ∀ id snap, reads.getResource id = some snap → snap.Ordinary
  kinds : ∀ ty ∈ reads.actorSpecs, IsOrdinaryName ty.resource.kind

namespace RouterOps

variable {ρ υ : Type} {ops : RouterOps ρ} {v : Render.View υ} {reads : CoreReads}
  {peers : List PeerRenderPolicy} {req : ServerRequest} {core : String} {e : Siren.Entity υ}

theorem servePage_of_routed {handler : Handler} {raw params : List String}
    (hrouted : routed req.method req.uri.path = some (handler, raw))
    (hparams : raw.mapM ops.decode = some params) (urls : UrlBuild υ) :
    ops.servePage urls core reads peers req =
      ops.page urls core reads peers req handler params := by
  rw [servePage, hrouted, Option.bind_some, hparams, Option.bind_some]

open Render View

section Handlers

variable (hv : v.Sound) (hreads : v.ordinary → reads.Ordinary)
include hv hreads

theorem vouchesAll_searchPage {ql : String} (hcan : v.policy.canQuery = true)
    (h : searchPage v.urls.toUrlBuild v.hrefs v.policy reads ql = some e) :
    v.VouchesAll e.controls := by
  obtain ⟨snaps, hsnaps, h⟩ := Option.bind_eq_some_iff.mp h
  exact vouchesAll_renderSearchResults hv (fun hord => (hreads hord).found ql snaps hsnaps) hcan h

theorem vouchesAll_resourcePage {id : String} (hcan : v.policy.canReadResources = true)
    (h : resourcePage v.urls.toUrlBuild v.hrefs v.policy reads id = some e) :
    v.VouchesAll e.controls := by
  obtain ⟨snap, hsnap, h⟩ := Option.bind_eq_some_iff.mp h
  exact vouchesAll_renderResource hv hcan (fun hord => (hreads hord).read id snap hsnap) h

theorem vouchesAll_metaTypePage {ty : String} (hcan : v.policy.canReadResources = true)
    (h : metaTypePage v.urls.toUrlBuild v.hrefs reads ty = some e) : v.VouchesAll e.controls := by
  obtain ⟨spec, hspec, h⟩ := Option.bind_eq_some_iff.mp h
  exact vouchesAll_renderMetaType hv hcan
    (fun hord => (hreads hord).kinds spec (List.mem_of_find?_eq_some hspec)) h

end Handlers

/-- The pages with links for a destination that the capabilities allow. -/
theorem vouchesAll_destinationPage {d : Destination} (hv : v.Sound)
    (hreads : v.ordinary → reads.Ordinary)
    (hcan : v.policy.capabilities.contains d.intent.requiredCapability = true)
    (h : destinationPage v.urls.toUrlBuild v.hrefs v.policy reads d = some e) :
    v.VouchesAll e.controls := by
  cases d with
  | server name => cases h
  | resources => exact vouchesAll_renderResources hv (fun hord => (hreads hord).listed) hcan h
  | search ql => exact vouchesAll_searchPage hv hreads hcan h
  | resource id => exact vouchesAll_resourcePage hv hreads hcan h
  | transition id name => cases h
  | «meta» => exact vouchesAll_renderMeta hv hcan (fun hord => (hreads hord).kinds) h
  | metaType ty => exact vouchesAll_metaTypePage hv hreads hcan h
  | events topic => cases h

/-- What a device answers a request with that was forwarded to it: the page of the server, or of a
destination that the request is taken for. -/
theorem page_of_forwards (hops : ops.Lawful) (urls : UrlBuild υ) {call : ForwardCall}
    {calls : HeaderMap → List UInt8 → List (CoreCall ρ)} (hforwards : Forwards ops call calls)
    {headers : HeaderMap} {body : List UInt8} {h : Render.Hrefs υ} {policy : RenderPolicy}
    (hhrefs : Render.buildHrefs urls.toUrlOps headers (call.arrive headers body).uri
      call.targetName = some h)
    (hpolicy : renderPolicyFromHeaders headers = policy)
    (hserved : ops.servePage urls call.targetName reads peers (call.arrive headers body) = some e) :
    (call.intent ops.formParse = some .read ∧
      renderServer urls h policy reads.listResources = some e) ∨
    ∃ d, call.intent ops.formParse = some d.intent ∧
      destinationPage urls h policy reads d = some e := by
  -- what the handler renders does not depend on the headers beyond the bases and the policy
  have hpage : ∀ {handler raw params}, routed call.method call.uri.path = some (handler, raw) →
      raw.mapM ops.decode = some params →
      ops.pageUnder urls call.targetName reads peers (call.arrive headers body) h policy handler
        params = some e := by
    intro handler raw params hrouted hparams
    have hrouted : routed (call.arrive headers body).method (call.arrive headers body).uri.path =
        some (handler, raw) := hrouted
    have hserved : ops.page urls call.targetName reads peers (call.arrive headers body) handler
        params = some e :=
      (servePage_of_routed hrouted hparams urls).symm.trans hserved
    obtain ⟨hrefs, hbuilt, hpage⟩ := Option.bind_eq_some_iff.mp hserved
    have hheaders : ops.pageUnder urls call.targetName reads peers (call.arrive headers body) hrefs
        (renderPolicyFromHeaders headers) handler params = some e := hpage
    rwa [hpolicy, ← Option.some.inj (hhrefs.symm.trans hbuilt)] at hheaders
  -- one route for each way to forward
  cases hforwards with
  | @server params hpath hmethod hquery =>
    -- with `?ql` the server's page is a search
    obtain ⟨raw, hsplit, hraw, hname⟩ := hpath
    have hrouted : routed call.method call.uri.path = some (.serverGet, [raw]) := by
      simp [routed, routes, matchSegments, MethodFilter.takes, hsplit, hmethod, hraw]
    have hparams : [raw].mapM ops.decode = some [call.targetName] := by simp [hname]
    have hread : ops.query (call.arrive headers body) QueryParams.ofPairs = some params := hquery
    have hintent : call.intent ops.formParse =
        some (if params.ql.isSome then .query else .read) := by
      simp [ForwardCall.intent, ProxyIntent.fromParts, ProxyIntent.readOrQuery, hsplit, hmethod,
        hraw, hasQueryParam_ql hops hquery]
    have he := hpage hrouted hparams
    rw [pageUnder, if_pos rfl, hread, Option.bind_some, serverPage] at he
    cases hql : params.ql with
    | none =>
      rw [hql] at he hintent
      exact .inl ⟨hintent, he⟩
    | some ql =>
      rw [hql] at he hintent
      exact .inr ⟨.search ql, hintent, he⟩
  | @resources params hpath hmethod hquery =>
    obtain ⟨raw, hsplit, hraw, hname⟩ := hpath
    have hrouted : routed call.method call.uri.path = some (.serverResourcesGet, [raw]) := by
      simp [routed, routes, matchSegments, MethodFilter.takes, hsplit, hmethod, hraw]
    have hparams : [raw].mapM ops.decode = some [call.targetName] := by simp [hname]
    have hread : ops.query (call.arrive headers body) QueryParams.ofPairs = some params := hquery
    have hintent : call.intent ops.formParse =
        some (if params.ql.isSome then .query else .list) := by
      simp [ForwardCall.intent, ProxyIntent.fromParts, ProxyIntent.listOrQuery, hsplit, hmethod,
        hraw, hasQueryParam_ql hops hquery]
    have he := hpage hrouted hparams
    rw [pageUnder, if_pos rfl, hread, Option.bind_some, resourcesPage] at he
    cases hql : params.ql with
    | none =>
      rw [hql] at he hintent
      exact .inr ⟨.resources, hintent, he⟩
    | some ql =>
      rw [hql] at he hintent
      exact .inr ⟨.search ql, hintent, he⟩
  | @resource rawId id hpath hmethod hrawId hid =>
    obtain ⟨raw, hsplit, hraw, hname⟩ := hpath
    have hrouted : routed call.method call.uri.path = some (.serverResourceGet, [raw, rawId]) := by
      simp [routed, routes, matchSegments, MethodFilter.takes, hsplit, hmethod, hraw, hrawId]
    have hparams : [raw, rawId].mapM ops.decode = some [call.targetName, id] := by
      simp [hname, hid]
    have he := hpage hrouted hparams
    rw [pageUnder, if_pos rfl] at he
    refine .inr ⟨.resource id, ?_, he⟩
    simp [ForwardCall.intent, ProxyIntent.fromParts, hsplit, hmethod, hraw, hrawId,
      Destination.intent]
  | @transition rawId id rawName name hpath hmethod hrawId hid hrawName hname' =>
    obtain ⟨raw, hsplit, hraw, hname⟩ := hpath
    have hrouted : routed call.method call.uri.path =
        some (.serverResourceTransitionPost, [raw, rawId, rawName]) := by
      simp [routed, routes, matchSegments, MethodFilter.takes, hsplit, hmethod, hraw, hrawId,
        hrawName]
    have hparams : [raw, rawId, rawName].mapM ops.decode = some [call.targetName, id, name] := by
      simp [hname, hid, hname']
    cases hpage hrouted hparams
  | metadata hpath hmethod =>
    obtain ⟨raw, hsplit, hraw, hname⟩ := hpath
    have hrouted : routed call.method call.uri.path = some (.metaGet, [raw]) := by
      simp [routed, routes, matchSegments, MethodFilter.takes, hsplit, hmethod, hraw]
    have hparams : [raw].mapM ops.decode = some [call.targetName] := by simp [hname]
    have he := hpage hrouted hparams
    rw [pageUnder, if_pos rfl] at he
    refine .inr ⟨.meta, ?_, he⟩
    simp [ForwardCall.intent, ProxyIntent.fromParts, hsplit, hmethod, hraw, Destination.intent]
  | @metadataType rawTy ty hpath hmethod hrawTy hty =>
    obtain ⟨raw, hsplit, hraw, hname⟩ := hpath
    have hrouted : routed call.method call.uri.path = some (.metaTypeGet, [raw, rawTy]) := by
      simp [routed, routes, matchSegments, MethodFilter.takes, hsplit, hmethod, hraw, hrawTy]
    have hparams : [raw, rawTy].mapM ops.decode = some [call.targetName, ty] := by
      simp [hname, hty]
    have he := hpage hrouted hparams
    rw [pageUnder, if_pos rfl] at he
    refine .inr ⟨.metaType ty, ?_, he⟩
    simp [ForwardCall.intent, ProxyIntent.fromParts, hsplit, hmethod, hraw, hrawTy,
      Destination.intent]
  | events hpath hmethod hquery =>
    obtain ⟨raw, hsplit, hraw, hname⟩ := hpath
    have hrouted : routed call.method call.uri.path = some (.serverEventsStream, [raw]) := by
      simp [routed, routes, matchSegments, MethodFilter.takes, hsplit, hmethod, hraw]
    have hparams : [raw].mapM ops.decode = some [call.targetName] := by simp [hname]
    cases hpage hrouted hparams
  | unsubscribe hpath hmethod =>
    obtain ⟨raw, hsplit, hraw, hname⟩ := hpath
    have hrouted : routed call.method call.uri.path = some (.eventsUnsubscribe, [raw]) := by
      simp [routed, routes, matchSegments, MethodFilter.takes, hsplit, hmethod, hraw]
    have hparams : [raw].mapM ops.decode = some [call.targetName] := by simp [hname]
    cases hpage hrouted hparams

/-- **A device offers what the intent and the capabilities allow**: the page of a request that was
forwarded to it. -/
theorem vouchesAll_servePage (hops : ops.Lawful) (hv : v.Sound)
    (hreads : v.ordinary → reads.Ordinary) {call : ForwardCall}
    {calls : HeaderMap → List UInt8 → List (CoreCall ρ)} (hforwards : Forwards ops call calls)
    {headers : HeaderMap} {body : List UInt8}
    (hhrefs : Render.buildHrefs v.urls.toUrlOps headers (call.arrive headers body).uri
      call.targetName = some v.hrefs)
    (hpolicy : renderPolicyFromHeaders headers = v.policy)
    (hcan : ∀ intent, call.intent ops.formParse = some intent →
      v.policy.capabilities.contains intent.requiredCapability = true)
    (h : ops.servePage v.urls.toUrlBuild call.targetName reads peers (call.arrive headers body) =
      some e) : v.VouchesAll e.controls := by
  rcases page_of_forwards hops v.urls.toUrlBuild hforwards hhrefs hpolicy h with
    ⟨hintent, he⟩ | ⟨d, hintent, he⟩
  · exact vouchesAll_renderServer hv (fun hord => (hreads hord).listed) (hcan _ hintent) he
  · exact vouchesAll_destinationPage hv hreads (hcan _ hintent) he

end RouterOps

/-! ### Visits -/

/-- What the gate of a gateway lets through. -/
theorem Gateway.gate_eq_checked_iff {name : String} {acceptors : PeerAcceptors}
    {q : ForwardRequest} {context : ReadContext} :
    Gateway.gate name acceptors q = .checked context ↔
      q.targetName ≠ name ∧ acceptors.readContext q.targetName = some context ∧
      ∃ intent, q.intent = some intent ∧
        (∀ caller ∈ q.caller,
          caller.negotiatedCapabilities.contains intent.requiredCapability = true) ∧
        context.admitted.negotiatedCapabilities.contains intent.requiredCapability = true := by
  constructor
  · -- the checks in the order of `maybe_forward_or_404`
    intro h
    unfold Gateway.gate at h
    split at h
    · cases h
    rename_i hname
    split at h
    · cases h
    rename_i intent hintent
    split at h
    · cases h
    rename_i hcaller
    split at h
    · cases h
    rename_i found hfound
    split at h
    · rename_i hallows
      cases h
      refine ⟨hname, hfound, intent, hintent, fun caller hmem => ?_, hallows⟩
      by_contra hnot
      exact hcaller ((Option.any_eq_true _ _).mpr ⟨caller, hmem, by simpa using hnot⟩)
    · cases h
  · rintro ⟨hname, hfound, intent, hintent, hcaller, hallows⟩
    -- a caller that may pass every check is not refused
    have hpass : ¬ (q.caller.any fun caller =>
        !caller.negotiatedCapabilities.contains intent.requiredCapability) = true := by
      intro hany
      obtain ⟨caller, hmem, hnot⟩ := (Option.any_eq_true _ _).mp hany
      rw [hcaller caller hmem] at hnot
      cases hnot
    unfold Gateway.gate
    rw [if_neg hname, hintent]
    dsimp only
    rw [if_neg hpass, hfound]
    dsimp only
    rw [if_pos hallows]

/-- Capabilities beyond the known ones make no difference. -/
theorem PeerCapabilities.contains_known (caps : PeerCapabilities) (intent : ProxyIntent) :
    (⟨caps.bits &&& PeerCapabilities.all.bits⟩ : PeerCapabilities).contains
      intent.requiredCapability = caps.contains intent.requiredCapability := by
  have hknown : PeerCapabilities.all.bits &&& intent.requiredCapability.bits =
      intent.requiredCapability.bits := by
    cases intent <;> decide
  unfold PeerCapabilities.contains
  rw [UInt8.and_assoc, hknown]

theorem isVisible_percentEncode (s : String) : IsVisible (Str.percentEncode s) := by
  intro c hc
  have hchar := Str.isEncodedChar_of_mem_percentEncode hc
  rw [Str.isEncodedChar, Bool.or_eq_true] at hchar
  rcases hchar with h | h
  · have hrange := toNat_of_isAlphanum h
    omega
  · have hall : ("-._~%".toList.all fun c =>
        decide ((32 ≤ c.toNat ∧ c.toNat < 127) ∨ c.toNat = 9)) = true := by
      decide
    exact of_decide_eq_true (List.all_eq_true.mp hall c (List.contains_iff_mem.mp h))

/-- A request that a gateway forwards to a device, and the page that the device answers with. -/
structure Visit {ρ υ : Type} (ops : RouterOps ρ) (urls : UrlParts υ) where
  gateway : String
  admissions : List PeerAdmissionConfig
  /-- What the reads of the ingress saw. -/
  senders : ℕ → PeerSenders
  acceptors : PeerAcceptors
  caller : Option AdmittedPeerConnection
  context : ReadContext
  req : ServerRequest
  call : ForwardCall
  correlationId : Uuid
  sent : HttpRequest (List UInt8)
  /-- The bases that the gateway states. -/
  http : υ
  ws : υ
  reads : CoreReads
  peers : List PeerRenderPolicy
  page : Siren.Entity υ
  served : ops.serve gateway req = .forwarded call
  resolved : resolveCallerIngress req.headers admissions senders = .ok caller
  checked : Gateway.gate gateway acceptors {
    targetName := call.targetName, intent := call.intent ops.formParse, caller := caller } =
      .checked context
  built : buildPeerForwardRequest ops.http {
    gatewayName := gateway
    renderCapabilities := context.admitted.negotiatedCapabilities
    caller := caller } call.targetName call.method call.uri req.headers req.body correlationId =
      .ok sent
  scheme : call.uri.schemeStr.getD "http" ∈ ["http", "https"]
  host : IsHostText (forwardedExternalBases req.headers call.uri call.targetName).host
  httpBase : urls.parse (forwardedExternalBases req.headers call.uri call.targetName).http =
    some http
  wsBase : urls.parse (forwardedExternalBases req.headers call.uri call.targetName).ws = some ws
  rendered : ops.servePage urls.toUrlBuild call.targetName reads peers
    (call.arrive sent.headers sent.body) = some page

namespace Visit

variable {ρ υ : Type} {ops : RouterOps ρ} {urls : UrlParts υ} {visit : Visit ops urls}

/-- The request is forwarded to the device of the visit, its ingress finds out whose it is, and the
gate lets it through.  The reads of the ingress see `senders`. -/
def Passes (visit : Visit ops urls) (senders : ℕ → PeerSenders) (req : ServerRequest) : Prop :=
  ∃ call caller, ops.serve visit.gateway req = .forwarded call ∧
    call.targetName = visit.call.targetName ∧
    resolveCallerIngress req.headers visit.admissions senders = .ok caller ∧
    Gateway.gate visit.gateway visit.acceptors {
      targetName := call.targetName
      intent := call.intent ops.formParse
      caller := caller } = .checked visit.context

/-- The ingress takes the request for one of nobody, or of a caller that may do what the request is
taken for. -/
def CallerMay (visit : Visit ops urls) (senders : ℕ → PeerSenders) (req : ServerRequest) : Prop :=
  ∃ caller, resolveCallerIngress req.headers visit.admissions senders = .ok caller ∧
    ∀ intent, ProxyIntent.fromParts ops.formParse req.method req.uri.path req.uri.query =
        some intent →
      ∀ c ∈ caller, c.negotiatedCapabilities.contains intent.requiredCapability = true

/-- The page, as it is used. -/
def view (visit : Visit ops urls) (values : String → String) : Render.View υ where
  urls := urls
  formParse := ops.formParse
  dir := ["servers", Str.percentEncode visit.call.targetName]
  hrefs := ⟨visit.http, visit.ws, visit.call.targetName⟩
  policy := ⟨⟨visit.context.admitted.negotiatedCapabilities.bits &&& PeerCapabilities.all.bits⟩⟩
  values := values
  ordinary := visit.reads.Ordinary

/-- What the text of a page's base parses to is a base of its server's paths. -/
theorem isBaseOf (hurls : urls.Lawful ops.formParse)
    (htarget : IsOrdinaryName visit.call.targetName) {scheme : String}
    (hscheme : scheme ∈ webSchemes) {base : υ}
    (hbase : urls.parse (scheme ++ "://" ++
      (forwardedExternalBases visit.req.headers visit.call.uri visit.call.targetName).host ++
      "/servers/" ++ Str.percentEncode visit.call.targetName ++ "/") = some base) :
    Render.IsBaseOf urls ["servers", Str.percentEncode visit.call.targetName] base := by
  have hpath : isPathReference ("servers/" ++ Str.percentEncode visit.call.targetName ++ "/") =
      true :=
    isPathReference_append (isPathReference_encode (by decide) _) (by simp)
  -- the base is the scheme, the host and the encoded target
  have hcut : scheme ++ "://" ++
      (forwardedExternalBases visit.req.headers visit.call.uri visit.call.targetName).host ++
      "/servers/" ++ Str.percentEncode visit.call.targetName ++ "/" = scheme ++ "://" ++
      (forwardedExternalBases visit.req.headers visit.call.uri visit.call.targetName).host ++ "/" ++
      ("servers/" ++ Str.percentEncode visit.call.targetName ++ "/") := by
    rw [show "/servers/" = "/" ++ "servers/" by decide]
    simp only [String.append_assoc]
  have hservers : Str.split '/' "servers" = ["servers"] := Str.split_of_not_mem (by decide)
  -- the target's segment is split off as one piece
  have hsplit : Str.split '/' ("servers/" ++ Str.percentEncode visit.call.targetName ++ "/") =
      ["servers", Str.percentEncode visit.call.targetName, ""] := by
    have hslashes : "servers/" ++ Str.percentEncode visit.call.targetName ++ "/" = "servers" ++
        String.singleton '/' ++ Str.percentEncode visit.call.targetName ++ String.singleton '/' ++
        "" := by
      rw [String.append_empty]
      rfl
    rw [hslashes, Str.split_append_cons, split_name, hservers]
    rfl
  -- none of the segments is `.` or `..`
  have hplain : ∀ s ∈ ["servers", Str.percentEncode visit.call.targetName, ""], IsPlain s := by
    simp only [List.forall_mem_cons]
    exact ⟨by decide, Str.isPlain_percentEncode htarget, by decide, fun s hs => (by cases hs)⟩
  rw [hcut] at hbase
  obtain ⟨hurl, hurlPath⟩ := hurls.parse scheme _ _ base hscheme visit.host hpath hbase
  refine ⟨hurl ▸ hscheme, ?_⟩
  rw [hurlPath, hsplit, resolve_of_isPlain hplain]
  rfl

/-- A page is made from the bases of the gateway. -/
theorem sound (hops : ops.Lawful) (hurls : urls.Lawful ops.formParse)
    (htarget : IsOrdinaryName visit.call.targetName) (values : String → String) :
    (visit.view values).Sound where
  urls := hurls
  noQuery := hops.noQuery
  http := isBaseOf hurls htarget
    (by
      have hscheme := visit.scheme
      revert hscheme
      generalize visit.call.uri.schemeStr.getD "http" = scheme
      simp only [webSchemes, List.mem_cons, List.not_mem_nil, or_false]
      tauto) visit.httpBase
  ws := isBaseOf hurls htarget (by split <;> decide) visit.wsBase

/-- The bases a page answers with are visible text. -/
theorem isVisible_bases (visit : Visit ops urls) :
    IsVisible (forwardedExternalBases visit.req.headers visit.call.uri visit.call.targetName).http ∧
    IsVisible
      (forwardedExternalBases visit.req.headers visit.call.uri visit.call.targetName).ws := by
  have hencoded := isVisible_percentEncode visit.call.targetName
  -- an absent or unreadable `Host` falls back to `localhost`
  have hhost : IsVisible
      (forwardedExternalBases visit.req.headers visit.call.uri visit.call.targetName).host := by
    show IsVisible (((visit.req.headers.get HOST).bind HeaderValue.toStr).getD "localhost")
    cases htext : (visit.req.headers.get HOST).bind HeaderValue.toStr with
    | none => decide
    | some text =>
      obtain ⟨value, -, hvalue⟩ := Option.bind_eq_some_iff.mp htext
      exact HeaderValue.isVisible_of_toStr hvalue
  have hscheme : IsVisible (visit.call.uri.schemeStr.getD "http") := by
    -- the two schemes of `Uri.schemeStr`
    have hscheme := visit.scheme
    simp only [List.mem_cons, List.not_mem_nil, or_false] at hscheme
    rcases hscheme with h | h <;> rw [h] <;> decide
  have hws : IsVisible
      (if visit.call.uri.schemeStr.getD "http" = "https" then "wss" else "ws") := by
    split <;> decide
  exact ⟨((((hscheme.append (by decide)).append hhost).append (by decide)).append hencoded).append
      (by decide),
    ((((hws.append (by decide)).append hhost).append (by decide)).append hencoded).append
      (by decide)⟩

/-- Every page of a request answered vouches for all its controls. -/
theorem vouchesAll (hops : ops.Lawful) (hurls : urls.Lawful ops.formParse)
    (htarget : IsOrdinaryName visit.call.targetName) (values : String → String) :
    (visit.view values).VouchesAll visit.page.controls := by
  obtain ⟨-, calls, hforwards⟩ := RouterOps.exists_forwards hops visit.served
  obtain ⟨-, -, intent, hintent, -, hallows⟩ := Gateway.gate_eq_checked_iff.mp visit.checked
  obtain ⟨hhttp, hws⟩ := visit.isVisible_bases
  have hhrefs := buildHrefs_forwarded visit.built
    ⟨hhttp, visit.httpBase⟩ ⟨hws, visit.wsBase⟩
    (visit.call.arrive visit.sent.headers visit.sent.body).uri visit.call.targetName
  refine RouterOps.vouchesAll_servePage hops (sound hops hurls htarget values) id hforwards hhrefs
    (renderPolicy_forwarded visit.built) (fun i hi => ?_) visit.rendered
  have heq : i = intent := Option.some.inj (hi.symm.trans hintent)
  rw [heq]
  exact (PeerCapabilities.contains_known _ intent).trans hallows

theorem question_not_mem_dir (visit : Visit ops urls) :
    ∀ s ∈ ["servers", Str.percentEncode visit.call.targetName], '?' ∉ s.toList := by
  simp only [List.forall_mem_cons]
  exact ⟨by decide, Str.question_not_mem_percentEncode _, fun s hs => (by cases hs)⟩

/-- A request for what the device may be asked is let through if the own capabilities of the caller
allow it. -/
theorem passes_iff_of_asks (hops : ops.Lawful) {d : Destination} {req : ServerRequest}
    {senders : ℕ → PeerSenders}
    (htarget : visit.call.targetName ≠ "") (hforwarded : d.isForwarded = true)
    (hallows : visit.context.admitted.negotiatedCapabilities.contains
      d.intent.requiredCapability = true)
    (hnames : ∀ name ∈ d.names, IsOrdinaryName name)
    (h : Asks ops.formParse ["servers", Str.percentEncode visit.call.targetName] d req) :
    visit.Passes senders req ↔ visit.CallerMay senders req := by
  obtain ⟨hne, hcontext, -⟩ := Gateway.gate_eq_checked_iff.mp visit.checked
  obtain ⟨-, hserve, hintent⟩ := h.forwarded hops htarget hne hforwarded hnames
  constructor
  · rintro ⟨call, caller, hcall, -, hresolved, hgate⟩
    obtain rfl := Served.forwarded.inj (hserve.symm.trans hcall)
    obtain ⟨-, -, taken, htaken, hcaller, -⟩ := Gateway.gate_eq_checked_iff.mp hgate
    refine ⟨caller, hresolved, fun i hi => ?_⟩
    obtain rfl : i = taken := Option.some.inj (Eq.trans (Eq.symm hi) htaken)
    exact hcaller
  · rintro ⟨caller, hresolved, hmay⟩
    exact ⟨_, caller, hserve, rfl, hresolved, Gateway.gate_eq_checked_iff.mpr
      ⟨hne, hcontext, d.intent, hintent, hmay d.intent hintent, hallows⟩⟩

theorem not_passes_of_unrouted {req : ServerRequest} {senders : ℕ → PeerSenders}
    (h : routed req.method req.uri.path = none) : ¬ visit.Passes senders req := by
  rintro ⟨call, caller, hserve, -⟩
  rw [RouterOps.serve, h] at hserve
  cases hserve

end Visit

variable {ρ υ : Type} (ops : RouterOps ρ) (urls : UrlParts υ)

/-- **The gate lets through whatever is offered**: who uses a control of a page is forwarded to the
device of the page, under the admission that the page was rendered for, exactly if the control's
path is routed, the ingress does not refuse the request, and the own capabilities of the caller it
finds, which the page is not rendered for, allow it. -/
theorem offered_controls_pass (hops : ops.Lawful) (hurls : urls.Lawful ops.formParse)
    (visit : Visit ops urls) (htarget : IsOrdinaryName visit.call.targetName)
    (c : Siren.Control υ) (hc : c ∈ visit.page.controls) (values : String → String)
    (schemeStr : Option String) (headers : HeaderMap) (body : List UInt8)
    (senders : ℕ → PeerSenders) :
    let again := c.request urls values schemeStr headers body
    visit.Passes senders again ↔
      (routed again.method again.uri.path).isSome = true ∧ visit.CallerMay senders again := by
  -- the page's own bases decide: an unordinary name makes the control unrouted
  intro again
  have hdead : routed again.method again.uri.path = none →
      (visit.Passes senders again ↔ (routed again.method again.uri.path).isSome = true ∧
        visit.CallerMay senders again) := by
    intro hnone
    refine iff_of_false (Visit.not_passes_of_unrouted hnone) fun h => ?_
    rw [hnone] at h
    cases h.1
  rcases Visit.vouchesAll hops hurls htarget values c hc with
    ⟨-, hserver⟩ | ⟨d, hd, hforwarded, hallows, -⟩
  · exact hdead (Asks.unrouted
      (hserver.asks hurls visit.question_not_mem_dir schemeStr headers body).path
      (.inr ⟨_, htarget, rfl⟩))
  · have hasks : Asks ops.formParse _ d again :=
      hd.asks hurls visit.question_not_mem_dir schemeStr headers body
    -- a name that no path carries leaves the control without a route
    by_cases hnames : ∀ name ∈ d.names, IsOrdinaryName name
    · obtain ⟨hne, -⟩ := Gateway.gate_eq_checked_iff.mp visit.checked
      have hrouted := (hasks.forwarded hops htarget.1 hne hforwarded hnames).1
      have hknown := (PeerCapabilities.contains_known _ d.intent).symm.trans hallows
      rw [Visit.passes_iff_of_asks hops htarget.1 hforwarded hknown hnames hasks]
      exact ⟨fun hmay => ⟨hrouted, hmay⟩, And.right⟩
    · push Not at hnames
      exact hdead (Asks.unrouted hasks.path (.inl ⟨hforwarded, hnames⟩))

/-- **What is offered is routed**, except for the own link of a server: where no name on the page
means something else in a path. -/
theorem offered_controls_routed (hops : ops.Lawful) (hurls : urls.Lawful ops.formParse)
    (visit : Visit ops urls) (htarget : IsOrdinaryName visit.call.targetName)
    (hreads : visit.reads.Ordinary) (c : Siren.Control υ) (hc : c ∈ visit.page.controls)
    (values : String → String) (schemeStr : Option String) (headers : HeaderMap)
    (body : List UInt8) :
    let again := c.request urls values schemeStr headers body
    (routed again.method again.uri.path).isSome = true ↔
      (visit.view values).hrefs.serverUrl urls.toUrlBuild ≠ some c.href := by
  intro again
  have hpath : urls.path (c.url urls values) = urls.path c.href :=
    (Siren.Control.path_url hurls c values).1
  -- a control with the href of the own link has its path
  have hown : (visit.view values).hrefs.serverUrl urls.toUrlBuild = some c.href →
      routed again.method again.uri.path = none := by
    intro hurl
    have hleads := Render.View.leadsTo_server (Visit.sound hops hurls htarget values) hurl
    have hsplit : Str.split '/' again.uri.path =
        "" :: resolve ["servers", Str.percentEncode visit.call.targetName]
          (Destination.server visit.call.targetName).segments :=
      (congrArg (Str.split '/') hpath).trans hleads.path
    exact Asks.unrouted hsplit (.inr ⟨_, htarget, rfl⟩)
  constructor
  · intro hsome hurl
    rw [hown hurl] at hsome
    cases hsome
  · intro hne
    rcases Visit.vouchesAll hops hurls htarget values c hc with
      ⟨hurl, -⟩ | ⟨d, hd, hforwarded, -, hnames⟩
    · exact absurd hurl hne
    · obtain ⟨hgateway, -⟩ := Gateway.gate_eq_checked_iff.mp visit.checked
      have hasks : Asks ops.formParse _ d again :=
        hd.asks hurls visit.question_not_mem_dir schemeStr headers body
      exact (hasks.forwarded hops htarget.1 hgateway hforwarded (hnames hreads)).1

/-! ### A lamp behind a hub -/

/-- A URL with a host, as it is written. -/
structure WebUrl where
  scheme : String
  host : String
  path : String
  query : Option String
  deriving Repr, DecidableEq

def webUrls : UrlParts WebUrl where
  parse text :=
    match Str.split '/' text with
    | scheme :: "" :: host :: segments =>
      some ⟨String.ofList scheme.toList.dropLast, host,
        "/".intercalate ("" :: resolve [] segments), none⟩
    | _ => none
  scheme url := url.scheme
  setScheme url scheme := { url with scheme }
  cannotBeABase _ := false
  join base ref := some { base with
    path := "/".intercalate ("" :: resolve (Str.split '/' base.path).tail.dropLast
      (Str.split '/' ref))
    query := none }
  appendPair url key value :=
    let pair := formSerialize [(key, value)]
    { url with query := some ((url.query.map (· ++ "&" ++ pair)).getD pair) }
  path url := url.path
  query url := url.query

theorem formPairs_append (s t : String) :
    formPairs (s ++ "&" ++ t) = formPairs s ++ formPairs t := by
  unfold formPairs
  rw [show "&" = String.singleton '&' by decide, Str.split_append_cons, List.filter_append,
    List.map_append]

/-- A path that is put together from its segments. -/
theorem split_segments {segments : List String} (h : ∀ s ∈ segments, '/' ∉ s.toList) :
    Str.split '/' ("/".intercalate ("" :: segments)) = "" :: segments := by
  apply Str.split_intercalate (List.cons_ne_nil _ _)
  intro s hs
  rcases List.mem_cons.mp hs with rfl | hs
  · decide
  · exact h s hs

theorem slash_not_mem_resolve {dir : List String} {ref : String}
    (hdir : ∀ s ∈ dir, '/' ∉ s.toList) :
    ∀ s ∈ resolve dir (Str.split '/' ref), '/' ∉ s.toList := by
  intro s hs
  rcases mem_resolve hs with hs | hs | rfl
  · exact hdir s hs
  · exact Str.not_mem_of_mem_split hs
  · decide

/-- The concrete urls meet what the model asks of the url crate. -/
theorem lawful_webUrls : webUrls.Lawful formPairs where
  parse scheme host ref url hscheme hhost href hparse := by
    -- a host has no `/`, so the text splits at the slashes of the base
    have hhostSlash : '/' ∉ host.toList := fun h => hhost.2 '/' h (by decide)
    have hschemes : ∀ scheme ∈ webSchemes, '/' ∉ (scheme ++ ":").toList := by decide
    have hcolon := hschemes scheme hscheme
    have htext : scheme ++ "://" ++ host ++ "/" ++ ref = scheme ++ ":" ++ String.singleton '/' ++
        "" ++ String.singleton '/' ++ host ++ String.singleton '/' ++ ref := by
      rw [show "://" = ":" ++ String.singleton '/' ++ "" ++ String.singleton '/' by decide]
      simp only [String.append_assoc]
      rfl
    have hsplit : Str.split '/' (scheme ++ "://" ++ host ++ "/" ++ ref) =
        (scheme ++ ":") :: "" :: host :: Str.split '/' ref := by
      rw [htext, Str.split_append_cons, Str.split_append_cons, Str.split_append_cons,
        Str.split_of_not_mem hcolon, Str.split_of_not_mem hhostSlash]
      rfl
    simp only [webUrls, hsplit, Option.some.injEq] at hparse
    subst hparse
    constructor
    · simp [webUrls]
    · exact split_segments (slash_not_mem_resolve fun s hs => (by cases hs))
  join base ref url dir hbase href hdir hjoin := by
    -- a join keeps the base's directory
    have hdir : Str.split '/' base.path = "" :: dir := hdir
    simp only [webUrls, hdir, List.tail_cons, Option.some.injEq] at hjoin
    subst hjoin
    refine ⟨split_segments (slash_not_mem_resolve fun s hs => ?_), rfl⟩
    have hmem : s ∈ Str.split '/' base.path := by
      rw [hdir]
      exact List.mem_cons_of_mem _ ((List.dropLast_sublist dir).mem hs)
    exact Str.not_mem_of_mem_split hmem
  -- a pair is appended to the query it already had
  appendPair url key value := by
    refine ⟨rfl, ?_⟩
    simp only [webUrls]
    cases url.query with
    | none => simp [formPairs_pair, show formPairs "" = [] by decide]
    | some query => simp [formPairs_append, formPairs_pair]

/-- A lamp that is off. -/
def lampSnapshot : Render.Snapshot where
  id := "lamp 1"
  kind := "lamp"
  node := "hub"
  streams := ["state"]
  name := some "Lamp"
  state := some "off"
  transitions := [⟨{ name := "turn-on" }, true⟩, ⟨{ name := "turn-off" }, false⟩]

def lampReads : CoreReads where
  queryResources _ := some [lampSnapshot]
  listResources := [lampSnapshot]
  getResource id := if id = lampSnapshot.id then some lampSnapshot else none
  actorSpecs := [{ resource := { kind := "lamp" } }]

theorem lampReads_ordinary : lampReads.Ordinary := by
  have hlamp : lampSnapshot.Ordinary := ⟨by decide, by decide, by decide⟩
  refine ⟨?_, ?_, ?_, by decide⟩
  · simpa [lampReads] using hlamp
  · simpa [lampReads] using hlamp
  · intro id snap h
    simp only [lampReads, Option.ite_none_right_eq_some, Option.some.injEq] at h
    rw [← h.2]
    exact hlamp

/-- A gateway that the hub is linked to. -/
def hubAcceptors : PeerAcceptors where
  contexts := Table.empty.insert "hub" 0
  conns := Table.empty.insert 0 { admitted := .unauthenticated "hub" 0 .all }

/-- A request at the gateway. -/
def hubRequest (path : String) : ServerRequest where
  method := "GET"
  uri := ⟨none, some path, path⟩
  headers := publicRequest.headers
  body := []

/-- What the gateway forwards of it. -/
def hubCall (path : String) : ForwardCall := ⟨"hub", "GET", (hubRequest path).uri⟩

def lampAttestation : ForwardAttestation where
  gatewayName := "gateway"
  renderCapabilities := .all
  caller := none

/-- The pages of the lamp with an action that is routed at the gateway. -/
def isLampPage (e : Siren.Entity WebUrl) : Bool :=
  e.controls.any fun c => c.method == "POST" && (routed c.method c.href.path).isSome

theorem isHostText_hub : IsHostText "hub.example" := by
  have hall : ("hub.example".toList.all fun c => decide (c ∉ "/\\?#\t\n\r".toList)) = true := by
    decide
  exact ⟨by decide, fun c hc => of_decide_eq_true (List.all_eq_true.mp hall c hc)⟩

/-- The bases of every request at the gateway. -/
theorem forwardedExternalBases_hubRequest (path : String) :
    forwardedExternalBases (hubRequest path).headers (hubCall path).uri (hubCall path).targetName =
      ⟨"hub.example", "http", "http://hub.example/servers/hub/",
        "ws://hub.example/servers/hub/"⟩ := by
  have hempty : forwardedExternalBases publicRequest.headers ⟨none, none, ""⟩ "hub" =
      ⟨"hub.example", "http", "http://hub.example/servers/hub/",
        "ws://hub.example/servers/hub/"⟩ := by
    decide
  exact hempty

/-- Whether the page of a request passes a test. -/
def hubPasses (path : String) (test : Siren.Entity WebUrl → Bool) : Bool :=
  (buildPeerForwardRequest textRouter.http lampAttestation (hubCall path).targetName
    (hubCall path).method (hubCall path).uri (hubRequest path).headers (hubRequest path).body
    0).toOption.any fun sent =>
      (textRouter.servePage webUrls.toUrlBuild "hub" lampReads []
        ((hubCall path).arrive sent.headers sent.body)).any test

/-- A visit to the hub, for a path. -/
structure Visit.IsHub (path : String) (visit : Visit textRouter webUrls) : Prop where
  gateway : visit.gateway = "gateway"
  acceptors : visit.acceptors = hubAcceptors
  caller : visit.caller = none
  req : visit.req = hubRequest path
  call : visit.call = hubCall path
  http : visit.http = ⟨"http", "hub.example", "/servers/hub/", none⟩
  reads : visit.reads = lampReads

/-- Someone visits a page of the hub. -/
theorem exists_hubVisit {path : String} {test : Siren.Entity WebUrl → Bool}
    (hserve : textRouter.serve "gateway" (hubRequest path) = .forwarded (hubCall path))
    (hintent : ∃ intent, (hubCall path).intent formPairs = some intent ∧
      PeerCapabilities.all.contains intent.requiredCapability = true)
    (hpasses : hubPasses path test = true) :
    ∃ visit : Visit textRouter webUrls, visit.IsHub path ∧ test visit.page = true := by
  -- the sent request and the page come from evaluating the gate and the render
  obtain ⟨sent, hsent, hpage⟩ := (Option.any_eq_true _ _).mp hpasses
  obtain ⟨page, hpage, htest⟩ := (Option.any_eq_true _ _).mp hpage
  have hbuilt : buildPeerForwardRequest textRouter.http lampAttestation (hubCall path).targetName
      (hubCall path).method (hubCall path).uri (hubRequest path).headers (hubRequest path).body
      0 = .ok sent := by
    cases hresult : buildPeerForwardRequest textRouter.http lampAttestation
        (hubCall path).targetName (hubCall path).method (hubCall path).uri (hubRequest path).headers
        (hubRequest path).body 0 with
    | ok sent' =>
      rw [hresult] at hsent
      cases hsent
      rfl
    | error err =>
      rw [hresult] at hsent
      cases hsent
  have hbases := forwardedExternalBases_hubRequest path
  have hparse : webUrls.parse "http://hub.example/servers/hub/" =
      some ⟨"http", "hub.example", "/servers/hub/", none⟩ := by
    decide
  have hparseWs : webUrls.parse "ws://hub.example/servers/hub/" =
      some ⟨"ws", "hub.example", "/servers/hub/", none⟩ := by
    decide
  have hcontext : hubAcceptors.readContext "hub" = some ⟨0, .unauthenticated "hub" 0 .all⟩ := by
    decide
  -- what is left of the visit is given by its fields
  obtain ⟨intent, hintent, hallows⟩ := hintent
  exact ⟨{
    gateway := "gateway"
    admissions := []
    senders := fun _ => hubAcceptors.toPeerSenders
    acceptors := hubAcceptors
    caller := none
    context := ⟨0, .unauthenticated "hub" 0 .all⟩
    req := hubRequest path
    call := hubCall path
    correlationId := 0
    sent := sent
    http := ⟨"http", "hub.example", "/servers/hub/", none⟩
    ws := ⟨"ws", "hub.example", "/servers/hub/", none⟩
    reads := lampReads
    peers := []
    page := page
    served := hserve
    resolved := rfl
    checked := Gateway.gate_eq_checked_iff.mpr
      ⟨(by decide : "hub" ≠ "gateway"), hcontext, intent, hintent, fun caller h => (by cases h),
        hallows⟩
    built := hbuilt
    scheme := (by decide : "http" ∈ ["http", "https"])
    host := by
      rw [hbases]
      exact isHostText_hub
    httpBase := by
      rw [hbases]
      exact hparse
    wsBase := by
      rw [hbases]
      exact hparseWs
    rendered := hpage }, ⟨rfl, rfl, rfl, rfl, rfl, rfl, rfl⟩, htest⟩

/-- Someone visits the lamp. -/
theorem exists_lampVisit : ∃ visit : Visit textRouter webUrls,
    visit.IsHub "/servers/hub/resources/lamp%201" ∧ isLampPage visit.page = true := by
  have hasks : Asks formPairs ["servers", Str.percentEncode "hub"] (.resource "lamp 1")
      (hubRequest "/servers/hub/resources/lamp%201") := by
    refine ⟨rfl, ?_, by decide⟩
    decide
  obtain ⟨-, hserve, hintent⟩ :=
    hasks.forwarded lawful_textRouter (by decide) (by decide : "hub" ≠ "gateway") rfl (by decide)
  exact exists_hubVisit hserve ⟨_, hintent, by decide⟩ (by decide +kernel)

theorem Visit.IsHub.target {path : String} {visit : Visit textRouter webUrls}
    (h : visit.IsHub path) : IsOrdinaryName visit.call.targetName := by
  rw [h.call]
  exact (by decide : IsOrdinaryName "hub")

theorem Visit.exists_lampControl {visit : Visit textRouter webUrls}
    (h : isLampPage visit.page = true) : ∃ c ∈ visit.page.controls,
      c.method = "POST" ∧ (routed c.method (webUrls.path c.href)).isSome = true := by
  obtain ⟨c, hc, h⟩ := List.any_eq_true.mp h
  simp only [Bool.and_eq_true, beq_iff_eq] at h
  exact ⟨c, hc, h.1, h.2⟩

theorem offered_controls_pass_lamp : ∃ visit : Visit textRouter webUrls,
    ∃ c ∈ visit.page.controls, c.method = "POST" ∧
      visit.Passes visit.senders (c.request webUrls (fun _ => "") none [] []) := by
  obtain ⟨visit, hhub, hlamp⟩ := exists_lampVisit
  obtain ⟨c, hc, hmethod, hrouted⟩ := Visit.exists_lampControl hlamp
  refine ⟨visit, c, hc, hmethod, (offered_controls_pass textRouter webUrls lawful_textRouter
    lawful_webUrls visit hhub.target c hc (fun _ => "") none [] [] visit.senders).mpr ⟨?_, ?_⟩⟩
  · rw [← (Siren.Control.path_url lawful_webUrls c (fun _ => "")).1] at hrouted
    exact hrouted
  · -- a request without credentials is one of nobody
    exact ⟨none, rfl, fun intent _ caller h => (by cases h)⟩

/-- A page of a lamp offers a control whose url is not the page's own. -/
theorem offered_controls_routed_lamp : ∃ visit : Visit textRouter webUrls,
    ∃ c ∈ visit.page.controls, c.method = "POST" ∧
      (visit.view (fun _ => "")).hrefs.serverUrl webUrls.toUrlBuild ≠ some c.href := by
  obtain ⟨visit, hhub, hlamp⟩ := exists_lampVisit
  obtain ⟨c, hc, hmethod, hrouted⟩ := Visit.exists_lampControl hlamp
  have hlampReads : visit.reads.Ordinary := by
    rw [hhub.reads]
    exact lampReads_ordinary
  refine ⟨visit, c, hc, hmethod, (offered_controls_routed textRouter webUrls lawful_textRouter
    lawful_webUrls visit hhub.target hlampReads c hc (fun _ => "") none [] []).mp ?_⟩
  rw [← (Siren.Control.path_url lawful_webUrls c (fun _ => "")).1] at hrouted
  exact hrouted

end Boardwalk
