import Boardwalk.Http.Spec.Pages

/-!
# Where own links lead

The own link of a page is a path of the gateway, and often not the one that the page was asked for:
the results of a query stand under the resources, and a name may be spelled in many ways.  Who
follows it gets the page again (`own_link_leads_back`), and who follows the own link of an entity on
the page gets a page that says the same of it (`embedded_link_opens`).
-/

namespace Boardwalk

open Reference

/-! ### What a device answers -/

namespace Asks

variable {ρ υ : Type} {ops : RouterOps ρ} {formParse : FormParse} {target : String}
  {d : Destination} {req : ServerRequest}

/-- A device answers with the page of the destination. -/
theorem servePage_eq (hops : ops.Lawful) {core : String} {reads : CoreReads}
    {peers : List PeerRenderPolicy}
    (h : Asks ops.formParse ["servers", Str.percentEncode core] d req) (hcore : core ≠ "")
    (hnames : ∀ name ∈ d.names, IsOrdinaryName name) (urls : UrlBuild υ) :
    ops.servePage urls core reads peers req =
      (Render.buildHrefs urls.toUrlOps req.headers req.uri core).bind fun hrefs =>
        Render.destinationPage urls hrefs (renderPolicyFromHeaders req.headers) reads d := by
  -- the router finds the destination's handler, and the handler reads its query
  have hrouted := h.routed_eq hcore hnames
  have hread : ops.query req QueryParams.ofPairs = QueryParams.ofPairs d.pairs := by
    rw [RouterOps.query, h.pairs]
  cases hroute : d.route core with
  | none =>
    rw [hroute, Option.map_none] at hrouted
    -- a server's own page is no destination here
    rw [RouterOps.servePage, hrouted, Option.bind_none]
    cases d with
    | server name => simp [Render.destinationPage]
    | _ => cases hroute
  | some r =>
    rw [hroute, Option.map_some] at hrouted
    rw [RouterOps.servePage_of_routed hrouted (mapM_decode hops r.2), RouterOps.page]
    congr 1
    funext hrefs
    cases d with
    | server name => cases hroute
    | resources =>
      cases hroute
      dsimp only
      rw [RouterOps.pageUnder, if_pos rfl, hread.trans QueryParams.ofPairs_nil]
      rfl
    | search ql =>
      cases hroute
      dsimp only
      rw [RouterOps.pageUnder, if_pos rfl, hread.trans (QueryParams.ofPairs_ql ql)]
      rfl
    | transition id name => cases hroute; rfl
    | events topic => cases hroute; rfl
    | _ =>
      cases hroute
      dsimp only
      rw [RouterOps.pageUnder, if_pos rfl, Render.destinationPage]

end Asks

/-! ### The own link of a page -/

/-- What is listed is read in the same way by its id. -/
structure CoreReads.Agrees (reads : CoreReads) : Prop where
  listed : ∀ snap ∈ reads.listResources, reads.getResource snap.id = some snap
  found : ∀ ql snaps, reads.queryResources ql = some snaps → ∀ snap ∈ snaps,
    reads.getResource snap.id = some snap

/-- A resource is read with the id that it is asked for by. -/
def CoreReads.Identified (reads : CoreReads) : Prop :=
  ∀ id snap, reads.getResource id = some snap → snap.id = id

namespace Render

open Siren

variable {υ : Type} {v : View υ} {reads : CoreReads} {e : Entity υ}

theorem entities_withSubEntities (subs : List (EmbeddedEntity υ)) (e : Entity υ) :
    (subs.foldl Entity.withSubEntity e).entities = e.entities ++ subs := by
  induction subs generalizing e with
  | nil => exact (List.append_nil _).symm
  | cons sub rest ih =>
    rw [List.foldl_cons, ih]
    simp [Entity.withSubEntity]

theorem links_withSubEntities (subs : List (EmbeddedEntity υ)) (e : Entity υ) :
    (subs.foldl Entity.withSubEntity e).links = e.links := by
  induction subs generalizing e with
  | nil => rfl
  | cons sub rest ih => exact ih (e.withSubEntity sub)

/-- A list of resources has the links that it began with. -/
theorem links_withResources {urls : UrlBuild υ} {h : Hrefs υ} {policy : RenderPolicy}
    {e e' : Entity υ} {snaps : List Snapshot}
    (hwith : withResources urls h policy e snaps = some e') : e'.links = e.links := by
  obtain ⟨queried, hqueried, hwith⟩ := Option.bind_eq_some_iff.mp hwith
  obtain ⟨subs, -, hwith⟩ := Option.bind_eq_some_iff.mp hwith
  cases hwith
  rw [links_withSubEntities]
  unfold withQueryAction at hqueried
  split at hqueried
  · obtain ⟨a, -, rfl⟩ := Option.map_eq_some_iff.mp hqueried
    rfl
  · cases hqueried
    rfl

/-- The entities of a list of resources. -/
theorem exists_of_mem_withResources {urls : UrlBuild υ} {h : Hrefs υ} {policy : RenderPolicy}
    {e e' : Entity υ} {snaps : List Snapshot} {sub : EmbeddedEntity υ} (hempty : e.entities = [])
    (hwith : withResources urls h policy e snaps = some e') (hsub : sub ∈ e'.entities) :
    ∃ snap ∈ snaps, resourceSubEntity urls h policy snap = some sub := by
  obtain ⟨queried, hqueried, hwith⟩ := Option.bind_eq_some_iff.mp hwith
  obtain ⟨subs, hsubs, hwith⟩ := Option.bind_eq_some_iff.mp hwith
  cases hwith
  have hentities : queried.entities = [] := by
    unfold withQueryAction at hqueried
    split at hqueried
    · obtain ⟨a, -, rfl⟩ := Option.map_eq_some_iff.mp hqueried
      exact hempty
    · cases hqueried
      exact hempty
  rw [entities_withSubEntities, hentities, List.nil_append] at hsub
  exact View.exists_of_mem_mapM hsubs hsub

/-- A kind is shown as the first spec that has it. -/
theorem find?_of_mem_unseenKinds {ty : ActorSpec} {seen : List String} {types : List ActorSpec}
    (h : ty ∈ unseenKinds seen types) :
    types.find? (fun spec => spec.resource.kind == ty.resource.kind) = some ty ∧
      ty.resource.kind ∉ seen := by
  -- on the types; `seen` grows by the first of each kind
  induction types generalizing seen with
  | nil => cases h
  | cons first rest ih =>
    -- a kind that was seen is not the first entry's
    have hskip : first.resource.kind ≠ ty.resource.kind →
        (first :: rest).find? (fun spec => spec.resource.kind == ty.resource.kind) =
          rest.find? fun spec => spec.resource.kind == ty.resource.kind := by
      intro hne
      exact List.find?_cons_of_neg (by simpa using hne)
    rw [unseenKinds] at h
    split at h
    · rename_i hseen
      obtain ⟨hfind, hnot⟩ := ih h
      refine ⟨(hskip fun heq => hnot ?_).trans hfind, hnot⟩
      rw [← heq]
      exact List.contains_iff_mem.mp hseen
    · rename_i hunseen
      rcases List.mem_cons.mp h with rfl | h
      · exact ⟨List.find?_cons_of_pos (by simp), fun hmem =>
          hunseen (List.contains_iff_mem.mpr hmem)⟩
      · obtain ⟨hfind, hnot⟩ := ih h
        rw [List.mem_cons, not_or] at hnot
        exact ⟨(hskip fun heq => hnot.1 heq.symm).trans hfind, hnot.2⟩

/-- The only own link among links of other kinds. -/
theorem eq_of_self_mem {l own : Link υ} {rest : List (Link υ)} (hl : l ∈ own :: rest)
    (hself : rels.SELF ∈ l.rel) (hrest : ∀ other ∈ rest, rels.SELF ∉ other.rel) : l = own := by
  rcases List.mem_cons.mp hl with rfl | hl
  · rfl
  · exact absurd hself (hrest l hl)

namespace View

/-- **The own link of a page** leads to the destination of the page. -/
theorem leadsTo_of_self (hv : v.Sound) (hids : reads.Identified) {d : Destination}
    (h : destinationPage v.urls.toUrlBuild v.hrefs v.policy reads d = some e)
    {l : Link υ} (hl : l ∈ e.links) (hself : rels.SELF ∈ l.rel) :
    l.control.LeadsTo v.urls v.formParse v.dir v.values d := by
  -- every page has one `self` link, and the page is rendered from its own destination
  cases d with
  | server name => cases h
  | transition id name => cases h
  | events topic => cases h
  | resources =>
    obtain ⟨url, hurl, h⟩ := Option.bind_eq_some_iff.mp h
    rw [links_withResources h] at hl
    obtain rfl := List.mem_singleton.mp hl
    exact leadsTo_resources hv hurl
  | search ql =>
    obtain ⟨snaps, -, h⟩ := Option.bind_eq_some_iff.mp h
    obtain ⟨url, hurl, h⟩ := Option.bind_eq_some_iff.mp h
    rw [links_withResources h] at hl
    obtain rfl := List.mem_singleton.mp hl
    exact leadsTo_search hv hurl
  | resource id =>
    obtain ⟨snap, hsnap, h⟩ := Option.bind_eq_some_iff.mp h
    simp only [renderResource, Option.bind_eq_bind, Option.bind_eq_some_iff, Option.pure_def,
      Option.some.injEq] at h
    obtain ⟨own, hown, resources, -, ty, -, actions, -, streams, hstreams, rfl⟩ := h
    obtain rfl := eq_of_self_mem hl hself (by
      -- no other link of the page is a `self`
      intro other hother
      rcases List.mem_cons.mp hother with rfl | hother
      · exact (by decide : rels.SELF ∉ [rels.UP, rels.RESOURCES])
      rcases List.mem_cons.mp hother with rfl | hother
      · exact (by decide : rels.SELF ∉ [rels.TYPE, "describedby"])
      · unfold streamLinks at hstreams
        split at hstreams
        · obtain ⟨stream, -, hstream⟩ := exists_of_mem_mapM hstreams hother
          obtain ⟨url, -, rfl⟩ := Option.map_eq_some_iff.mp hstream
          exact (by decide : rels.SELF ∉ [rels.MONITOR, rels.OBJECT_STREAM])
        · cases hstreams
          cases hother)
    rw [← hids id snap hsnap]
    exact leadsTo_resource hv hown
  | «meta» =>
    simp only [destinationPage, renderMeta, Option.bind_eq_bind, Option.bind_eq_some_iff,
      Option.pure_def, Option.some.injEq] at h
    obtain ⟨own, hown, resources, -, monitor, hmonitor, subs, -, rfl⟩ := h
    rw [links_withSubEntities] at hl
    obtain rfl := eq_of_self_mem hl hself (by
      -- likewise for the metadata page
      intro other hother
      rcases List.mem_cons.mp hother with rfl | hother
      · exact (by decide : rels.SELF ∉ [rels.RESOURCES])
      · split at hmonitor
        · obtain ⟨url, -, rfl⟩ := Option.map_eq_some_iff.mp hmonitor
          obtain rfl := List.mem_singleton.mp hother
          exact (by decide : rels.SELF ∉ [rels.MONITOR])
        · cases hmonitor
          cases hother)
    exact leadsTo_meta hv hown
  | metaType ty =>
    obtain ⟨spec, hspec, h⟩ := Option.bind_eq_some_iff.mp h
    obtain ⟨sub, hsub, h⟩ := Option.bind_eq_some_iff.mp h
    obtain ⟨own, hown, hsub⟩ := Option.bind_eq_some_iff.mp hsub
    cases hsub
    cases h
    obtain rfl := List.mem_singleton.mp hl
    have hkind : spec.resource.kind = ty := by simpa using List.find?_some hspec
    rw [← hkind]
    exact leadsTo_metaType hv hown

/-- The destination that the own link of an entity is for, and what its page says. -/
structure Opens (v : View υ) (reads : CoreReads) (sub : EmbeddedEntity υ) (l : Link υ)
    (d : Destination) : Prop where
  leads : l.control.LeadsTo v.urls v.formParse v.dir v.values d
  forwarded : d.isForwarded = true
  allowed : v.policy.capabilities.contains d.intent.requiredCapability = true
  names : reads.Ordinary → ∀ name ∈ d.names, IsOrdinaryName name
  page : ∀ e, destinationPage v.urls.toUrlBuild v.hrefs v.policy reads d = some e →
    e.class = sub.class ∧ e.properties = sub.properties

/-- The self link of an embedded resource opens that resource. -/
theorem opens_of_resourceSubEntity (hv : v.Sound) {snap : Snapshot} {sub : EmbeddedEntity υ}
    (hread : reads.getResource snap.id = some snap)
    (h : resourceSubEntity v.urls.toUrlBuild v.hrefs v.policy snap = some sub) {l : Link υ}
    (hl : l ∈ sub.links) (hself : rels.SELF ∈ l.rel) :
    v.Opens reads sub l (.resource snap.id) := by
  unfold resourceSubEntity at h
  split at h
  · rename_i hcan
    -- the sub-entity's `self` is its first link
    simp only [Option.bind_eq_bind, Option.bind_eq_some_iff, Option.pure_def,
      Option.some.injEq] at h
    obtain ⟨own, hown, resources, -, rfl⟩ := h
    obtain rfl := eq_of_self_mem hl hself (by
      intro other hother
      obtain rfl := List.mem_singleton.mp hother
      exact (by decide : rels.SELF ∉ [rels.UP, rels.RESOURCES]))
    refine ⟨leadsTo_resource hv hown, rfl, hcan, fun hreads name hname => ?_, fun e he => ?_⟩
    · rw [List.mem_singleton.mp hname]
      exact (hreads.read snap.id snap hread).id
    · obtain ⟨found, hfound, he⟩ := Option.bind_eq_some_iff.mp he
      -- what is read again is the snapshot that was embedded
      obtain rfl : snap = found := Option.some.inj (hread.symm.trans hfound)
      simp only [renderResource, Option.bind_eq_bind, Option.bind_eq_some_iff, Option.pure_def,
        Option.some.injEq] at he
      obtain ⟨_, -, _, -, _, -, _, -, _, -, rfl⟩ := he
      exact ⟨rfl, rfl⟩
  · cases h
    cases hl

/-- The links of an embedded kind open its metadata. -/
theorem opens_of_metaTypeSubEntity (hv : v.Sound) (hcan : v.policy.canReadResources = true)
    {ty : ActorSpec} {sub : EmbeddedEntity υ} (hty : ty ∈ unseenKinds [] reads.actorSpecs)
    (h : metaTypeSubEntity v.urls.toUrlBuild v.hrefs ty = some sub) {l : Link υ}
    (hl : l ∈ sub.links) : v.Opens reads sub l (.metaType ty.resource.kind) := by
  have hfind := (find?_of_mem_unseenKinds hty).1
  obtain ⟨own, hown, hsub⟩ := Option.bind_eq_some_iff.mp h
  cases hsub
  obtain rfl := List.mem_singleton.mp hl
  refine ⟨leadsTo_metaType hv hown, rfl, hcan, fun hreads name hname => ?_, fun e he => ?_⟩
  · rw [List.mem_singleton.mp hname]
    exact hreads.kinds ty (List.mem_of_find?_eq_some hfind)
  · obtain ⟨spec, hspec, he⟩ := Option.bind_eq_some_iff.mp he
    obtain rfl : ty = spec := Option.some.inj (hfind.symm.trans hspec)
    obtain ⟨again, hagain, he⟩ := Option.bind_eq_some_iff.mp he
    obtain rfl := Option.some.inj (h.symm.trans hagain)
    cases he
    exact ⟨rfl, rfl⟩

/-- **The own link of an entity** on the page of a destination. -/
theorem opens_of_destinationPage (hv : v.Sound) (hagrees : reads.Agrees) {d : Destination}
    (hcan : v.policy.capabilities.contains d.intent.requiredCapability = true)
    (h : destinationPage v.urls.toUrlBuild v.hrefs v.policy reads d = some e)
    {sub : EmbeddedEntity υ} (hsub : sub ∈ e.entities) {l : Link υ} (hl : l ∈ sub.links)
    (hself : rels.SELF ∈ l.rel) : ∃ d', v.Opens reads sub l d' := by
  -- only pages that embed resources or kinds have sub-entities
  cases d with
  | server name => cases h
  | transition id name => cases h
  | events topic => cases h
  | resources =>
    obtain ⟨url, -, h⟩ := Option.bind_eq_some_iff.mp h
    obtain ⟨snap, hsnap, hembedded⟩ := exists_of_mem_withResources rfl h hsub
    exact ⟨_, opens_of_resourceSubEntity hv (hagrees.listed snap hsnap) hembedded hl hself⟩
  | search ql =>
    obtain ⟨snaps, hsnaps, h⟩ := Option.bind_eq_some_iff.mp h
    obtain ⟨url, -, h⟩ := Option.bind_eq_some_iff.mp h
    obtain ⟨snap, hsnap, hembedded⟩ := exists_of_mem_withResources rfl h hsub
    exact ⟨_, opens_of_resourceSubEntity hv (hagrees.found ql snaps hsnaps snap hsnap) hembedded hl
      hself⟩
  | resource id =>
    obtain ⟨snap, -, h⟩ := Option.bind_eq_some_iff.mp h
    simp only [renderResource, Option.bind_eq_bind, Option.bind_eq_some_iff, Option.pure_def,
      Option.some.injEq] at h
    obtain ⟨_, -, _, -, _, -, _, -, _, -, rfl⟩ := h
    cases hsub
  | «meta» =>
    simp only [destinationPage, renderMeta, Option.bind_eq_bind, Option.bind_eq_some_iff,
      Option.pure_def, Option.some.injEq] at h
    obtain ⟨_, -, _, -, _, -, subs, hsubs, rfl⟩ := h
    rw [entities_withSubEntities, List.nil_append] at hsub
    obtain ⟨ty, hty, hembedded⟩ := exists_of_mem_mapM hsubs hsub
    exact ⟨_, opens_of_metaTypeSubEntity hv hcan hty hembedded hl⟩
  | metaType ty =>
    obtain ⟨spec, -, h⟩ := Option.bind_eq_some_iff.mp h
    obtain ⟨shown, -, h⟩ := Option.bind_eq_some_iff.mp h
    cases h
    cases hsub

end View

end Render

/-- The names of a page's destination mean nothing else in a path. -/
theorem CoreReads.Ordinary.names {υ : Type} {urls : UrlBuild υ} {h : Render.Hrefs υ}
    {policy : RenderPolicy} {reads : CoreReads} {d : Destination} {e : Siren.Entity υ}
    (hreads : reads.Ordinary) (hids : reads.Identified)
    (hpage : Render.destinationPage urls h policy reads d = some e) :
    ∀ name ∈ d.names, IsOrdinaryName name := by
  intro name hname
  cases d with
  | server name => cases hpage
  | transition id name => cases hpage
  | resource id =>
    obtain ⟨snap, hsnap, -⟩ := Option.bind_eq_some_iff.mp hpage
    rw [List.mem_singleton.mp hname, ← hids id snap hsnap]
    exact (hreads.read id snap hsnap).id
  | metaType ty =>
    obtain ⟨spec, hspec, -⟩ := Option.bind_eq_some_iff.mp hpage
    have hkind : spec.resource.kind = ty := by simpa using List.find?_some hspec
    rw [List.mem_singleton.mp hname, ← hkind]
    exact hreads.kinds spec (List.mem_of_find?_eq_some hspec)
  | _ => cases hname

namespace Visit

variable {ρ υ : Type} {ops : RouterOps ρ} {urls : UrlParts υ}

/-- The page is the one of the server, or of the destination that the request was taken for. -/
theorem page_cases (hops : ops.Lawful) (visit : Visit ops urls) (values : String → String) :
    Render.renderServer urls.toUrlBuild (visit.view values).hrefs (visit.view values).policy
        visit.reads.listResources = some visit.page ∨
      ∃ d, visit.call.intent ops.formParse = some d.intent ∧
        Render.destinationPage urls.toUrlBuild (visit.view values).hrefs
          (visit.view values).policy visit.reads d = some visit.page := by
  obtain ⟨-, calls, hforwards⟩ := RouterOps.exists_forwards hops visit.served
  obtain ⟨hhttp, hws⟩ := visit.isVisible_bases
  have hhrefs := buildHrefs_forwarded visit.built ⟨hhttp, visit.httpBase⟩ ⟨hws, visit.wsBase⟩
    (visit.call.arrive visit.sent.headers visit.sent.body).uri visit.call.targetName
  rcases RouterOps.page_of_forwards hops urls.toUrlBuild hforwards hhrefs
    (renderPolicy_forwarded visit.built) visit.rendered with ⟨-, hpage⟩ | hpage
  · exact .inl hpage
  · exact .inr hpage

/-- Whoever asks for a destination at the gateway of the visit, with the same host, gets the page of
the destination. -/
theorem servePage_of_asks (hops : ops.Lawful) {visit : Visit ops urls} {d : Destination}
    {req : ServerRequest} {caller : Option AdmittedPeerConnection} {correlationId : Uuid}
    {sent : HttpRequest (List UInt8)} (htarget : visit.call.targetName ≠ "")
    (hnames : ∀ name ∈ d.names, IsOrdinaryName name)
    (h : Asks ops.formParse ["servers", Str.percentEncode visit.call.targetName] d req)
    (hhost : req.headers.get HOST = visit.req.headers.get HOST)
    (hscheme : req.uri.schemeStr = visit.call.uri.schemeStr)
    (hbuilt : buildPeerForwardRequest ops.http {
      gatewayName := visit.gateway
      renderCapabilities := visit.context.admitted.negotiatedCapabilities
      caller := caller } visit.call.targetName req.method req.uri req.headers req.body
        correlationId = .ok sent)
    (peers : List PeerRenderPolicy) (values : String → String) :
    ops.servePage urls.toUrlBuild visit.call.targetName visit.reads peers
      (ForwardCall.arrive ⟨visit.call.targetName, req.method, req.uri⟩ sent.headers sent.body) =
        Render.destinationPage urls.toUrlBuild (visit.view values).hrefs
          (visit.view values).policy visit.reads d := by
  have hasks : Asks ops.formParse ["servers", Str.percentEncode visit.call.targetName] d
      (ForwardCall.arrive ⟨visit.call.targetName, req.method, req.uri⟩ sent.headers sent.body) :=
    ⟨h.method, h.path, h.pairs⟩
  -- the gateway states the same bases
  have hbases : forwardedExternalBases req.headers req.uri visit.call.targetName =
      forwardedExternalBases visit.req.headers visit.call.uri visit.call.targetName := by
    unfold forwardedExternalBases
    rw [hscheme, hhost]
  obtain ⟨hhttp, hws⟩ := visit.isVisible_bases
  have hhrefs := buildHrefs_forwarded hbuilt
    (by rw [hbases]; exact ⟨hhttp, visit.httpBase⟩) (by rw [hbases]; exact ⟨hws, visit.wsBase⟩)
    (ForwardCall.arrive ⟨visit.call.targetName, req.method, req.uri⟩ sent.headers sent.body).uri
    visit.call.targetName
  have hpolicy : renderPolicyFromHeaders sent.headers = (visit.view values).policy :=
    renderPolicy_forwarded hbuilt
  rw [hasks.servePage_eq hops htarget hnames, ← hpolicy]
  show (Render.buildHrefs urls.toUrlOps sent.headers _ _).bind _ = _
  rw [hhrefs]
  rfl

end Visit

variable {ρ υ : Type} (ops : RouterOps ρ) (urls : UrlParts υ)

/-- **The own link of a page leads back to it**: whoever follows it with the host of the visit, and
is taken for its caller, is let through to the device, which answers with the page again as long as
it reads the same.  It is not so for the own link of a server, which leads nowhere. -/
theorem own_link_leads_back (hops : ops.Lawful) (hurls : urls.Lawful ops.formParse)
    (visit : Visit ops urls) (htarget : IsOrdinaryName visit.call.targetName)
    (hreads : visit.reads.Ordinary) (hids : visit.reads.Identified)
    (l : Siren.Link υ) (hl : l ∈ visit.page.links) (hself : rels.SELF ∈ l.rel)
    (values : String → String) (headers : HeaderMap) (body : List UInt8)
    (hown : (visit.view values).hrefs.serverUrl urls.toUrlBuild ≠ some l.href)
    (hhost : headers.get HOST = visit.req.headers.get HOST) (senders : ℕ → PeerSenders)
    (hcaller : resolveCallerIngress headers visit.admissions senders = .ok visit.caller) :
    let again := l.control.request urls values visit.call.uri.schemeStr headers body
    visit.Passes senders again ∧
      ∀ (correlationId : Uuid) (sent : HttpRequest (List UInt8)) (peers : List PeerRenderPolicy),
        buildPeerForwardRequest ops.http {
          gatewayName := visit.gateway
          renderCapabilities := visit.context.admitted.negotiatedCapabilities
          caller := visit.caller } visit.call.targetName again.method again.uri again.headers
            again.body correlationId = .ok sent →
        ops.servePage urls.toUrlBuild visit.call.targetName visit.reads peers
          (ForwardCall.arrive ⟨visit.call.targetName, again.method, again.uri⟩ sent.headers
            sent.body) = some visit.page := by
  intro again
  rcases visit.page_cases hops values with hserver | ⟨d, hintent, hpage⟩
  · simp only [Render.renderServer, Option.bind_eq_bind, Option.bind_eq_some_iff] at hserver
    obtain ⟨url, hurl, resources, -, hserver⟩ := hserver
    rw [Render.links_withResources hserver] at hl
    obtain rfl := Render.eq_of_self_mem hl hself (by
      intro other hother
      obtain rfl := List.mem_singleton.mp hother
      exact (by decide : rels.SELF ∉ [rels.RESOURCES]))
    exact absurd hurl hown
  · have hnames := hreads.names hids hpage
    have hleads := Render.View.leadsTo_of_self (Visit.sound hops hurls htarget values) hids hpage
      hl hself
    have hasks : Asks ops.formParse ["servers", Str.percentEncode visit.call.targetName] d again :=
      hleads.asks hurls visit.question_not_mem_dir _ headers body
    have hforwarded : d.isForwarded = true := by
      cases d with
      | server name => cases hpage
      | _ => rfl
    obtain ⟨-, -, intent, hsame, hmay, hallows⟩ :=
      Gateway.gate_eq_checked_iff.mp visit.checked
    -- the link is for what the request of the visit was taken for
    obtain rfl : d.intent = intent := Option.some.inj (hintent.symm.trans hsame)
    constructor
    · rw [Visit.passes_iff_of_asks hops htarget.1 hforwarded hallows hnames hasks]
      refine ⟨visit.caller, hcaller, fun i hi => ?_⟩
      obtain ⟨hne, -⟩ := Gateway.gate_eq_checked_iff.mp visit.checked
      have hagain := (hasks.forwarded hops htarget.1 hne hforwarded hnames).2.2
      obtain rfl : d.intent = i := Option.some.inj (hagain.symm.trans hi)
      exact hmay
    · intro correlationId sent peers hbuilt
      exact (Visit.servePage_of_asks hops htarget.1 hnames hasks hhost rfl hbuilt peers
        values).trans hpage

/-- **The own link of an entity opens it**: whoever follows it with the host of the visit is let
through to the device exactly if the ingress does not refuse the request and the own capabilities of
the caller it finds allow it, and the page says the same of the entity, as long as the device reads
the same. -/
theorem embedded_link_opens (hops : ops.Lawful) (hurls : urls.Lawful ops.formParse)
    (visit : Visit ops urls) (htarget : IsOrdinaryName visit.call.targetName)
    (hreads : visit.reads.Ordinary) (hagrees : visit.reads.Agrees)
    (sub : Siren.EmbeddedEntity υ) (hsub : sub ∈ visit.page.entities)
    (l : Siren.Link υ) (hl : l ∈ sub.links) (hself : rels.SELF ∈ l.rel)
    (values : String → String) (headers : HeaderMap) (body : List UInt8)
    (hhost : headers.get HOST = visit.req.headers.get HOST) (senders : ℕ → PeerSenders) :
    let again := l.control.request urls values visit.call.uri.schemeStr headers body
    (visit.Passes senders again ↔ visit.CallerMay senders again) ∧
      ∀ (caller : Option AdmittedPeerConnection) (correlationId : Uuid)
        (sent : HttpRequest (List UInt8)) (peers : List PeerRenderPolicy) (page : Siren.Entity υ),
        buildPeerForwardRequest ops.http {
          gatewayName := visit.gateway
          renderCapabilities := visit.context.admitted.negotiatedCapabilities
          caller := caller } visit.call.targetName again.method again.uri again.headers
            again.body correlationId = .ok sent →
        ops.servePage urls.toUrlBuild visit.call.targetName visit.reads peers
          (ForwardCall.arrive ⟨visit.call.targetName, again.method, again.uri⟩ sent.headers
            sent.body) = some page →
        page.class = sub.class ∧ page.properties = sub.properties := by
  -- the embedded link leads to a destination, which the gate then admits
  intro again
  have hv := Visit.sound hops hurls htarget values
  obtain ⟨-, -, intent, hintent, -, hallows⟩ :=
    Gateway.gate_eq_checked_iff.mp visit.checked
  -- the two ways a page embeds: the server's root, and a destination's own list
  have hopens : ∃ d, (visit.view values).Opens visit.reads sub l d := by
    rcases visit.page_cases hops values with hserver | ⟨d, hsame, hpage⟩
    · simp only [Render.renderServer, Option.bind_eq_bind, Option.bind_eq_some_iff] at hserver
      obtain ⟨_, -, _, -, hserver⟩ := hserver
      obtain ⟨snap, hsnap, hembedded⟩ := Render.exists_of_mem_withResources rfl hserver hsub
      exact ⟨_, Render.View.opens_of_resourceSubEntity hv (hagrees.listed snap hsnap) hembedded hl
        hself⟩
    · obtain rfl : d.intent = intent := Option.some.inj (hsame.symm.trans hintent)
      -- the capability the page was rendered under is the one the gate checks
      exact Render.View.opens_of_destinationPage hv hagrees
        ((PeerCapabilities.contains_known _ d.intent).trans hallows) hpage hsub hl hself
  obtain ⟨d, hopens⟩ := hopens
  have hnames := hopens.names hreads
  have hasks : Asks ops.formParse ["servers", Str.percentEncode visit.call.targetName] d again :=
    hopens.leads.asks hurls visit.question_not_mem_dir _ headers body
  -- the values of a form do not matter: a link carries none
  have hknown := (PeerCapabilities.contains_known _ d.intent).symm.trans hopens.allowed
  refine ⟨Visit.passes_iff_of_asks hops htarget.1 hopens.forwarded hknown hnames hasks,
    fun caller correlationId sent peers page hbuilt hserved => ?_⟩
  rw [Visit.servePage_of_asks hops htarget.1 hnames hasks hhost rfl hbuilt peers values] at hserved
  exact hopens.page page hserved

theorem lampReads_identified : lampReads.Identified := by
  intro id snap h
  simp only [lampReads, Option.ite_none_right_eq_some, Option.some.injEq] at h
  rw [← h.2, h.1]

/-- The page of the lamp has an own link, which spells its name in one way. -/
def hasLampLink (e : Siren.Entity WebUrl) : Bool :=
  e.links.any fun l => l.rel.contains rels.SELF &&
    l.href == ⟨"http", "hub.example", "/servers/hub/resources/lamp%201", none⟩

/-- Someone visits the lamp under another spelling of its name. -/
theorem exists_spelledVisit : ∃ visit : Visit textRouter webUrls,
    visit.IsHub "/servers/hub/resources/l%61mp%201" ∧ hasLampLink visit.page = true := by
  have hrouted : routed "GET" "/servers/hub/resources/l%61mp%201" =
      some (.serverResourceGet, ["hub", "l%61mp%201"]) := by
    decide +kernel
  have hparams : ["hub", "l%61mp%201"].mapM textRouter.decode = some ["hub", "lamp 1"] := by
    decide +kernel
  have hserve : textRouter.serve "gateway" (hubRequest "/servers/hub/resources/l%61mp%201") =
      .forwarded (hubCall "/servers/hub/resources/l%61mp%201") :=
    Asks.serve_eq_forwarded hrouted hparams ⟨RouterOps.resourceResponse "lamp 1", rfl⟩
      (by decide)
  have hintent : (hubCall "/servers/hub/resources/l%61mp%201").intent formPairs =
      some .read := by
    decide +kernel
  exact exists_hubVisit hserve ⟨_, hintent, by decide⟩ (by decide +kernel)

/-- The self link of a page asked for by another spelling of its path leads back to it. -/
theorem own_link_leads_back_spelled : ∃ visit : Visit textRouter webUrls,
    visit.req.uri.path = "/servers/hub/resources/l%61mp%201" ∧ ∃ l ∈ visit.page.links,
      webUrls.path l.href = "/servers/hub/resources/lamp%201" ∧
        visit.Passes visit.senders (l.control.request webUrls (fun _ => "")
          visit.call.uri.schemeStr publicRequest.headers []) := by
  obtain ⟨visit, hvisit, hlink⟩ := exists_spelledVisit
  obtain ⟨l, hl, hl'⟩ := List.any_eq_true.mp hlink
  simp only [Bool.and_eq_true, List.contains_iff_mem, beq_iff_eq] at hl'
  obtain ⟨hself, hhref⟩ := hl'
  have hreads : visit.reads.Ordinary ∧ visit.reads.Identified := by
    rw [hvisit.reads]
    exact ⟨lampReads_ordinary, lampReads_identified⟩
  -- the resource's page is not the server's root
  have hjoin : webUrls.join ⟨"http", "hub.example", "/servers/hub/", none⟩
      ("servers/" ++ Str.percentEncode "hub") ≠
        some ⟨"http", "hub.example", "/servers/hub/resources/lamp%201", none⟩ := by
    decide +kernel
  have hown : (visit.view fun _ => "").hrefs.serverUrl webUrls.toUrlBuild ≠ some l.href := by
    rw [hhref, Render.Hrefs.serverUrl, Visit.view, hvisit.http, hvisit.call]
    exact hjoin
  have hhost : publicRequest.headers.get HOST = visit.req.headers.get HOST := by
    rw [hvisit.req]
    rfl
  refine ⟨visit, by rw [hvisit.req]; rfl, l, hl, by rw [hhref]; rfl, ?_⟩
  exact (own_link_leads_back textRouter webUrls lawful_textRouter lawful_webUrls visit
    hvisit.target hreads.1 hreads.2 l hl hself (fun _ => "") publicRequest.headers [] hown hhost
    visit.senders (by rw [hvisit.caller]; rfl)).1

theorem lampReads_agrees : lampReads.Agrees := by
  refine ⟨?_, ?_⟩
  · simp [lampReads]
  · simp [lampReads]

/-- The resources are listed with the lamp. -/
def listsLamp (e : Siren.Entity WebUrl) : Bool :=
  e.entities.any fun sub => sub.links.any fun l => l.rel.contains rels.SELF &&
    webUrls.path l.href == "/servers/hub/resources/lamp%201"

/-- The link of the one resource embedded in a listing opens it. -/
theorem embedded_link_opens_lamp : ∃ visit : Visit textRouter webUrls,
    visit.req.uri.path = "/servers/hub/resources" ∧ ∃ sub ∈ visit.page.entities, ∃ l ∈ sub.links,
      webUrls.path l.href = "/servers/hub/resources/lamp%201" ∧
        visit.Passes visit.senders (l.control.request webUrls (fun _ => "")
          visit.call.uri.schemeStr publicRequest.headers []) := by
  have hasks : Asks formPairs ["servers", Str.percentEncode "hub"] .resources
      (hubRequest "/servers/hub/resources") := by
    -- the witness visit lists the lamp, and its `self` link is followed
    refine ⟨rfl, ?_, by decide⟩
    decide +kernel
  obtain ⟨-, hserve, hintent⟩ :=
    hasks.forwarded lawful_textRouter (by decide) (by decide : "hub" ≠ "gateway") rfl (by decide)
  have hpasses : hubPasses "/servers/hub/resources" listsLamp = true := by
    decide +kernel
  obtain ⟨visit, hvisit, hlists⟩ := exists_hubVisit hserve ⟨_, hintent, by decide⟩ hpasses
  obtain ⟨sub, hsub, hlinks⟩ := List.any_eq_true.mp hlists
  obtain ⟨l, hl, hl'⟩ := List.any_eq_true.mp hlinks
  simp only [Bool.and_eq_true, List.contains_iff_mem, beq_iff_eq] at hl'
  have hreads : visit.reads.Ordinary ∧ visit.reads.Agrees := by
    rw [hvisit.reads]
    exact ⟨lampReads_ordinary, lampReads_agrees⟩
  have hhost : publicRequest.headers.get HOST = visit.req.headers.get HOST := by
    rw [hvisit.req]
    rfl
  refine ⟨visit, by rw [hvisit.req]; rfl, sub, hsub, l, hl, hl'.2, ?_⟩
  refine (embedded_link_opens textRouter webUrls lawful_textRouter lawful_webUrls visit
    hvisit.target hreads.1 hreads.2 sub hsub l hl hl'.1 (fun _ => "") publicRequest.headers []
    hhost visit.senders).1.mpr ⟨none, rfl, fun intent _ caller h => (by cases h)⟩

end Boardwalk
