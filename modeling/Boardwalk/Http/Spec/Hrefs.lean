import Boardwalk.Http.Hrefs
import Boardwalk.Http.Spec.Attestation

/-!
# Who steers the links

The names that start with `boardwalk-` belong to gateways, and of the requests on the public
listener everyone can send them.  `callerProvenance` asks for the marker of a tunnel before it reads
one.  The bases of the links and the policy of the rendering are read without it: `unsteered_iff`
says which pairs of requests are rendered alike.
-/

namespace Boardwalk

/-- The name belongs to gateways. -/
def isBoardwalkName (name : String) : Bool := Str.startsWith name "boardwalk-"

/-- The header maps have the same values, in the same order, for each name that is not a
gateway's. -/
def SamePublic (a b : HeaderMap) : Prop :=
  ∀ name, isBoardwalkName name = false →
    (a.filter fun h => h.1 = name) = b.filter fun h => h.1 = name

theorem HeaderMap.get_eq_head? (headers : HeaderMap) (name : String) :
    headers.get name = (headers.filter fun h => h.1 = name).head?.map Prod.snd := by
  rw [HeaderMap.get, List.head?_filter]

theorem headerText_congr {a b : HeaderMap} (h : SamePublic a b) {name : String}
    (hname : isBoardwalkName name = false) : headerText a name = headerText b name := by
  rw [headerText, headerText, HeaderMap.get_eq_head?, HeaderMap.get_eq_head?, h name hname]

/-! ### Stated and own -/

section

variable {υ : Type} (ops : UrlOps υ)

/-- The bases that the gateway's headers state. -/
def statedBases (headers : HeaderMap) : Option (υ × υ) :=
  (Render.headerUrl ops headers "boardwalk-external-base").map fun http =>
    (http, (Render.headerUrl ops headers "boardwalk-external-ws-base").getD
      (ops.setScheme http (if ops.scheme http = "https" then "wss" else "ws")))

/-- The bases of the host that the request is for. -/
def ownBases (headers : HeaderMap) (uri : Uri) : Option (υ × υ) :=
  let host := (headerText headers HOST).getD "localhost"
  let scheme := ((headerText headers "x-forwarded-proto").or uri.schemeStr).getD "http"
  (ops.parse (scheme ++ "://" ++ host ++ "/")).bind fun http =>
    (ops.parse ((if scheme = "https" then "wss" else "ws") ++ "://" ++ host ++ "/")).map fun ws =>
      (http, ws)

/-- The stated bases go before the request's own. -/
theorem buildHrefs_eq (headers : HeaderMap) (uri : Uri) (server : String) :
    Render.buildHrefs ops headers uri server =
      ((statedBases ops headers).or (ownBases ops headers uri)).map fun bases =>
        ⟨bases.1, bases.2, server⟩ := by
  unfold Render.buildHrefs statedBases
  cases Render.headerUrl ops headers "boardwalk-external-base" with
  | some http => rfl
  | none =>
    rw [Option.map_none, Option.none_or]
    simp only [ownBases, Option.bind_eq_bind, Option.pure_def, Option.map_eq_bind,
      Option.bind_assoc, Option.bind_some, Function.comp_def]

/-- A request's own bases are made of public headers. -/
theorem ownBases_congr {a b : HeaderMap} (h : SamePublic a b) (uri : Uri) :
    ownBases ops a uri = ownBases ops b uri := by
  have hhost : headerText a HOST = headerText b HOST := headerText_congr h (by decide)
  have hproto : headerText a "x-forwarded-proto" = headerText b "x-forwarded-proto" :=
    headerText_congr h (by decide)
  rw [ownBases, ownBases, hhost, hproto]

end

/-- The capabilities that the gateway's header states: none where it is no list of them. -/
def statedCapabilities (headers : HeaderMap) : Option PeerCapabilities :=
  (headers.get RENDER_CAPABILITIES_HEADER).map fun value =>
    (value.toStr.bind fun text => (PeerCapabilities.parseList text).toOption).getD .empty

theorem renderPolicyFromHeaders_eq (headers : HeaderMap) : renderPolicyFromHeaders headers =
    ⟨(statedCapabilities headers).getD .all⟩ := by
  unfold renderPolicyFromHeaders statedCapabilities
  cases headers.get RENDER_CAPABILITIES_HEADER with
  | none => rfl
  | some value =>
    cases htext : value.toStr with
    | none => simp [htext]
    | some text =>
      cases hlist : PeerCapabilities.parseList text <;>
        simp [htext, hlist, Except.toOption]

/-! ### Forwarded requests -/

section

variable {υ β : Type} {ops : HttpOps} {attestation : ForwardAttestation}
  {targetName method : String} {uri : Uri} {inbound : HeaderMap} {body : β} {correlationId : Uuid}
  {req : HttpRequest β}

/-- A node renders the links of a forwarded request under the gateway's bases. -/
theorem buildHrefs_forwarded {urls : UrlOps υ} {http ws : υ}
    (h : buildPeerForwardRequest ops attestation targetName method uri inbound body correlationId =
      .ok req)
    (hhttp : IsVisible (forwardedExternalBases inbound uri targetName).http ∧
      urls.parse (forwardedExternalBases inbound uri targetName).http = some http)
    (hws : IsVisible (forwardedExternalBases inbound uri targetName).ws ∧
      urls.parse (forwardedExternalBases inbound uri targetName).ws = some ws)
    (uri' : Uri) (server : String) :
    Render.buildHrefs urls req.headers uri' server = some ⟨http, ws, server⟩ := by
  obtain ⟨hout, hvalid⟩ := buildPeerForwardRequest_headers h
  have hbase : Render.headerUrl urls req.headers "boardwalk-external-base" = some http := by
    rw [Render.headerUrl, hout, headerText_built _ (by decide) hvalid]
    simp [gatewayHeaders, hhttp]
  have hwsBase : Render.headerUrl urls req.headers "boardwalk-external-ws-base" = some ws := by
    rw [Render.headerUrl, hout, headerText_built _ (by decide) hvalid]
    simp [gatewayHeaders, hws]
  rw [buildHrefs_eq, statedBases, hbase, hwsBase]
  rfl

/-- And for the capabilities that the gateway allows. -/
theorem renderPolicy_forwarded
    (h : buildPeerForwardRequest ops attestation targetName method uri inbound body correlationId =
      .ok req) :
    renderPolicyFromHeaders req.headers =
      ⟨⟨attestation.renderCapabilities.bits &&& PeerCapabilities.all.bits⟩⟩ := by
  obtain ⟨hout, hvalid⟩ := buildPeerForwardRequest_headers h
  have htext : headerText req.headers RENDER_CAPABILITIES_HEADER =
      some attestation.renderCapabilities.toText := by
    rw [hout, headerText_built _ (by decide) hvalid]
    simp [gatewayHeaders, RENDER_CAPABILITIES_HEADER, PeerCapabilities.isVisible_toText]
  obtain ⟨value, hget, htoStr⟩ := Option.bind_eq_some_iff.mp htext
  rw [renderPolicyFromHeaders_eq, statedCapabilities, hget, Option.map_some, htoStr,
    Option.bind_some, PeerCapabilities.parseList_toText]
  rfl

end

/-! ### Two requests -/

/-- Public requests that differ in no more than the gateways' headers. -/
structure PublicAlike (a b : InboundRequest) : Prop where
  left : a.tunnelLeg = false
  right : b.tunnelLeg = false
  uri : a.uri = b.uri
  headers : SamePublic a.headers b.headers

/-- Two readers with something of their own are told what makes no difference: the same thing, or
one of them nothing and the other what both have anyway. -/
def Agree {α : Type} (own e e' : Option α) : Prop :=
  e = e' ∨ (e = none ∧ e' = own) ∨ (e' = none ∧ e = own)

theorem or_eq_or_iff {α : Type} {own e e' : Option α} :
    e.or own = e'.or own ↔ Agree own e e' := by
  cases e <;> cases e' <;> simp [Agree, eq_comm]

section

variable {υ : Type} (ops : UrlOps υ) (server : String) {a b : InboundRequest}

/-- Two requests alike in public get the same hrefs exactly when the bases they state agree. -/
theorem buildHrefs_eq_iff (h : PublicAlike a b) :
    Render.buildHrefs ops a.headers a.uri server = Render.buildHrefs ops b.headers b.uri server ↔
      Agree (ownBases ops a.headers a.uri) (statedBases ops a.headers)
        (statedBases ops b.headers) := by
  have hown : ownBases ops b.headers b.uri = ownBases ops a.headers a.uri := by
    rw [h.uri, ownBases_congr ops h.headers]
  have hinj : Function.Injective fun bases : υ × υ =>
      ({ http := bases.1, ws := bases.2, server := server } : Render.Hrefs υ) := by
    rintro ⟨http, ws⟩ ⟨http', ws'⟩ heq
    cases heq
    rfl
  rw [buildHrefs_eq, buildHrefs_eq, hown, (Option.map_injective hinj).eq_iff, or_eq_or_iff]

theorem renderPolicy_eq_iff (x y : HeaderMap) :
    renderPolicyFromHeaders x = renderPolicyFromHeaders y ↔
      Agree (some .all) (statedCapabilities x) (statedCapabilities y) := by
  rw [renderPolicyFromHeaders_eq, renderPolicyFromHeaders_eq, RenderPolicy.mk.injEq,
    ← Option.some_inj, ← or_eq_or_iff, Option.or_some, Option.or_some]

/-- **Public requests do not steer the links** exactly where what their gateway headers state makes
no difference: the bases to the request's own ones, and the capabilities to all of them. -/
theorem unsteered_iff (h : PublicAlike a b) :
    (Render.buildHrefs ops a.headers a.uri server =
        Render.buildHrefs ops b.headers b.uri server ∧
      renderPolicyFromHeaders a.headers = renderPolicyFromHeaders b.headers) ↔
    Agree (ownBases ops a.headers a.uri) (statedBases ops a.headers)
        (statedBases ops b.headers) ∧
      Agree (some .all) (statedCapabilities a.headers) (statedCapabilities b.headers) := by
  rw [buildHrefs_eq_iff ops server h, renderPolicy_eq_iff]

end

/-- URLs that are kept as they are written. -/
def plainUrls : UrlOps String where
  parse text :=
    if ["http://", "https://", "ws://", "wss://"].any (Str.startsWith text) then some text else none
  scheme url := (Str.split ':' url).headD ""
  setScheme url scheme := scheme ++ String.ofList (url.toList.dropWhile (· ≠ ':'))

/-- A request on the public listener. -/
def publicRequest : InboundRequest where
  tunnelLeg := false
  headers := [(HOST, ⟨"hub.example".toUTF8.data.toList, by decide⟩)]
  uri := ⟨none, some "/resources", "/resources"⟩

/-- The request with a base that its sender made up. -/
def steeredRequest : InboundRequest where
  tunnelLeg := false
  headers := [(HOST, ⟨"hub.example".toUTF8.data.toList, by decide⟩),
    ("boardwalk-external-base", ⟨"https://evil.example/".toUTF8.data.toList, by decide⟩)]
  uri := ⟨none, some "/resources", "/resources"⟩

/-- The request with the base that it has anyway. -/
def ownBaseRequest : InboundRequest where
  tunnelLeg := false
  headers := [(HOST, ⟨"hub.example".toUTF8.data.toList, by decide⟩),
    ("boardwalk-external-base", ⟨"http://hub.example/".toUTF8.data.toList, by decide⟩)]
  uri := ⟨none, some "/resources", "/resources"⟩

/-- A base that the sender states is not public. -/
theorem publicAlike_of_base {r : InboundRequest} {base : HeaderValue} (hleg : r.tunnelLeg = false)
    (huri : publicRequest.uri = r.uri)
    (hheaders : r.headers = publicRequest.headers ++ [("boardwalk-external-base", base)]) :
    PublicAlike publicRequest r where
  left := rfl
  right := hleg
  uri := huri
  headers := by
    intro name hname
    have hne : "boardwalk-external-base" ≠ name := by
      rintro rfl
      exact absurd hname (by decide)
    simp [hheaders, publicRequest, List.filter_cons, hne]

theorem publicAlike_steered : PublicAlike publicRequest steeredRequest :=
  publicAlike_of_base rfl rfl rfl

/-- The made-up base steers the links, and the own one does not. -/
theorem unsteered_iff_steered :
    ¬ (Render.buildHrefs plainUrls publicRequest.headers publicRequest.uri "hub" =
        Render.buildHrefs plainUrls steeredRequest.headers steeredRequest.uri "hub" ∧
      renderPolicyFromHeaders publicRequest.headers =
        renderPolicyFromHeaders steeredRequest.headers) ∧
    Render.buildHrefs plainUrls publicRequest.headers publicRequest.uri "hub" =
        Render.buildHrefs plainUrls ownBaseRequest.headers ownBaseRequest.uri "hub" ∧
      renderPolicyFromHeaders publicRequest.headers =
        renderPolicyFromHeaders ownBaseRequest.headers := by
  have hown : PublicAlike publicRequest ownBaseRequest := publicAlike_of_base rfl rfl rfl
  constructor
  · rw [unsteered_iff plainUrls "hub" publicAlike_steered]
    rintro ⟨hbases | ⟨-, hbases⟩ | ⟨hbases, -⟩, -⟩
    · revert hbases
      decide
    · revert hbases
      decide
    · revert hbases
      decide
  · exact (unsteered_iff plainUrls "hub" hown).mpr
      ⟨.inr (.inl ⟨by decide, by decide⟩), .inl (by decide)⟩

/-- Its links are then under that base. -/
theorem steered_evil : PublicAlike publicRequest steeredRequest ∧
    Render.buildHrefs plainUrls steeredRequest.headers steeredRequest.uri "hub" =
      some ⟨"https://evil.example/", "wss://evil.example/", "hub"⟩ ∧
    Render.buildHrefs plainUrls publicRequest.headers publicRequest.uri "hub" ≠
      Render.buildHrefs plainUrls steeredRequest.headers steeredRequest.uri "hub" :=
  ⟨publicAlike_steered, by decide, by decide⟩

end Boardwalk
