import Boardwalk.Http.HrefUrls
import Boardwalk.Http.Spec.Hrefs
import Boardwalk.Http.Spec.SubscriptionUrl

/-!
# Which requests can be rendered

The bases of the links are texts of the request.  Those that gateways state are dropped when they
are no URLs, and those of the request's own host are unwrapped; neither is asked whether a reference
can be joined to it.  `rendering_returns_iff` says for which requests no link panics.
-/

namespace Boardwalk

/-- Path segments without a scheme: letters first, and nothing that is special in a reference but
the slashes. -/
def isPathReference (ref : String) : Bool :=
  ref.toList.head?.any Char.isAlpha && ref.toList.all fun c => c == '/' || Str.isEncodedChar c

/-- The documented behaviour of `url::Url`: segments can be joined to a URL exactly when it can be a
base, which does not depend on a scheme that is set. -/
structure UrlBuild.Lawful {υ : Type} (ops : UrlBuild υ) : Prop where
  join : ∀ base ref, isPathReference ref = true →
    ((ops.join base ref).isSome = true ↔ ops.cannotBeABase base = false)
  setScheme : ∀ url scheme,
    ops.cannotBeABase (ops.setScheme url scheme) = ops.cannotBeABase url

/-! ### References -/

section References

variable {pre s : String}

/-- A path reference stays one with encoded characters after it. -/
theorem isPathReference_append (hpre : isPathReference pre = true)
    (hs : ∀ c ∈ s.toList, (c == '/' || Str.isEncodedChar c) = true) :
    isPathReference (pre ++ s) = true := by
  simp only [isPathReference, Bool.and_eq_true, List.all_eq_true, String.toList_append,
    List.mem_append] at hpre ⊢
  obtain ⟨hhead, hall⟩ := hpre
  refine ⟨?_, fun c hc => hc.elim (hall c) (hs c)⟩
  cases hlist : pre.toList with
  | nil => simp [hlist] at hhead
  | cons c rest =>
    rw [hlist] at hhead
    exact hhead

theorem isPathReference_encode (hpre : isPathReference pre = true) (s : String) :
    isPathReference (pre ++ Str.percentEncode s) = true :=
  isPathReference_append hpre fun c hc => by
    rw [Str.isEncodedChar_of_mem_percentEncode hc, Bool.or_true]

end References

/-! ### Links -/

namespace Render

variable {υ : Type} {ops : UrlBuild υ}

/-- No builder panics, whatever it is given. -/
structure Hrefs.AllReturn (ops : UrlBuild υ) (h : Hrefs υ) : Prop where
  server : (h.serverUrl ops).isSome = true
  resources : (h.resourcesUrl ops).isSome = true
  resource : ∀ id, (h.resourceUrl ops id).isSome = true
  transition : ∀ id transition, (h.resourceTransitionUrl ops id transition).isSome = true
  «meta» : (h.metaUrl ops).isSome = true
  metaType : ∀ ty, (h.metaTypeUrl ops ty).isSome = true
  events : (h.eventsUrl ops).isSome = true
  stream : ∀ ty id stream, (h.streamUrl ops ty id stream).isSome = true
  peer : ∀ routeName, (h.peerUrl ops routeName).isSome = true
  search : ∀ ql, (h.searchUrl ops ql).isSome = true
  metaEvents : (h.metaEventsUrl ops).isSome = true

/-- The hrefs of a page can all be built exactly when neither base is one that cannot be a base. -/
theorem allReturn_iff (hops : ops.Lawful) (h : Hrefs υ) : h.AllReturn ops ↔
    ops.cannotBeABase h.http = false ∧ ops.cannotBeABase h.ws = false := by
  constructor
  · intro hall
    exact ⟨(hops.join h.http "resources" (by decide)).mp hall.resources,
      (hops.join h.ws "events" (by decide)).mp hall.events⟩
  · rintro ⟨hhttp, hws⟩
    -- every link joins a path reference to one of the two bases
    have hjoin : ∀ ref, isPathReference ref = true → (ops.join h.http ref).isSome = true :=
      fun ref href => (hops.join h.http ref href).mpr hhttp
    have hevents : (ops.join h.ws "events").isSome = true :=
      (hops.join h.ws "events" (by decide)).mpr hws
    have hresources := hjoin "resources" (by decide)
    refine ⟨hjoin _ (isPathReference_encode (by decide) _), hresources,
      fun id => hjoin _ (isPathReference_encode (by decide) _), fun id transition => hjoin _ ?_,
      hjoin _ (by decide), fun ty => hjoin _ (isPathReference_encode (by decide) _), hevents,
      fun ty id stream => ?_, fun routeName => hjoin _ (isPathReference_encode (by decide) _),
      fun ql => ?_, ?_⟩
    · -- the id and the transition are encoded one after the other
      refine isPathReference_encode (isPathReference_append ?_ ?_) transition
      · exact isPathReference_encode (by decide) id
      · exact List.all_eq_true.mp (by decide)
    · simpa [Hrefs.streamUrl] using hevents
    · simpa [Hrefs.searchUrl, Hrefs.resourcesUrl] using hresources
    · simpa [Hrefs.metaEventsUrl, Hrefs.eventsUrl] using hevents

/-- The text is a URL that references can be joined to. -/
def isBase (ops : UrlBuild υ) (text : String) : Bool :=
  (ops.parse text).any fun url => !ops.cannotBeABase url

/-- The bases that links are made from can be bases: the ones that the gateway headers state, where
the first of them is a URL, and else the ones of the scheme and the host of the request. -/
def UsableBases (ops : UrlBuild υ) (headers : HeaderMap) (uri : Uri) : Prop :=
  match headerUrl ops.toUrlOps headers "boardwalk-external-base" with
  | some http => ops.cannotBeABase http = false ∧
      ∀ ws ∈ headerUrl ops.toUrlOps headers "boardwalk-external-ws-base",
        ops.cannotBeABase ws = false
  | none =>
    let host := (headerText headers HOST).getD "localhost"
    let scheme := ((headerText headers "x-forwarded-proto").or uri.schemeStr).getD "http"
    isBase ops (scheme ++ "://" ++ host ++ "/") = true ∧
      isBase ops ((if scheme = "https" then "wss" else "ws") ++ "://" ++ host ++ "/") = true

theorem isBase_eq_true {text : String} : isBase ops text = true ↔
    ∃ url, ops.parse text = some url ∧ ops.cannotBeABase url = false := by
  simp [isBase, Option.any_eq_true]

/-- **Rendering does not panic** exactly for the requests with usable bases. -/
theorem rendering_returns_iff (ops : UrlBuild υ) (hops : ops.Lawful) (headers : HeaderMap)
    (uri : Uri) (server : String) :
    (∃ h, buildHrefs ops.toUrlOps headers uri server = some h ∧ h.AllReturn ops) ↔
      UsableBases ops headers uri := by
  simp only [allReturn_iff hops]
  -- the bases are the gateway's where the header parses, else the request's own
  unfold buildHrefs UsableBases
  cases headerUrl ops.toUrlOps headers "boardwalk-external-base" with
  | some http =>
    simp only [Option.some.injEq, exists_eq_left']
    refine and_congr_right fun hhttp => ?_
    cases headerUrl ops.toUrlOps headers "boardwalk-external-ws-base" with
    | some ws => simp
    | none => simp [hops.setScheme, hhttp]
  | none =>
    simp only [isBase_eq_true]
    constructor
    · rintro ⟨h, hh, hhttp, hws⟩
      obtain ⟨http, hparse, hh⟩ := Option.bind_eq_some_iff.mp hh
      obtain ⟨ws, hparse', hh⟩ := Option.bind_eq_some_iff.mp hh
      obtain rfl := Option.some.inj hh
      exact ⟨⟨http, hparse, hhttp⟩, ⟨ws, hparse', hws⟩⟩
    · rintro ⟨⟨http, hparse, hhttp⟩, ⟨ws, hparse', hws⟩⟩
      refine ⟨⟨http, ws, server⟩, ?_, hhttp, hws⟩
      simp only [hparse, hparse', Option.bind_eq_bind, Option.bind_some, Option.pure_def]

/-- A URL as it is written, around its first colon. -/
structure TextUrl where
  scheme : String
  rest : String
  deriving Repr, DecidableEq

/-- URLs whose host has no bracket. -/
def textUrls : UrlBuild TextUrl where
  parse text :=
    match text.toList.dropWhile (· ≠ ':') with
    | [] => none
    | _ :: rest =>
      if rest.contains '[' then none
      else some ⟨String.ofList (text.toList.takeWhile (· ≠ ':')), String.ofList rest⟩
  scheme url := url.scheme
  setScheme url scheme := if ["http", "https"].contains url.scheme then { url with scheme } else url
  cannotBeABase url := !Str.startsWith url.rest "/"
  join base ref :=
    if Str.startsWith base.rest "/" then
      some { base with rest := String.ofList (base.rest.toList.rdropWhile (· ≠ '/')) ++ ref }
    else none
  appendPair url key value := { url with rest := url.rest ++ "?" ++ formSerialize [(key, value)] }

theorem lawful_textUrls : textUrls.Lawful where
  join base ref _ := by
    simp only [textUrls]
    cases Str.startsWith base.rest "/" <;> simp
  setScheme url scheme := by
    simp only [textUrls]
    split <;> rfl

theorem rendering_returns_public :
    ∃ h, buildHrefs textUrls.toUrlOps publicRequest.headers publicRequest.uri "hub" = some h ∧
      h.AllReturn textUrls := by
  refine (rendering_returns_iff textUrls lawful_textUrls publicRequest.headers publicRequest.uri
    "hub").mpr ?_
  have hbase : headerUrl textUrls.toUrlOps publicRequest.headers "boardwalk-external-base" = none :=
    by decide
  rw [UsableBases, hbase]
  decide

/-- A base that is a URL, and no base. -/
def mailtoRequest : InboundRequest where
  tunnelLeg := false
  headers := publicRequest.headers ++
    [("boardwalk-external-base", ⟨"mailto:a".toUTF8.data.toList, by decide⟩)]
  uri := ⟨none, some "/resources", "/resources"⟩

/-- A host that is none. -/
def bracketRequest : InboundRequest where
  tunnelLeg := false
  headers := [(HOST, ⟨"[".toUTF8.data.toList, by decide⟩)]
  uri := ⟨none, some "/resources", "/resources"⟩

/-- **Requests that nobody can render**: the join fails for the one, and the host for the other. -/
theorem rendering_panics :
    (∃ h, buildHrefs textUrls.toUrlOps mailtoRequest.headers mailtoRequest.uri "hub" = some h ∧
      h.resourcesUrl textUrls = none ∧ h.eventsUrl textUrls = none) ∧
    buildHrefs textUrls.toUrlOps bracketRequest.headers bracketRequest.uri "hub" = none :=
  ⟨⟨⟨⟨"mailto", "a"⟩, ⟨"mailto", "a"⟩, "hub"⟩, by decide⟩, by decide⟩

end Render

end Boardwalk
