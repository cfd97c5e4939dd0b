import Boardwalk.Http.Federation
import Boardwalk.Http.Spec.ForwardRequest
import Boardwalk.Http.Spec.Ingress
import Boardwalk.Http.Spec.Routes

/-!
# How many tunnels a request crosses

A node forwards a request by its target name, whatever leg the request came in on.  A request that
has crossed a tunnel is forwarded again exactly when the node there is not called by the name under
which the first node knows it, but knows a peer under that name that admits the intent
(`single_hop_iff`).  The intents in question are those of routed requests, all but two
(`forwardable_iff`).
-/

namespace Boardwalk

/-- The connection that a node sends a request of an anonymous caller to, if it does. -/
def FederationNode.forwardsTo (n : FederationNode) (route : String) (intent : ProxyIntent) :
    Option ConnId :=
  if route = n.name then none
  else if (n.acceptors.readContext route).any fun context =>
      context.admitted.negotiatedCapabilities.contains intent.requiredCapability then
    n.acceptors.sender route
  else none

/-! ### Forwarded requests have no credentials -/

/-- The header of a peer token is never forwarded. -/
theorem not_shouldForward_tokenId (connectionHeaders : List String) :
    shouldForwardHeader PEER_TOKEN_ID_HEADER connectionHeaders = false := by
  have hpre : unforwardedPrefixes.any
      (Str.startsWith (Str.toAsciiLowercase PEER_TOKEN_ID_HEADER)) = true := by decide
  have hhost : PEER_TOKEN_ID_HEADER ≠ HOST := by decide
  unfold shouldForwardHeader
  rw [if_neg hhost]
  dsimp only
  rw [hpre]
  split
  · rfl
  · split <;> rfl

/-- The node that a request is forwarded to finds an anonymous caller. -/
theorem resolveCallerIngress_forwarded {β : Type} {ops : HttpOps}
    {attestation : ForwardAttestation} {targetName method : String} {uri : Uri}
    {inbound : HeaderMap} {body : β} {correlationId : Uuid} {req : HttpRequest β}
    (h : buildPeerForwardRequest ops attestation targetName method uri inbound body correlationId =
      .ok req) (admissions : List PeerAdmissionConfig) (senders : ℕ → PeerSenders) :
    resolveCallerIngress req.headers admissions senders = .ok none := by
  obtain ⟨hheaders, -⟩ := buildPeerForwardRequest_headers h
  have hget : req.headers.get PEER_TOKEN_ID_HEADER = none := by
    rw [hheaders, HeaderMap.get, Option.map_eq_none_iff, List.find?_eq_none]
    intro header hmem hname
    have hname : header.1 = PEER_TOKEN_ID_HEADER := of_decide_eq_true hname
    rcases List.mem_append.mp hmem with hcopied | hstamped
    · have hforward := (List.mem_filter.mp hcopied).2
      rw [hname, not_shouldForward_tokenId] at hforward
      cases hforward
    · have howned := mem_gatewayNames_of_mem_stampedHeaders hstamped
      rw [hname] at howned
      exact absurd howned (by decide)
  unfold resolveCallerIngress optionalHeader
  rw [hget]
  rfl

/-! ### What a client can ask for -/

/-- A URI below the name of a server. -/
def serverUri (name tail : String) (query : Option String) : Uri :=
  let path := "/servers/" ++ Str.percentEncode name ++ ("/" ++ tail)
  { schemeStr := none
    pathAndQuery := some (path ++ (query.map ("?" ++ ·)).getD "")
    path := path }

section Forwardable

variable {ρ : Type} {ops : RouterOps ρ} {core name : String} {intent : ProxyIntent}

theorem query_serverUri {tail : String} (htail : '?' ∉ tail.toList) (query : Option String) :
    (serverUri name tail query).query = query := by
  have hpath : '?' ∉ ("/servers/" ++ Str.percentEncode name ++ ("/" ++ tail)).toList := by
    simp only [String.toList_append, List.mem_append, not_or]
    exact ⟨⟨by decide, Str.question_not_mem_percentEncode name⟩, by decide, htail⟩
  cases query with
  | none =>
    simp [Uri.query, serverUri, hrefQuery, TopicPattern.splitSuffix_of_not_mem hpath]
  | some query =>
    simp only [Uri.query, serverUri, Option.map_some, Option.getD_some, Option.bind_some, hrefQuery]
    rw [← @String.append_assoc _ "?" query, TopicPattern.splitSuffix_append hpath]

theorem addressed_serverUri (hops : ops.Lawful) (hname : name ≠ "") (tail method : String)
    (query : Option String) :
    RouterOps.Addressed ops ⟨name, method, serverUri name tail query⟩ (Str.split '/' tail) := by
  have hslash : '/' ∉ (Str.percentEncode name).toList := fun hmem =>
    absurd (Str.isEncodedChar_of_mem_percentEncode hmem) (by decide)
  have hsplit : Str.split '/' ("/servers/" ++ Str.percentEncode name ++ ("/" ++ tail)) =
      "" :: "servers" :: Str.percentEncode name :: Str.split '/' tail := by
    have hsep : "/" ++ tail = String.singleton '/' ++ tail := rfl
    rw [hsep, ← String.append_assoc, Str.split_append_cons, RouterOps.split_peerServer hslash]
    rfl
  exact ⟨_, hsplit, RouterOps.percentEncode_ne_empty hops hname, hops.decode name⟩

/-- A request that its target would answer is one that a server of another name forwards. -/
theorem forwardable_of_forwards {call : ForwardCall}
    {calls : HeaderMap → List UInt8 → List (CoreCall ρ)} (h : RouterOps.Forwards ops call calls)
    (hne : call.targetName ≠ core) :
    Forwardable ops core call.targetName (call.intent ops.formParse) := by
  refine ⟨call.arrive [] [], { call with uri := (call.arrive [] []).uri }, ?_, rfl, rfl⟩
  rw [RouterOps.serve_arrive h core [] [], RouterOps.maybeForward, if_neg hne]

/-- Nobody asks for the intents of the routes that the router does not have. -/
theorem intent_of_forwardable (hops : ops.Lawful) (h : Forwardable ops core name (some intent)) :
    intent ≠ .register ∧ intent ≠ .admin := by
  -- the route fixes the intent, one case per constructor of `Forwards`
  obtain ⟨req, call, hserve, -, hintent⟩ := h
  obtain ⟨-, calls, hcalls⟩ := RouterOps.exists_forwards hops hserve
  cases hcalls with
  | server hpath hmethod =>
    rw [hpath.intent_server hmethod, ProxyIntent.readOrQuery] at hintent
    obtain rfl := Option.some.inj hintent
    split <;> decide
  | resources hpath hmethod =>
    rw [hpath.intent_resources hmethod, ProxyIntent.listOrQuery] at hintent
    obtain rfl := Option.some.inj hintent
    split <;> decide
  | resource hpath hmethod hraw =>
    rw [hpath.intent_resource hmethod hraw] at hintent
    obtain rfl := Option.some.inj hintent
    decide
  | transition hpath hmethod hraw _ hrawName =>
    rw [hpath.intent_transition hmethod hraw hrawName] at hintent
    obtain rfl := Option.some.inj hintent
    decide
  | metadata hpath hmethod =>
    rw [hpath.intent_metadata hmethod] at hintent
    obtain rfl := Option.some.inj hintent
    decide
  | metadataType hpath hmethod hraw =>
    rw [hpath.intent_metadataType hmethod hraw] at hintent
    obtain rfl := Option.some.inj hintent
    decide
  | events hpath hmethod =>
    rw [hpath.intent_events hmethod] at hintent
    split at hintent
    · obtain rfl := Option.some.inj hintent
      decide
    · cases hintent
  | unsubscribe hpath hmethod =>
    rw [hpath.intent_unsubscribe hmethod] at hintent
    obtain rfl := Option.some.inj hintent
    decide

/-- The parameters of a listing with and without `ql`. -/
theorem reads_resources (hops : ops.Lawful) (name : String) (ql : Option String) :
    RouterOps.Reads ops
      ⟨name, "GET", serverUri name "resources" (ql.map (ops.appendPair "ql"))⟩
      QueryParams.ofPairs ⟨ql, none⟩ := by
  unfold RouterOps.Reads
  rw [query_serverUri (by decide)]
  cases ql with
  | none => simp [hops.noQuery, QueryParams.ofPairs, queryParam]
  | some ql => simp [hops.pair, QueryParams.ofPairs, queryParam]

/-- **For every name and every intent but two** a client has a request that is forwarded. -/
theorem forwardable_iff (hops : ops.Lawful) (hname : name ≠ "") (hne : name ≠ core) :
    Forwardable ops core name (some intent) ↔ intent ≠ .register ∧ intent ≠ .admin := by
  -- a request for every intent but the two that no route has
  refine ⟨intent_of_forwardable hops, fun hintent => ?_⟩
  have haddress := addressed_serverUri hops hname
  have hone : ops.decode "1" = some "1" := by
    have hplain : Str.percentEncode "1" = "1" := by decide
    exact hplain ▸ hops.decode "1"
  have hresources : ∀ ql : Option String,
      Forwardable ops core name (some (if ql.isSome then .query else .list)) := by
    intro ql
    have hpath := haddress "resources" "GET" (ql.map (ops.appendPair "ql"))
    have hreads := reads_resources hops name ql
    have h := forwardable_of_forwards (.resources hpath rfl hreads) hne
    rwa [hpath.intent_resources rfl, ProxyIntent.listOrQuery,
      RouterOps.hasQueryParam_ql hops hreads] at h
  cases intent with
  | read =>
    have hpath := haddress "resources/1" "GET" none
    have h := forwardable_of_forwards (.resource hpath rfl (by decide) hone) hne
    rwa [hpath.intent_resource rfl (by decide)] at h
  | list => exact hresources none
  | query => exact hresources (some "")
  | subscribe =>
    have hpath := haddress "events/unsubscribe" "POST" none
    have h := forwardable_of_forwards (.unsubscribe hpath rfl) hne
    rwa [hpath.intent_unsubscribe rfl] at h
  | invoke =>
    have hpath := haddress "resources/1/transitions/1" "POST" none
    have h := forwardable_of_forwards (.transition hpath rfl (by decide) hone (by decide) hone) hne
    rwa [hpath.intent_transition rfl (by decide) (by decide)] at h
  | metadata =>
    have hpath := haddress "meta" "GET" none
    have h := forwardable_of_forwards (.metadata hpath rfl) hne
    rwa [hpath.intent_metadata rfl] at h
  | register => exact absurd rfl hintent.1
  | admin => exact absurd rfl hintent.2

end Forwardable

namespace Journey

variable {ρ : Type} {ops : RouterOps ρ} {fed : Federation} {s t : Journey} {n : FederationNode}
  {built : Bool}

/-! ### The gates -/

/-- What the gate has checked is what the node forwards to. -/
theorem gate_checked {q : ForwardRequest} {context : ReadContext}
    (h : Gateway.gate n.name n.acceptors q = .checked context) :
    ∃ intent, q.intent = some intent ∧
      n.forwardsTo q.targetName intent = n.acceptors.sender q.targetName := by
  -- the gate passes on the checks in its own order
  unfold Gateway.gate at h
  split at h
  · cases h
  rename_i hname
  split at h
  · cases h
  rename_i intent hintent
  split at h
  · cases h
  split at h
  · cases h
  rename_i context' hcontext
  split at h
  · rename_i hallows
    refine ⟨intent, hintent, ?_⟩
    rw [FederationNode.forwardsTo, if_neg hname, if_pos]
    rw [hcontext]
    exact hallows
  · cases h

/-- The gate never sends on a connection by itself. -/
theorem gate_ne_sending {q : ForwardRequest} {context : ReadContext} {conn : ConnId} :
    Gateway.gate n.name n.acceptors q ≠ .sending context conn := by
  unfold Gateway.gate
  intro h
  split at h
  · cases h
  split at h
  · cases h
  split at h
  · cases h
  split at h
  · cases h
  split at h <;> cases h

/-- What one step does. -/
inductive Stepped (fed : Federation) (s t : Journey) (n : FederationNode) : Prop
  | gated (phase : s.request.phase = .resolved)
      (next : t = { s with request.phase := Gateway.gate n.name n.acceptors s.request })
  | unknown (context : ReadContext) (phase : s.request.phase = .checked context)
      (next : t = { s with request.phase := .replied .unknownServer })
  | picked (context : ReadContext) (conn : ConnId) (phase : s.request.phase = .checked context)
      (sender : n.acceptors.sender s.request.targetName = some conn)
      (next : t = { s with request.phase := .sending context conn })
  | crossed (context : ReadContext) (conn : ConnId)
      (phase : s.request.phase = .sending context conn) (next : t = s.cross n conn)
  | unbuilt (context : ReadContext) (conn : ConnId)
      (phase : s.request.phase = .sending context conn)
      (next : t = { s with request.phase := .replied .forwardBuild })

theorem stepped_of_step (hs : s.step fed built = some t) :
    ∃ n, fed[s.node]? = some n ∧ Stepped fed s t n := by
  -- the journey's step is one of the gateway's four phases
  obtain ⟨n, hn, hs⟩ := Option.bind_eq_some_iff.mp hs
  refine ⟨n, hn, ?_⟩
  obtain ⟨g, hg, hs⟩ := Option.bind_eq_some_iff.mp hs
  unfold Gateway.maybeForwardOr404 at hg
  split at hg
  · rename_i hphase
    obtain rfl := Option.some.inj hg
    simp only [Gateway.setRequest, Table.get?_insert_self, Option.map_some] at hs
    exact .gated hphase (Option.some.inj hs).symm
  · rename_i context hphase
    rw [if_pos n.unlocked] at hg
    obtain rfl := Option.some.inj hg
    simp only [Gateway.setRequest, Table.get?_insert_self, Option.map_some] at hs
    split at hs
    · exact .unknown context hphase (Option.some.inj hs).symm
    · rename_i conn hsender
      exact .picked context conn hphase hsender (Option.some.inj hs).symm
  · rename_i context conn hphase
    obtain ⟨intent, -, rfl⟩ := Option.map_eq_some_iff.mp hg
    split at hs
    · rename_i hnil
      split at hnil
      · simp [Gateway.sendRequest, Gateway.setRequest] at hnil
      · rename_i hbuilt
        simp only [hbuilt, Bool.false_eq_true, if_false, Gateway.setRequest,
          Table.get?_insert_self, Option.map_some] at hs
        exact .unbuilt context conn hphase (Option.some.inj hs).symm
    · rename_i sent rest hsent
      split at hsent
      · simp only [Gateway.sendRequest, Gateway.setRequest, List.nil_append,
          List.cons.injEq] at hsent
        obtain ⟨rfl, -⟩ := hsent
        exact .crossed context conn hphase (Option.some.inj hs).symm
      · simp [Gateway.setRequest] at hsent
  · cases hg

/-! ### One tunnel -/

/-- Node `a` sends a request for `route` to the connection `conn`: one of a client, or that of a
stream. -/
def Sends (ops : RouterOps ρ) (a : FederationNode) (route : String) (intent : ProxyIntent)
    (conn : ConnId) : Prop :=
  Forwardable ops a.name route (some intent) ∧ a.forwardsTo route intent = some conn ∨
    intent = .subscribe ∧ a.streamsTo route = some conn

/-- Wherever a tunnel leads, the request goes no further: the node there has the name that is asked
for, or it knows no peer under it that admits the intent. -/
def EndsAtTarget (ops : RouterOps ρ) (fed : Federation) : Prop :=
  ∀ a ∈ fed, ∀ route intent conn j b, Sends ops a route intent conn → a.far conn = some j →
    fed[j]? = some b → route = b.name ∨
      (b.acceptors.readContext route).all (fun context =>
        !context.admitted.negotiatedCapabilities.contains intent.requiredCapability) = true ∨
      b.acceptors.sender route = none

/-- A node does not forward to itself, to peers without the capability, or to peers without a
sender. -/
theorem forwardsTo_eq_none_iff {route : String} {intent : ProxyIntent} :
    n.forwardsTo route intent = none ↔ route = n.name ∨
      (n.acceptors.readContext route).all (fun context =>
        !context.admitted.negotiatedCapabilities.contains intent.requiredCapability) = true ∨
      n.acceptors.sender route = none := by
  unfold FederationNode.forwardsTo
  split
  · rename_i hname
    simp [hname]
  · rename_i hname
    cases hcontext : n.acceptors.readContext route with
    | none => simp
    | some context =>
      simp only [Option.any_some, Option.all_some]
      split
      · rename_i hallows
        simp [hname, hallows]
      · rename_i hdenies
        simp [hdenies]

/-- What holds of a request on its way when all tunnels end at the target. -/
structure Inv (ops : RouterOps ρ) (fed : Federation) (s : Journey) : Prop where
  few : s.tunnels ≤ 1
  asked : s.tunnels = 0 → ∀ n, fed[s.node]? = some n →
    Forwardable ops n.name s.request.targetName s.request.intent
  checked : ∀ context n, s.request.phase = .checked context → fed[s.node]? = some n →
    ∃ intent, s.request.intent = some intent ∧
      n.forwardsTo s.request.targetName intent = n.acceptors.sender s.request.targetName
  sending : ∀ context conn n, s.request.phase = .sending context conn → fed[s.node]? = some n →
    s.tunnels = 0 ∧ ∃ intent, s.request.intent = some intent ∧
      n.forwardsTo s.request.targetName intent = some conn
  arrived : s.tunnels = 1 → (∃ reply, s.request.phase = .replied reply) ∨
    ∀ n intent, fed[s.node]? = some n → s.request.intent = some intent →
      n.forwardsTo s.request.targetName intent = none

theorem Inv.replied (h : Inv ops fed s) (reply : ForwardReply) :
    Inv ops fed { s with request.phase := .replied reply } where
  few := h.few
  asked := h.asked
  checked _ _ hphase := by cases hphase
  sending _ _ _ hphase := by cases hphase
  arrived _ := .inl ⟨reply, rfl⟩

/-- A request that comes over a tunnel of node `a`. -/
theorem inv_received (hfed : EndsAtTarget ops fed) {a : FederationNode} (ha : a ∈ fed)
    {route : String}
    {intent : ProxyIntent} {conn : ConnId} {j : ℕ} (hsends : Sends ops a route intent conn)
    (hfar : a.far conn = some j) : Inv ops fed {
      node := j, request := { targetName := route, intent := some intent, caller := none }
      tunnels := 1 } where
  few := le_rfl
  asked htun := by cases htun
  checked _ _ hphase := by cases hphase
  sending _ _ _ hphase := by cases hphase
  arrived _ := by
    refine .inr fun b intent' hb hintent => ?_
    obtain rfl := Option.some.inj hintent
    exact forwardsTo_eq_none_iff.mpr (hfed a ha route intent conn j b hsends hfar hb)

/-- One hop of a request keeps the invariant. -/
theorem Inv.step (hfed : EndsAtTarget ops fed) (h : Inv ops fed s)
    (hs : s.step fed built = some t) : Inv ops fed t := by
  obtain ⟨n, hn, hstep⟩ := stepped_of_step hs
  cases hstep with
  | gated hphase heq =>
    -- a gated request has made no tunnel, so what arrived is as it was
    subst heq
    refine ⟨h.few, h.asked, fun context m hgate hm => ?_, fun context conn m hgate => ?_,
      fun htun => ?_⟩
    · obtain rfl := Option.some.inj (hn.symm.trans hm)
      exact gate_checked hgate
    · exact absurd hgate gate_ne_sending
    · rcases h.arrived htun with ⟨reply, hreply⟩ | hnone
      · rw [hphase] at hreply
        cases hreply
      · exact .inr hnone
  | unknown context hphase heq =>
    subst heq
    exact h.replied _
  | picked context conn hphase hsender heq =>
    subst heq
    obtain ⟨intent, hintent, hforwards⟩ := h.checked context n hphase hn
    rw [hsender] at hforwards
    -- a second tunnel would start at a node that forwards nothing
    have hzero : s.tunnels = 0 := by
      by_contra hne
      have hfew := h.few
      rcases h.arrived (by omega) with ⟨reply, hreply⟩ | hnone
      · rw [hphase] at hreply
        cases hreply
      · rw [hnone n intent hn hintent] at hforwards
        cases hforwards
    refine ⟨h.few, h.asked, fun _ _ hp => (by cases hp), fun context' conn' m hp hm => ?_,
      fun htun => ?_⟩
    · cases hp
      obtain rfl := Option.some.inj (hn.symm.trans hm)
      exact ⟨hzero, intent, hintent, hforwards⟩
    · simp only at htun
      -- the condition: the far end forwards no such request any further
      omega
  | crossed context conn hphase heq =>
    subst heq
    obtain ⟨hzero, intent, hintent, hforwards⟩ := h.sending context conn n hphase hn
    unfold cross
    split
    · rename_i j hfar
      have hasks := h.asked hzero n hn
      rw [hintent] at hasks
      rw [hzero, hintent]
      exact inv_received hfed (List.mem_of_getElem? hn) (.inl ⟨hasks, hforwards⟩) hfar
    · exact ⟨by simp only [hzero]; omega, fun htun => (by simp only at htun; omega),
        fun _ _ hp => (by cases hp), fun _ _ _ hp => (by cases hp), fun _ => .inl ⟨_, rfl⟩⟩
  | unbuilt context conn hphase heq =>
    subst heq
    exact h.replied _

theorem inv_of_starts (hfed : EndsAtTarget ops fed) (h : Starts ops fed s) : Inv ops fed s := by
  cases h with
  | client node a ha targetName intent hasks caller =>
    refine ⟨Nat.zero_le 1, fun _ n hn => ?_, fun _ _ hp => (by cases hp),
      fun _ _ _ hp => (by cases hp), fun htun => (by cases htun)⟩
    obtain rfl := Option.some.inj (ha.symm.trans hn)
    exact hasks
  | stream a ha peer conn node hconn hfar =>
    exact inv_received hfed ha (.inr ⟨rfl, hconn⟩) hfar

/-! ### More than one tunnel -/

/-- A node that forwards to a route lets the request through its gate. -/
theorem gate_of_forwardsTo {route : String} {intent : ProxyIntent} {conn : ConnId}
    (h : n.forwardsTo route intent = some conn) :
    (∃ context, Gateway.gate n.name n.acceptors
      { targetName := route, intent := some intent, caller := none } = .checked context) ∧
    n.acceptors.sender route = some conn := by
  unfold FederationNode.forwardsTo at h
  split at h
  · cases h
  rename_i hname
  split at h
  · rename_i hallows
    refine ⟨?_, h⟩
    obtain ⟨context, hcontext, hcontains⟩ := (Option.any_eq_true _ _).mp hallows
    refine ⟨context, ?_⟩
    simp [Gateway.gate, hname, hcontext, hcontains]
  · cases h

/-- A request of an anonymous caller that a node forwards crosses a tunnel. -/
theorem exists_cross {i : ℕ} {route : String} {intent : ProxyIntent} {conn : ConnId}
    (hn : fed[i]? = some n) (hforwards : n.forwardsTo route intent = some conn) (start : Journey)
    (tunnels : ℕ) : ∃ s t : Journey, (machine fed start).run {
        node := i, request := { targetName := route, intent := some intent, caller := none }
        tunnels } [true, true, true] = some t ∧ t = s.cross n conn ∧
      s.request.targetName = route ∧ s.request.intent = some intent ∧ s.tunnels = tunnels := by
  obtain ⟨⟨context, hgate⟩, hsender⟩ := gate_of_forwardsTo hforwards
  let q : ForwardRequest := { targetName := route, intent := some intent, caller := none }
  let s₀ : Journey := { node := i, request := q, tunnels }
  let s₁ : Journey := { s₀ with request.phase := .checked context }
  let s₂ : Journey := { s₀ with request.phase := .sending context conn }
  have h₁ : s₀.step fed true = some s₁ := by
    simp [step, s₀, q, hn, Gateway.maybeForwardOr404, Gateway.setRequest, hgate, s₁]
  have h₂ : s₁.step fed true = some s₂ := by
    simp [step, s₁, s₀, q, hn, Gateway.maybeForwardOr404, Gateway.setRequest, n.unlocked, hsender,
      s₂]
  have h₃ : s₂.step fed true = some (s₂.cross n conn) := by
    simp [step, s₂, s₀, q, hn, Gateway.maybeForwardOr404, Gateway.setRequest, Gateway.sendRequest]
  refine ⟨s₂, s₂.cross n conn, ?_, rfl, rfl, rfl, rfl⟩
  refine Machine.run_cons.mpr ⟨s₁, h₁, Machine.run_cons.mpr ⟨s₂, h₂, ?_⟩⟩
  exact Machine.run_cons.mpr ⟨_, h₃, rfl⟩

theorem tunnels_cross (s : Journey) (n : FederationNode) (conn : ConnId) :
    (s.cross n conn).tunnels = s.tunnels + 1 := by
  unfold cross
  split <;> rfl

/-- **When forwarding is single hop**: in every run of every request that a client can make,
exactly when no tunnel that such a request is sent over leads to a node that knows another peer
under the name by which it was reached. -/
theorem single_hop_iff (ops : RouterOps ρ) (fed : Federation) :
    (∀ s, Starts ops fed s → ∀ as,
      (machine fed s).StatesMeet (fun t => t.tunnels ≤ 1) s as) ↔ EndsAtTarget ops fed := by
  constructor
  · -- a journey of two tunnels is built where the condition fails
    intro hsingle a ha route intent conn j b hsends hfar hb
    rw [← forwardsTo_eq_none_iff]
    by_contra hne
    obtain ⟨conn', hforwards⟩ := Option.ne_none_iff_exists'.mp hne
    rcases hsends with ⟨hasks, hclient⟩ | ⟨rfl, hstream⟩
    · -- a client asks the node `a`
      obtain ⟨i, hi⟩ := List.mem_iff_getElem?.mp ha
      let q : ForwardRequest := { targetName := route, intent := some intent, caller := none }
      let start : Journey := { node := i, request := q }
      obtain ⟨s, t, hrun, rfl, htarget, hintent, htunnels⟩ := exists_cross hi hclient start 0
      have harrive : s.cross a conn = { node := j, request := q, tunnels := 1 } := by
        simp only [cross, hfar, htarget, hintent, htunnels, q]
      rw [harrive] at hrun
      obtain ⟨s', t', hrun', rfl, -, -, htunnels'⟩ := exists_cross hb hforwards start 1
      have hboth := (Machine.run_append hrun [true, true, true]).trans hrun'
      have hfew := (hsingle start (.client i a hi route (some intent) hasks none) _).last hboth
      rw [tunnels_cross, htunnels'] at hfew
      omega
    · -- the stream has crossed one tunnel already
      have hstart : Starts ops fed _ := .stream a ha route conn j hstream hfar
      obtain ⟨s, t, hrun, rfl, -, -, htunnels⟩ := exists_cross hb hforwards _ 1
      have hfew := (hsingle _ hstart _).last hrun
      rw [tunnels_cross, htunnels] at hfew
      omega
  · intro hfed s hstart as
    have hall := Machine.statesMeet_of_stepsMeet (M := machine fed s) (G := fun _ _ => True)
      (fun s a t h _ hs => Inv.step hfed h hs) (inv_of_starts hfed hstart)
      (Machine.StepsMeet.trivial as s)
    exact hall.mono fun t ht => ht.few

/-! ### Two nodes that know each other by the same name -/

/-- A server with one peer, which is connected under the name `x`. -/
def knowsX (name : String) (far : ℕ) : FederationNode where
  name := name
  acceptors :=
    { senders := Table.empty.insert "x" 1
      contexts := Table.empty.insert "x" 1
      conns := Table.empty.insert 1 { admitted := .unauthenticated "x" 7 .resourceRead } }
  far _ := some far
  unlocked := rfl

def twoNodes : Federation := [knowsX "a" 1, knowsX "b" 0]

/-- A client of the first node asks for the resources of `x`. -/
def askX : Journey where
  node := 0
  request := { targetName := "x", intent := some .list, caller := none }

theorem exists_node_twoNodes (k : ℕ) : ∃ n, twoNodes[k % 2]? = some n ∧
    n.forwardsTo "x" .list = some 1 ∧ n.far 1 = some ((k + 1) % 2) := by
  rcases Nat.mod_two_eq_zero_or_one k with h | h
  · refine ⟨knowsX "a" 1, by rw [h]; rfl, by decide, ?_⟩
    rw [show (k + 1) % 2 = 1 by omega]
    rfl
  · refine ⟨knowsX "b" 0, by rw [h]; rfl, by decide, ?_⟩
    rw [show (k + 1) % 2 = 0 by omega]
    rfl

/-- A request for a name that both nodes send on to each other crosses one more tunnel every three
steps. -/
theorem run_askX (k : ℕ) : (machine twoNodes askX).run askX (List.replicate (3 * k) true) =
    some { node := k % 2, request := askX.request, tunnels := k } := by
  induction k with
  | zero => rfl
  | succ k ih =>
    obtain ⟨n, hn, hforwards, hfar⟩ := exists_node_twoNodes k
    obtain ⟨s, t, hrun, rfl, htarget, hintent, htunnels⟩ := exists_cross hn hforwards askX k
    rw [Nat.mul_succ, List.replicate_add, Machine.run_append ih]
    have harrive : s.cross n 1 =
        { node := (k + 1) % 2, request := askX.request, tunnels := k + 1 } := by
      simp only [cross, hfar, htarget, hintent, htunnels, askX]
    rw [← harrive]
    exact hrun

/-- **A request that goes round for ever**: it crosses as many tunnels as one likes. -/
theorem request_loops : Starts textRouter twoNodes askX ∧ ∀ k, ∃ t,
    (machine twoNodes askX).run askX (List.replicate (3 * k) true) = some t ∧ t.tunnels = k := by
  have hasks : Forwardable textRouter "a" "x" (some .list) :=
    (forwardable_iff lawful_textRouter (by decide) (by decide)).mpr (by decide)
  exact ⟨.client 0 (knowsX "a" 1) rfl "x" (some .list) hasks none, fun k => ⟨_, run_askX k, rfl⟩⟩

end Journey

end Boardwalk
