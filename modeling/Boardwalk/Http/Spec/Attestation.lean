import Boardwalk.Http.Spec.Admission
import Boardwalk.Http.Spec.ForwardRequest

/-!
# The attestation of a caller is read back

`caller_provenance` reads what `build_peer_forward_request` stamped.  The two accept different
bytes: a header value may hold bytes outside ASCII, and `to_str` refuses them.  The fields of a
caller that a token admitted are all visible, since admission read them with `to_str`; the name of
the gateway need not be, and `callerProvenance_built_iff` says that this alone decides.
-/

namespace Boardwalk

/-! ### Capability lists -/

namespace PeerCapabilities

theorem axis_text : ∀ axis ∈ CAPABILITY_AXES, ',' ∉ axis.2.2.toList ∧ IsVisible axis.2.2 ∧
    Str.trim axis.2.2 = axis.2.2 ∧ axis.2.2.isEmpty = false ∧
    (CAPABILITY_AXES.find? fun a => a.2.2 == axis.2.2) = some axis := by
  decide

/-- Parsing adds the bit of a name of an axis. -/
theorem addNamed_axis {axis : UInt8 × PeerCapability × String} (haxis : axis ∈ CAPABILITY_AXES)
    (caps : PeerCapabilities) : addNamed caps axis.2.2 = .ok ⟨caps.bits ||| axis.1⟩ := by
  obtain ⟨-, -, htrim, hne, hfind⟩ := axis_text axis haxis
  unfold addNamed
  dsimp only
  rw [htrim, if_neg (by rw [hne]; nofun), hfind]

/-- The axes of a set. -/
def axes (caps : PeerCapabilities) : List (UInt8 × PeerCapability × String) :=
  CAPABILITY_AXES.filter fun axis => caps.bits &&& axis.1 != 0

theorem names_eq_map_axes (caps : PeerCapabilities) :
    caps.names = caps.axes.map fun axis => axis.2.2 := by
  unfold names axes
  rw [← List.filterMap_eq_map, List.filterMap_filter]
  rfl

theorem toCapabilities_eq_map_axes (caps : PeerCapabilities) :
    caps.toCapabilities = caps.axes.map fun axis => axis.2.1 := by
  unfold toCapabilities axes
  rw [← List.filterMap_eq_map, List.filterMap_filter]
  rfl

theorem axes_subset {caps : PeerCapabilities} {axis : UInt8 × PeerCapability × String}
    (h : axis ∈ caps.axes) : axis ∈ CAPABILITY_AXES :=
  (List.mem_filter.mp h).1

/-- Bits outside the axes do not count. -/
theorem axes_mask (caps : PeerCapabilities) :
    (⟨caps.bits &&& all.bits⟩ : PeerCapabilities).axes = caps.axes := by
  refine List.filter_congr fun axis haxis => ?_
  have hbit : ∀ axis ∈ CAPABILITY_AXES, all.bits &&& axis.1 = axis.1 := by decide
  rw [UInt8.and_assoc, hbit axis haxis]

theorem foldl_axes_bits : ∀ n : Fin 256,
    (axes ⟨UInt8.ofFin n⟩).foldl (fun caps axis => PeerCapabilities.mk (caps.bits ||| axis.1))
      empty = ⟨UInt8.ofFin n &&& all.bits⟩ := by
  decide +kernel

/-- **A printed set parses to its axes.** -/
theorem parseList_toText (caps : PeerCapabilities) :
    parseList caps.toText = .ok ⟨caps.bits &&& all.bits⟩ := by
  have hfold : caps.names.foldlM addNamed empty = .ok ⟨caps.bits &&& all.bits⟩ := by
    rw [names_eq_map_axes, List.foldlM_map, foldlM_eq_ok_foldl fun acc axis haxis =>
      addNamed_axis (axes_subset haxis) acc]
    exact congrArg Except.ok (foldl_axes_bits caps.bits.toFin)
  unfold parseList toText
  by_cases hnil : caps.names = []
  · rw [hnil] at hfold ⊢
    rw [String.intercalate_nil]
    -- the empty text is one blank item
    exact hfold
  · rw [show "," = String.singleton ',' from rfl, Str.split_intercalate hnil, hfold]
    intro s hs
    rw [names_eq_map_axes] at hs
    obtain ⟨axis, haxis, rfl⟩ := List.mem_map.mp hs
    exact (axis_text axis (axes_subset haxis)).1

theorem isVisible_toText (caps : PeerCapabilities) : IsVisible caps.toText := by
  intro c hc
  rcases Str.mem_toList_intercalate hc with hc | ⟨s, hs, hc⟩
  · rw [show c = ',' by simpa using hc]
    decide
  · rw [names_eq_map_axes] at hs
    obtain ⟨axis, haxis, rfl⟩ := List.mem_map.mp hs
    exact (axis_text axis (axes_subset haxis)).2.1 c hc

end PeerCapabilities

/-! ### Callers that a token admitted -/

/-- The identity that a gateway attests for a caller. -/
def AdmittedPeerConnection.attested (caller : AdmittedPeerConnection) : AdmittedPeer where
  routeName := caller.routeName
  peerId := caller.peerId
  tokenId := caller.tokenId
  nodeId := caller.nodeId
  displayName := caller.displayName
  capabilities := caller.negotiatedCapabilities.toCapabilities
  connectionId := caller.connectionId.toText

/-- The caller comes out of a handshake under configured admissions. -/
def TokenAdmitted (caller : AdmittedPeerConnection) : Prop :=
  ∃ peerName connectionId headers admissions unauthenticated, admissions ≠ [] ∧
    admitPeerConnection peerName connectionId headers admissions unauthenticated = .ok caller

theorem IsVisible.append {s t : String} (hs : IsVisible s) (ht : IsVisible t) :
    IsVisible (s ++ t) := by
  intro c hc
  rw [String.toList_append, List.mem_append] at hc
  exact hc.elim (hs c) (ht c)

theorem Presents.isVisible {headers : HeaderMap} {name value : String}
    (h : Presents headers name value) : IsVisible value := by
  obtain ⟨v, -, hv, -⟩ := h
  exact HeaderValue.isVisible_of_toStr hv

/-- Letters and digits are between `0` and `z`. -/
theorem toNat_of_isAlphanum {c : Char} (h : c.isAlphanum = true) :
    48 ≤ c.toNat ∧ c.toNat ≤ 122 := by
  have hranges : (decide (c.val ≥ 65 ∧ c.val ≤ 90) ||
      (decide (c.val ≥ 97) && decide (c.val ≤ 122)) ||
      (decide (c.val ≥ 48) && decide (c.val ≤ 57))) = true := h
  simp only [Bool.or_eq_true, Bool.and_eq_true, decide_eq_true_eq, ge_iff_le,
    UInt32.le_iff_toNat_le, Char.toNat_val, UInt32.reduceToNat] at hranges
  omega

theorem toNat_of_isRouteNameChar {c : Char} (h : isRouteNameChar c = true) :
    32 ≤ c.toNat ∧ c.toNat < 127 := by
  simp only [isRouteNameChar, Bool.or_eq_true, beq_iff_eq] at h
  rcases h with (((h | rfl) | rfl) | rfl) | rfl
  · have hrange := toNat_of_isAlphanum h
    omega
  all_goals decide

theorem RouteName.isVisible (route : RouteName) : IsVisible route.asStr := fun c hc =>
  .inl (toNat_of_isRouteNameChar (List.all_eq_true.mp route.valid.2 c hc))

/-- Such a caller has a token id and a node id, and all its texts are visible. -/
structure AttestableCaller (caller : AdmittedPeerConnection) : Prop where
  routeName : IsVisible caller.routeName
  peerId : IsVisible caller.peerId
  tokenId : ∀ tokenId, caller.tokenId = some tokenId → IsVisible tokenId
  nodeId : ∀ nodeId, caller.nodeId = some nodeId → IsVisible nodeId
  displayName : ∀ displayName, caller.displayName = some displayName → IsVisible displayName

/-- A caller admitted by a token can be attested. -/
theorem TokenAdmitted.attestable {caller : AdmittedPeerConnection} (h : TokenAdmitted caller) :
    AttestableCaller caller := by
  obtain ⟨peerName, connectionId, headers, admissions, unauthenticated, hne, hadmit⟩ := h
  -- what admission lets in came from headers and from route names, which are visible
  obtain ⟨tokenId, secret, nodeId, raw, config, requested, hadmits, rfl⟩ :=
    (admitPeerConnection_eq_ok_iff hne).mp hadmit
  have htoken := hadmits.tokenIdPresented.isVisible
  have hroute : IsVisible peerName := by
    obtain ⟨l₁, l₂, -, hmatches, -⟩ := hadmits.first
    rw [← hmatches.2]
    exact config.allowedRouteName.isVisible
  refine
    { routeName := hroute
      peerId := ?_
      tokenId := ?_
      nodeId := ?_
      displayName := ?_ }
  · -- the peer id is joined from the route and the token id
    have hpeer : IsVisible "peer-" := by decide
    have hdash : IsVisible "-" := by decide
    exact ((hpeer.append hroute).append hdash).append htoken
  · intro tokenId' htokenId
    cases htokenId
    exact htoken
  · intro nodeId' hnodeId
    cases hnodeId
    exact hadmits.nodeIdPresented.isVisible
  · intro displayName hname
    exact (optionalHeader_eq_some_iff.mp hname).isVisible

/-! ### The round trip -/

section RoundTrip

variable {attestation : ForwardAttestation} {bases : ForwardedExternalBases} {correlationId : Uuid}
  {inbound : HeaderMap}

/-- The first header of each of the caller's names is the caller's field. -/
theorem find?_gatewayHeaders {caller : AdmittedPeerConnection}
    (bases : ForwardedExternalBases) (correlationId : Uuid)
    (hattest : attestation.caller = some caller) :
    let find name := (gatewayHeaders attestation bases correlationId).find? fun t => t.1 = name
    find CALLER_PEER_ID_HEADER = some (CALLER_PEER_ID_HEADER, caller.peerId) ∧
    find CALLER_ROUTE_HEADER = some (CALLER_ROUTE_HEADER, caller.routeName) ∧
    find CALLER_CAPABILITIES_HEADER =
      some (CALLER_CAPABILITIES_HEADER, caller.negotiatedCapabilities.toText) ∧
    find CALLER_CONNECTION_ID_HEADER =
      some (CALLER_CONNECTION_ID_HEADER, caller.connectionId.toText) ∧
    find CALLER_TOKEN_ID_HEADER = caller.tokenId.map (CALLER_TOKEN_ID_HEADER, ·) ∧
    find CALLER_NODE_ID_HEADER = caller.nodeId.map (CALLER_NODE_ID_HEADER, ·) ∧
    find CALLER_NODE_NAME_HEADER = caller.displayName.map (CALLER_NODE_NAME_HEADER, ·) := by
  unfold gatewayHeaders
  rw [hattest]
  simp only [Option.map_some, Option.getD_some, callerHeaders, RENDER_CAPABILITIES_HEADER,
    CALLER_PEER_ID_HEADER, CALLER_ROUTE_HEADER, CALLER_CAPABILITIES_HEADER,
    CALLER_CONNECTION_ID_HEADER, CALLER_TOKEN_ID_HEADER, CALLER_NODE_ID_HEADER,
    CALLER_NODE_NAME_HEADER]
  cases caller.tokenId <;> cases caller.nodeId <;> cases caller.displayName <;> simp

/-- An optional field whose texts are visible is read as it is. -/
theorem bind_visible_eq_self {o : Option String} {key : String}
    (h : ∀ text, o = some text → IsVisible text) :
    ((o.map (key, ·)).bind fun t => if IsVisible t.2 then some t.2 else none) = o := by
  cases o with
  | none => rfl
  | some text => simp [h text rfl]

/-- The far end of a tunnel reads back the caller its gateway stamped, whatever the inbound headers
were. -/
theorem attestedCaller_built {caller : AdmittedPeerConnection} (hcaller : AttestableCaller caller)
    (hattest : attestation.caller = some caller)
    (hvalid : ∀ t ∈ gatewayHeaders attestation bases correlationId,
      (HeaderValue.fromStr t.2).isSome = true) :
    attestedCaller (sanitizeForwardHeaders inbound (connectionHeaderTokens inbound) ++
      stampedHeaders (gatewayHeaders attestation bases correlationId)) = some caller.attested := by
  -- each header that the gateway stamps is read back by the device
  have hfind := find?_gatewayHeaders bases correlationId hattest
  dsimp only at hfind
  obtain ⟨hpeer, hroute, hcaps, hconn, htoken, hnode, hname⟩ := hfind
  unfold attestedCaller
  dsimp only
  rw [headerText_built CALLER_PEER_ID_HEADER (by decide) hvalid, hpeer,
    headerText_built CALLER_CAPABILITIES_HEADER (by decide) hvalid, hcaps,
    headerText_built CALLER_ROUTE_HEADER (by decide) hvalid, hroute,
    headerText_built CALLER_TOKEN_ID_HEADER (by decide) hvalid, htoken,
    headerText_built CALLER_NODE_ID_HEADER (by decide) hvalid, hnode,
    headerText_built CALLER_NODE_NAME_HEADER (by decide) hvalid, hname,
    headerText_built CALLER_CONNECTION_ID_HEADER (by decide) hvalid, hconn,
    bind_visible_eq_self hcaller.tokenId, bind_visible_eq_self hcaller.nodeId,
    bind_visible_eq_self hcaller.displayName]
  simp only [Option.bind_some, if_pos hcaller.peerId, if_pos hcaller.routeName,
    if_pos (PeerCapabilities.isVisible_toText _), if_pos (Uuid.isVisible_toText _),
    PeerCapabilities.parseList_toText, Option.map_some, Option.getD_some]
  -- capabilities are sent as the list of those that hold
  unfold AdmittedPeerConnection.attested
  rw [PeerCapabilities.toCapabilities_eq_map_axes, PeerCapabilities.axes_mask,
    ← PeerCapabilities.toCapabilities_eq_map_axes]

/-- Without a caller to attest, the far end reads none, whatever the inbound headers were. -/
theorem attestedCaller_built_anonymous (hattest : attestation.caller = none)
    (hvalid : ∀ t ∈ gatewayHeaders attestation bases correlationId,
      (HeaderValue.fromStr t.2).isSome = true) :
    attestedCaller (sanitizeForwardHeaders inbound (connectionHeaderTokens inbound) ++
      stampedHeaders (gatewayHeaders attestation bases correlationId)) = none := by
  have hpeer : (gatewayHeaders attestation bases correlationId).find?
      (fun t => t.1 = CALLER_PEER_ID_HEADER) = none := by
    simp [gatewayHeaders, hattest, RENDER_CAPABILITIES_HEADER, CALLER_PEER_ID_HEADER]
  unfold attestedCaller
  dsimp only
  rw [headerText_built _ (by decide) hvalid, hpeer]
  rfl

/-- **The attestation of a caller is read back** exactly when the name of the gateway is visible:
what arrives is then the gateway's name and the caller that it attested, with exactly the
negotiated capabilities, and otherwise the request passes for a local one. -/
theorem callerProvenance_built_iff {β : Type} (ops : HttpOps) (attestation : ForwardAttestation)
    (targetName method : String) (uri : Uri) (inbound : HeaderMap) (body : β)
    (correlationId : Uuid) (req : HttpRequest β)
    (hcaller : ∀ caller, attestation.caller = some caller → TokenAdmitted caller)
    (h : buildPeerForwardRequest ops attestation targetName method uri inbound body correlationId =
      .ok req) :
    callerProvenance true req.headers =
        .forwarded attestation.gatewayName (attestation.caller.map (·.attested)) ↔
      ∀ c ∈ attestation.gatewayName.toList, (32 ≤ c.toNat ∧ c.toNat < 127) ∨ c.toNat = 9 := by
  obtain ⟨hout, hvalid⟩ := buildPeerForwardRequest_headers h
  -- the device reads what is visible, and the gateway's name need not be
  have hgateway : headerText req.headers "boardwalk-forwarded-by" =
      if IsVisible attestation.gatewayName then some attestation.gatewayName else none := by
    rw [hout, headerText_built _ (by decide) hvalid]
    simp [gatewayHeaders]
  -- a caller that was admitted is always visible
  have hpeer : attestedCaller req.headers = attestation.caller.map (·.attested) := by
    rw [hout]
    cases hattest : attestation.caller with
    | none => exact attestedCaller_built_anonymous hattest hvalid
    | some caller => exact attestedCaller_built (hcaller caller hattest).attestable hattest hvalid
  show _ ↔ IsVisible attestation.gatewayName
  unfold callerProvenance
  rw [hgateway, hpeer]
  by_cases hvisible : IsVisible attestation.gatewayName
  · simp [hvisible]
  · simp [hvisible, CallerProvenance.forwarded]

/-- The connection of the hub. -/
def hubConnection : AdmittedPeerConnection :=
  .tokenBound "hub" "tok" 7 "node-1" none .resourceRead .resourceRead

theorem hubConnection_tokenAdmitted : TokenAdmitted hubConnection :=
  ⟨"hub", 7, hubHeaders, [hubAdmission], none, by decide, by decide⟩

/-- A gateway with an ASCII name attests the hub. -/
theorem callerProvenance_built_hub :
    ∃ req, buildPeerForwardRequest lenientOps ⟨"gw", .resourceRead, some hubConnection⟩ "hub" "GET"
        resourcesUri [] () 1 = .ok req ∧
      callerProvenance true req.headers = .forwarded "gw" (some hubConnection.attested) :=
  ⟨_, rfl, (callerProvenance_built_iff lenientOps ⟨"gw", .resourceRead, some hubConnection⟩ "hub"
    "GET" resourcesUri [] () 1 _ (by rintro _ ⟨⟩; exact hubConnection_tokenAdmitted) rfl).mpr
    (by simp)⟩

/-- **A gateway with a name outside ASCII makes its requests local**: the request is built, and the
caller that it attests is gone on the other side. -/
theorem callerProvenance_local_of_name :
    ∃ req, buildPeerForwardRequest lenientOps ⟨"münchen", .resourceRead, some hubConnection⟩ "hub"
        "GET" resourcesUri [] () 1 = .ok req ∧
      callerProvenance true req.headers = {} ∧
      callerProvenance true req.headers ≠ .forwarded "münchen" (some hubConnection.attested) :=
  ⟨_, rfl, by decide, by decide⟩

end RoundTrip

end Boardwalk
