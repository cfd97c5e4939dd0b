import Boardwalk.Http.Admission
import Boardwalk.Http.Spec.Ingress

/-!
# Admission decides its specification

With configured admissions the handshake admits a peer exactly when `Admits` holds: the credentials
are presented, the first configuration of the list that they match accepts the node id, and the
requested capabilities meet the allowed ones (`admitPeerConnection_eq_ok_iff`).  Without any, the
policy for unauthenticated peers decides alone.  Caller ingress attests a context exactly when one
configuration that the credentials match holds a live tunnel (`resolveCallerIngress_eq_some_iff`).
-/

namespace Boardwalk

/-! ### Presented headers -/

/-- The first value of a header is readable as `value`, which is not blank. -/
def Presents (headers : HeaderMap) (name value : String) : Prop :=
  ∃ v, headers.get name = some v ∧ v.toStr = some value ∧ Str.trim value ≠ ""

/-- The authorization header is readable as a bearer's `secret`, which is not blank. -/
def PresentsBearer (headers : HeaderMap) (secret : String) : Prop :=
  ∃ v, headers.get AUTHORIZATION = some v ∧ v.toStr = some ("Bearer " ++ secret) ∧
    Str.trim secret ≠ ""

theorem optionalHeader_eq_some_iff {headers : HeaderMap} {name value : String} :
    optionalHeader headers name = some value ↔ Presents headers name value := by
  unfold optionalHeader Presents
  rw [Option.filter_eq_some_iff, Option.bind_eq_some_iff]
  simp only [Bool.not_eq_true', String.isEmpty_eq_false_iff]
  grind

theorem requiredHeader_eq_ok_iff {headers : HeaderMap} {name value : String} :
    requiredHeader headers name = .ok value ↔ Presents headers name value := by
  rw [← optionalHeader_eq_some_iff]
  cases hopt : optionalHeader headers name with
  | none =>
    unfold optionalHeader at hopt
    simp [requiredHeader, hopt]
  | some w =>
    unfold optionalHeader at hopt
    simp [requiredHeader, hopt]

theorem bearerToken_eq_some_iff {headers : HeaderMap} {secret : String} :
    bearerToken headers = some secret ↔ PresentsBearer headers secret := by
  unfold bearerToken PresentsBearer
  rw [Option.filter_eq_some_iff, Option.bind_eq_some_iff]
  simp only [Option.bind_eq_some_iff, Str.stripPrefix_eq_some_iff, Bool.not_eq_true',
    String.isEmpty_eq_false_iff]
  grind

/-! ### Verified configurations -/

/-- A fold of `|||` is zero exactly when all its terms are. -/
theorem foldl_or_eq_zero_iff {α : Type*} (f : α → UInt8) (l : List α) (acc : UInt8) :
    l.foldl (fun diff x => diff ||| f x) acc = 0 ↔ acc = 0 ∧ ∀ x ∈ l, f x = 0 := by
  induction l generalizing acc with
  | nil => simp
  | cons x rest ih =>
    rw [List.foldl_cons, ih, UInt8.or_eq_zero_iff]
    simp only [List.mem_cons, forall_eq_or_imp, and_assoc]

/-- `constant_time_eq` is equality. -/
theorem constantTimeEq_iff {a b : List UInt8} : constantTimeEq a b = true ↔ a = b := by
  unfold constantTimeEq
  by_cases hlen : a.length = b.length
  · rw [if_neg (not_not.mpr hlen), beq_iff_eq,
      foldl_or_eq_zero_iff fun xy : UInt8 × UInt8 => xy.1 ^^^ xy.2]
    simp only [true_and, UInt8.xor_eq_zero_iff]
    constructor
    · intro h
      refine List.ext_getElem hlen fun i ha hb => ?_
      have hmem : (a.zip b)[i]? = some (a[i], b[i]) := by
        rw [List.getElem?_zip_eq_some]
        exact ⟨List.getElem?_eq_getElem ha, List.getElem?_eq_getElem hb⟩
      exact h _ (List.mem_of_getElem? hmem)
    · rintro rfl xy hxy
      obtain ⟨i, hi, rfl⟩ := List.getElem_of_mem hxy
      rw [List.getElem_zip]
  · rw [if_pos hlen]
    refine ⟨nofun, fun h => absurd (congrArg List.length h) hlen⟩

/-- A verifier accepts its secret and nothing else. -/
theorem PeerTokenVerifier.verify_iff {v : PeerTokenVerifier} {candidate : String} :
    v.verify candidate = true ↔ v.secret = candidate := by
  unfold verify
  rw [constantTimeEq_iff]
  constructor
  · intro h
    apply String.toByteArray_inj.mp
    apply ByteArray.ext
    exact Array.toList_inj.mp h
  · rintro rfl
    rfl

/-- The configuration has the presented token id and the presented secret. -/
def PeerAdmissionConfig.Verifies (config : PeerAdmissionConfig) (tokenId secret : String) : Prop :=
  config.tokenId = tokenId ∧ config.tokenVerifier.secret = secret

instance (config : PeerAdmissionConfig) (tokenId secret : String) :
    Decidable (config.Verifies tokenId secret) :=
  inferInstanceAs (Decidable (_ ∧ _))

/-- The admissions verified for a token and a secret are all that verify, and at least one does. -/
theorem verifiedAdmissions_eq_ok_iff {admissions verified : List PeerAdmissionConfig}
    {tokenId secret : String} :
    verifiedAdmissions admissions tokenId secret = .ok verified ↔
      verified = admissions.filter (fun config => config.Verifies tokenId secret) ∧
        verified ≠ [] := by
  have hfilter : (admissions.filter fun config => config.tokenId == tokenId).filter
      (fun config => config.tokenVerifier.verify secret) =
      admissions.filter fun config => config.Verifies tokenId secret := by
    rw [List.filter_filter]
    refine List.filter_congr fun config _ => ?_
    rw [Bool.eq_iff_iff, Bool.and_eq_true, PeerTokenVerifier.verify_iff, beq_iff_eq,
      decide_eq_true_eq, PeerAdmissionConfig.Verifies, and_comm]
  unfold verifiedAdmissions
  simp only [hfilter, List.isEmpty_iff]
  split
  · rename_i hnone
    -- no configuration of the token id, so none that verifies
    rw [← hfilter, hnone]
    simp
  · split
    · rename_i hnone
      simp [hnone]
    · rename_i hsome
      simp only [Except.ok.injEq]
      constructor
      · rintro rfl
        exact ⟨rfl, hsome⟩
      · rintro ⟨rfl, -⟩
        rfl

/-! ### Admission -/

/-- The configuration is for the presented token id and secret, and for the route. -/
def PeerAdmissionConfig.Matches (config : PeerAdmissionConfig) (tokenId secret route : String) :
    Prop :=
  config.Verifies tokenId secret ∧ config.allowedRouteName.asStr = route

/-- `config` is the first configuration of the list with the property. -/
def IsFirst {α : Type*} (p : α → Prop) (l : List α) (config : α) : Prop :=
  ∃ l₁ l₂, l = l₁ ++ config :: l₂ ∧ p config ∧ ∀ c ∈ l₁, ¬ p c

/-- What admission asks of a handshake for the route `peerName`: everything is presented, and the
first configuration that matches accepts the node id and allows some of what is requested. -/
structure Admits (peerName : String) (headers : HeaderMap) (admissions : List PeerAdmissionConfig)
    (tokenId secret nodeId raw : String) (config : PeerAdmissionConfig)
    (requested : PeerCapabilities) : Prop where
  tokenIdPresented : Presents headers PEER_TOKEN_ID_HEADER tokenId
  secretPresented : PresentsBearer headers secret
  nodeIdPresented : Presents headers PEER_NODE_ID_HEADER nodeId
  capabilitiesPresented : Presents headers PEER_CAPABILITIES_HEADER raw
  first : IsFirst (fun c => c.Matches tokenId secret peerName) admissions config
  expected : ∀ expected, config.expectedNodeId = some expected → expected = nodeId
  parses : PeerCapabilities.parseList raw = .ok requested
  meets : requested.intersection config.allowedCapabilities ≠ .empty

theorem PeerCapabilities.isEmpty_iff {caps : PeerCapabilities} :
    caps.isEmpty = true ↔ caps = .empty := by
  cases caps
  simp [isEmpty, empty]

/-- Negotiation succeeds exactly with both headers present, the node id expected, the capabilities
readable, and at least one of them allowed. -/
theorem negotiate_eq_ok_iff {peerName : String} {connectionId : Uuid} {headers : HeaderMap}
    {tokenId : String} {config : PeerAdmissionConfig} {a : AdmittedPeerConnection} :
    negotiate peerName connectionId headers tokenId config = .ok a ↔
      ∃ nodeId raw requested, Presents headers PEER_NODE_ID_HEADER nodeId ∧
        Presents headers PEER_CAPABILITIES_HEADER raw ∧
        (∀ expected, config.expectedNodeId = some expected → expected = nodeId) ∧
        PeerCapabilities.parseList raw = .ok requested ∧
        requested.intersection config.allowedCapabilities ≠ .empty ∧
        a = .tokenBound peerName tokenId connectionId nodeId
          (optionalHeader headers PEER_NODE_NAME_HEADER) config.allowedCapabilities
          (requested.intersection config.allowedCapabilities) := by
  unfold negotiate
  -- the two headers, the node, the list and the intersection, in the order of the source
  simp only [← requiredHeader_eq_ok_iff]
  cases hnode : requiredHeader headers PEER_NODE_ID_HEADER with
  | error message => simp
  | ok nodeId =>
    -- an expected node has to be the one that presents itself
    have hany : (config.expectedNodeId.any fun expected => expected != nodeId) = true ↔
        ¬ ∀ expected, config.expectedNodeId = some expected → expected = nodeId := by
      cases config.expectedNodeId <;> simp
    dsimp only
    by_cases hexp : ∀ expected, config.expectedNodeId = some expected → expected = nodeId
    · rw [if_neg fun h => hany.mp h hexp]
      cases hraw : requiredHeader headers PEER_CAPABILITIES_HEADER with
      | error message => simp
      | ok raw =>
        cases hparse : PeerCapabilities.parseList raw with
        | error err => simp [hparse]
        | ok requested =>
          simp only [hparse, PeerCapabilities.isEmpty_iff]
          split
          · rename_i hempty
            simp [hparse, hempty]
          · rename_i hsome
            simp only [Except.ok.injEq]
            constructor
            · rintro rfl
              exact ⟨nodeId, raw, requested, rfl, rfl, hexp, hparse, hsome, rfl⟩
            · rintro ⟨nodeId', raw', requested', rfl, rfl, -, hparse', -, rfl⟩
              rw [hparse] at hparse'
              cases hparse'
              rfl
    · -- another node than the expected one is refused
      rw [if_pos (hany.mpr hexp)]
      refine ⟨nofun, ?_⟩
      rintro ⟨nodeId', raw, requested, hnode', -, hexp', -⟩
      rw [← Except.ok.inj hnode'] at hexp'
      exact absurd hexp' hexp

/-- `find?` on the verified configurations is the first match of the whole list. -/
theorem find?_verified_eq_some_iff {admissions : List PeerAdmissionConfig}
    {tokenId secret peerName : String} {config : PeerAdmissionConfig} :
    (admissions.filter fun c => c.Verifies tokenId secret).find?
        (fun c => c.allowedRouteName.asStr == peerName) = some config ↔
      IsFirst (fun c => c.Matches tokenId secret peerName) admissions config := by
  rw [List.find?_filter, List.find?_eq_some_iff_append]
  simp only [IsFirst, PeerAdmissionConfig.Matches, decide_eq_true_eq, beq_iff_eq,
    Bool.not_eq_true', decide_eq_false_iff_not]
  grind

/-- With configured admissions the policy for unauthenticated peers plays no part. -/
theorem admitPeerConnection_eq_ok_iff {peerName : String} {connectionId : Uuid}
    {headers : HeaderMap} {admissions : List PeerAdmissionConfig}
    {unauthenticated : Option UnauthenticatedPeerPolicy} {a : AdmittedPeerConnection}
    (hne : admissions ≠ []) :
    admitPeerConnection peerName connectionId headers admissions unauthenticated = .ok a ↔
      ∃ tokenId secret nodeId raw config requested,
        Admits peerName headers admissions tokenId secret nodeId raw config requested ∧
        a = .tokenBound peerName tokenId connectionId nodeId
          (optionalHeader headers PEER_NODE_NAME_HEADER) config.allowedCapabilities
          (requested.intersection config.allowedCapabilities) := by
  unfold admitPeerConnection
  dsimp only
  rw [if_neg (by rwa [List.isEmpty_iff])]
  constructor
  · intro h
    split at h
    · cases h
    rename_i tokenId htoken
    split at h
    · cases h
    rename_i secret hsecret
    split at h
    · cases h
    rename_i verified hverified
    split at h
    · cases h
    rename_i config hfind
    -- each check that did not refuse is a part of the condition
    obtain ⟨nodeId, raw, requested, hnode, hraw, hexp, hparse, hmeets, rfl⟩ :=
      negotiate_eq_ok_iff.mp h
    obtain ⟨rfl, -⟩ := verifiedAdmissions_eq_ok_iff.mp hverified
    exact ⟨tokenId, secret, nodeId, raw, config, requested,
      { tokenIdPresented := requiredHeader_eq_ok_iff.mp htoken
        secretPresented := bearerToken_eq_some_iff.mp hsecret
        nodeIdPresented := hnode
        capabilitiesPresented := hraw
        first := find?_verified_eq_some_iff.mp hfind
        expected := hexp
        parses := hparse
        meets := hmeets }, rfl⟩
  · rintro ⟨tokenId, secret, nodeId, raw, config, requested, hadmits, rfl⟩
    have hfind := find?_verified_eq_some_iff.mpr hadmits.first
    have hverified : verifiedAdmissions admissions tokenId secret =
        .ok (admissions.filter fun c => c.Verifies tokenId secret) := by
      -- the config is among the verified ones, so there is one
      refine verifiedAdmissions_eq_ok_iff.mpr ⟨rfl, ?_⟩
      intro hnil
      rw [hnil] at hfind
      cases hfind
    rw [requiredHeader_eq_ok_iff.mpr hadmits.tokenIdPresented,
      bearerToken_eq_some_iff.mpr hadmits.secretPresented]
    dsimp only
    rw [hverified]
    dsimp only
    rw [hfind]
    exact negotiate_eq_ok_iff.mpr ⟨nodeId, raw, requested, hadmits.nodeIdPresented,
      hadmits.capabilitiesPresented, hadmits.expected, hadmits.parses, hadmits.meets, rfl⟩

/-! ### Ingress -/

/-- The context of the tunnel that is live for a configuration under the token id: its sender is
registered. -/
def PeerSenders.liveContext (s : PeerSenders) (tokenId : String) (config : PeerAdmissionConfig) :
    Option AdmittedPeerConnection :=
  (s.peerContext config.allowedRouteName.asStr).filter fun context =>
    context.tokenId = some tokenId ∧ (s.sender config.allowedRouteName.asStr).isSome

/-- While the acceptors do not change, the loop collects the live contexts in list order. -/
theorem liveContexts_const (s : PeerSenders) (tokenId : String) (k : ℕ)
    (verified : List PeerAdmissionConfig) (found : List AdmittedPeerConnection × Option Uuid) :
    (liveContexts (fun _ => s) tokenId k verified found).1 =
      found.1 ++ verified.filterMap (s.liveContext tokenId) := by
  induction verified generalizing k found with
  | nil => simp [liveContexts]
  | cons config rest ih =>
    rw [liveContexts, ih, List.filterMap_cons]
    cases hcontext : s.peerContext config.allowedRouteName.asStr with
    | none => simp [PeerSenders.liveContext, hcontext]
    | some context =>
      by_cases htoken : context.tokenId = some tokenId
      · cases hsender : s.sender config.allowedRouteName.asStr with
        | none => simp [PeerSenders.liveContext, hcontext, htoken, hsender]
        | some conn =>
          simp [PeerSenders.liveContext, hcontext, htoken, hsender, Option.filter_some]
      · simp [PeerSenders.liveContext, hcontext, htoken, Option.filter_some]

/-- One live context is left exactly when one entry gives it and all others give none. -/
theorem filterMap_filter_eq_singleton_iff {α β : Type*} {p : α → Prop} [DecidablePred p]
    {f : α → Option β} {l : List α} {b : β} :
    (l.filter fun a => p a).filterMap f = [b] ↔
      ∃ l₁ a l₂, l = l₁ ++ a :: l₂ ∧ p a ∧ f a = some b ∧
        ∀ c ∈ l₁ ++ l₂, p c → f c = none := by
  rw [List.filterMap_filter, List.filterMap_eq_cons_iff]
  simp only [List.filterMap_eq_nil_iff, List.mem_append]
  constructor
  · rintro ⟨l₁, a, l₂, rfl, h₁, ha, h₂⟩
    -- the kept element that `f` takes is the only one
    by_cases hp : p a
    · refine ⟨l₁, a, l₂, rfl, hp, by simpa [hp] using ha, ?_⟩
      rintro c (hc | hc) hpc
      · simpa [hpc] using h₁ c hc
      · simpa [hpc] using h₂ c hc
    · simp [hp] at ha
  · rintro ⟨l₁, a, l₂, rfl, hp, ha, hrest⟩
    refine ⟨l₁, a, l₂, rfl, ?_, by simpa [hp] using ha, ?_⟩
    · intro c hc
      by_cases hpc : p c
      · simpa [hpc] using hrest c (.inl hc) hpc
      · simp [hpc]
    · intro c hc
      by_cases hpc : p c
      · simpa [hpc] using hrest c (.inr hc) hpc
      · simp [hpc]

/-- A request is attested exactly when one configuration that its credentials match, and no other
one of the list, has a live tunnel. -/
theorem resolveCallerIngress_eq_some_iff {headers : HeaderMap}
    {admissions : List PeerAdmissionConfig} {s : PeerSenders} {context : AdmittedPeerConnection} :
    resolveCallerIngress headers admissions (fun _ => s) = .ok (some context) ↔
      ∃ tokenId secret, Presents headers PEER_TOKEN_ID_HEADER tokenId ∧
        PresentsBearer headers secret ∧
        ∃ l₁ config l₂, admissions = l₁ ++ config :: l₂ ∧ config.Verifies tokenId secret ∧
          s.liveContext tokenId config = some context ∧
          ∀ c ∈ l₁ ++ l₂, c.Verifies tokenId secret → s.liveContext tokenId c = none := by
  simp only [← optionalHeader_eq_some_iff, ← bearerToken_eq_some_iff]
  unfold resolveCallerIngress
  -- without a token id there is no caller to speak of
  cases htoken : optionalHeader headers PEER_TOKEN_ID_HEADER with
  | none => simp
  | some tokenId =>
    -- without a bearer token the request is refused, whatever the admissions
    cases hbearer : bearerToken headers with
    | none =>
      dsimp only
      split <;> simp
    | some secret =>
      simp only [← filterMap_filter_eq_singleton_iff, Option.some.injEq, exists_and_left,
        exists_eq_left']
      split
      · rename_i hnil
        rw [List.isEmpty_iff.mp hnil]
        simp
      split
      · -- nothing was verified, so no admission can have a peer that is connected
        rename_i reason hverified
        have hnil : (admissions.filter fun c => c.Verifies tokenId secret) = [] := by
          by_contra hne
          rw [verifiedAdmissions_eq_ok_iff.mpr ⟨rfl, hne⟩] at hverified
          cases hverified
        rw [hnil]
        simp
      · rename_i verified hverified
        obtain ⟨rfl, -⟩ := verifiedAdmissions_eq_ok_iff.mp hverified
        -- all reads see the same senders
        have hlive := liveContexts_const s tokenId 0
          (admissions.filter fun c => c.Verifies tokenId secret) ([], none)
        rw [List.nil_append] at hlive
        rw [← hlive]
        -- none, exactly one, or several
        split
        · rename_i hfound
          simp [hfound]
        · rename_i found hfound
          simp [hfound]
        · rename_i hnone hmany
          exact ⟨nofun, fun h => absurd h (hmany context)⟩

/-- The decision depends on the policy for unauthenticated peers exactly when no admission is
configured. -/
theorem admitPeerConnection_uses_policy_iff {peerName : String} {connectionId : Uuid}
    {headers : HeaderMap} {admissions : List PeerAdmissionConfig} :
    (∃ p p', admitPeerConnection peerName connectionId headers admissions p ≠
        admitPeerConnection peerName connectionId headers admissions p') ↔ admissions = [] := by
  constructor
  · rintro ⟨p, p', hne⟩
    by_contra hadm
    apply hne
    unfold admitPeerConnection
    dsimp only
    rw [if_neg (by rwa [List.isEmpty_iff]), if_neg (by rwa [List.isEmpty_iff])]
  · rintro rfl
    exact ⟨none, some .localDevelopment, nofun⟩

/-- **Admission decides exactly its specification, and ingress attests only live tunnels.**  With
configured admissions a handshake is admitted exactly when it presents all credentials and the
first configuration that they match accepts it; the connection then has the presented route, token
id, node id and connection id, and negotiates exactly what it requested of what is allowed.  The
policy for unauthenticated peers decides exactly when nothing is configured.  And for a fixed state
of the acceptors a request is attested exactly when, among all configurations that have the
presented token id and secret, one and only one has a live tunnel under that token id. -/
theorem admission_spec (peerName : String) (connectionId : Uuid) (headers : HeaderMap)
    (admissions : List PeerAdmissionConfig) (unauthenticated : Option UnauthenticatedPeerPolicy)
    (senders : PeerSenders) :
    (admissions ≠ [] → ∀ a,
      admitPeerConnection peerName connectionId headers admissions unauthenticated = .ok a ↔
        ∃ tokenId secret nodeId raw config requested,
          Admits peerName headers admissions tokenId secret nodeId raw config requested ∧
          a = .tokenBound peerName tokenId connectionId nodeId
            (optionalHeader headers PEER_NODE_NAME_HEADER) config.allowedCapabilities
            (requested.intersection config.allowedCapabilities)) ∧
    ((∃ p p', admitPeerConnection peerName connectionId headers admissions p ≠
        admitPeerConnection peerName connectionId headers admissions p') ↔ admissions = []) ∧
    (admissions = [] → ∀ a,
      admitPeerConnection peerName connectionId headers admissions unauthenticated = .ok a ↔
        ∃ policy, unauthenticated = some policy ∧
          a = .unauthenticated peerName connectionId policy.allowedCapabilities) ∧
    ∀ context, resolveCallerIngress headers admissions (fun _ => senders) = .ok (some context) ↔
      ∃ tokenId secret, Presents headers PEER_TOKEN_ID_HEADER tokenId ∧
        PresentsBearer headers secret ∧
        ∃ l₁ config l₂, admissions = l₁ ++ config :: l₂ ∧ config.Verifies tokenId secret ∧
          senders.liveContext tokenId config = some context ∧
          ∀ c ∈ l₁ ++ l₂, c.Verifies tokenId secret → senders.liveContext tokenId c = none := by
  refine ⟨fun hne a => admitPeerConnection_eq_ok_iff hne, admitPeerConnection_uses_policy_iff, ?_,
    fun context => resolveCallerIngress_eq_some_iff⟩
  rintro rfl a
  -- without admissions the policy alone decides
  unfold admitPeerConnection
  cases unauthenticated with
  | none => simp
  | some policy => simp [eq_comm]

/-- The headers of a handshake for the route `hub`. -/
def hubHeaders : HeaderMap :=
  [(PEER_TOKEN_ID_HEADER, tokValue),
    (AUTHORIZATION, ⟨"Bearer secret".toUTF8.data.toList, by decide⟩),
    (PEER_NODE_ID_HEADER, ⟨"node-1".toUTF8.data.toList, by decide⟩),
    (PEER_CAPABILITIES_HEADER, ⟨"resource.read, peer.admin".toUTF8.data.toList, by decide⟩)]

/-- The hub asks for two capabilities and negotiates the one it is allowed. -/
theorem admission_spec_hub :
    [hubAdmission] ≠ [] ∧
      ∃ tokenId secret nodeId raw config requested,
        Admits "hub" hubHeaders [hubAdmission] tokenId secret nodeId raw config requested ∧
          AdmittedPeerConnection.tokenBound "hub" "tok" 7 "node-1" none .resourceRead
              .resourceRead =
            .tokenBound "hub" tokenId 7 nodeId (optionalHeader hubHeaders PEER_NODE_NAME_HEADER)
              config.allowedCapabilities (requested.intersection config.allowedCapabilities) :=
  have hadmitted : admitPeerConnection "hub" 7 hubHeaders [hubAdmission] none =
      .ok (.tokenBound "hub" "tok" 7 "node-1" none .resourceRead .resourceRead) := by decide
  ⟨by decide, ((admission_spec "hub" 7 hubHeaders [hubAdmission] none
    (PeerAcceptors.toPeerSenders {})).1 (by decide) _).mp hadmitted⟩

end Boardwalk
