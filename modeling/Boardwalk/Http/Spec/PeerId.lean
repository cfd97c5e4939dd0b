import Boardwalk.Http.Spec.Admission

/-!
# What a peer id tells apart

The peer id of an admitted connection is its route name, followed by its token id if it has one,
joined by a dash, which both may contain.  Equal peer ids mean equal routes and equal token ids
exactly when neither route goes on from the other one with a dash and the beginning of its token id
(`peerId_identifies_iff`).
-/

namespace Boardwalk

namespace AdmittedPeerConnection

/-- A connection that one of the two constructors makes for a valid route name. -/
inductive Admissible : AdmittedPeerConnection → Prop where
  | unauthenticated (route : RouteName) (connectionId : Uuid)
    (allowedCapabilities : PeerCapabilities) :
    Admissible (.unauthenticated route.asStr connectionId allowedCapabilities)
  | tokenBound (route : RouteName) (tokenId : String) (connectionId : Uuid) (nodeId : String)
    (displayName : Option String) (allowedCapabilities negotiatedCapabilities : PeerCapabilities) :
    Admissible (.tokenBound route.asStr tokenId connectionId nodeId displayName allowedCapabilities
      negotiatedCapabilities)

/-- The token id as it ends the peer id. -/
def tokenSuffix (a : AdmittedPeerConnection) : String := a.tokenId.elim "" fun t => "-" ++ t

/-- The route of `b` is that of `a`, a dash and the beginning `x` of the token id of `a`; what is
left of that token id is the token id of `b` with its dash, or nothing if `b` has none. -/
def Overlaps (a b : AdmittedPeerConnection) : Prop :=
  ∃ x, b.routeName = a.routeName ++ "-" ++ x ∧ a.tokenId = some (x ++ b.tokenSuffix)

variable {a b : AdmittedPeerConnection}

/-- **The peer id** in terms of the fields it is made of. -/
theorem Admissible.peerId_eq (h : a.Admissible) :
    a.peerId = "peer-" ++ (a.routeName ++ a.tokenSuffix) := by
  cases h with
  | unauthenticated route =>
    show "peer-" ++ route.asStr = "peer-" ++ (route.asStr ++ "")
    rw [String.append_empty]
  | tokenBound route tokenId =>
    show "peer-" ++ route.asStr ++ "-" ++ tokenId = "peer-" ++ (route.asStr ++ ("-" ++ tokenId))
    rw [String.append_assoc, String.append_assoc]

theorem Admissible.peerId_eq_iff (ha : a.Admissible) (hb : b.Admissible) :
    a.peerId = b.peerId ↔ a.routeName ++ a.tokenSuffix = b.routeName ++ b.tokenSuffix := by
  rw [ha.peerId_eq, hb.peerId_eq, String.append_right_inj]

/-- Two peers with the same token suffix have the same token. -/
theorem tokenSuffix_inj (h : a.tokenSuffix = b.tokenSuffix) : a.tokenId = b.tokenId := by
  have hne : ∀ t : String, "-" ++ t ≠ "" := by simp
  unfold tokenSuffix at h
  cases hta : a.tokenId with
  | none =>
    cases htb : b.tokenId with
    | none => rfl
    | some t =>
      rw [hta, htb] at h
      exact absurd h.symm (hne t)
  | some t =>
    cases htb : b.tokenId with
    | none =>
      rw [hta, htb] at h
      exact absurd h (hne t)
    | some t' =>
      rw [hta, htb] at h
      exact congrArg some ((String.append_right_inj _).mp h)

/-- A suffix that goes on from `m` is a token id that does. -/
theorem overlaps_of_append {m : String} (hm : m ≠ "") (hroute : b.routeName = a.routeName ++ m)
    (hsuffix : a.tokenSuffix = m ++ b.tokenSuffix) : a.Overlaps b := by
  unfold tokenSuffix at hsuffix
  cases htoken : a.tokenId with
  | none =>
    rw [htoken] at hsuffix
    exact absurd (String.append_eq_empty_iff.mp hsuffix.symm).1 hm
  | some t =>
    rw [htoken] at hsuffix
    -- `m` is not empty, so it begins with the dash
    rcases Str.append_eq_append_iff.mp hsuffix with ⟨x, rfl, ht⟩ | ⟨x, hdash, ht⟩
    · exact ⟨x, by rw [hroute, String.append_assoc], by rw [htoken, ht]; rfl⟩
    · have hlen := congrArg String.length hdash
      have hpos : 0 < m.length := Nat.pos_of_ne_zero fun h => hm (String.length_eq_zero_iff.mp h)
      rw [String.length_append, show "-".length = 1 from rfl] at hlen
      have hx : x = "" := String.length_eq_zero_iff.mp (by omega)
      subst hx
      rw [String.append_empty] at hdash
      subst hdash
      refine ⟨"", by rw [hroute, String.append_empty], ?_⟩
      rw [htoken, String.empty_append, ← String.empty_append (s := t), ← ht]
      rfl

theorem Overlaps.shared (h : a.Overlaps b) :
    a.routeName ++ a.tokenSuffix = b.routeName ++ b.tokenSuffix ∧ a.routeName ≠ b.routeName := by
  obtain ⟨x, hroute, htoken⟩ := h
  constructor
  · rw [hroute, tokenSuffix, htoken]
    simp [String.append_assoc]
  · intro heq
    rw [heq] at hroute
    have hlen := congrArg String.length hroute
    rw [String.length_append, String.length_append, show "-".length = 1 from rfl] at hlen
    omega

/-- **When a peer id identifies the admission.** For two admitted connections, equal peer ids mean
the same route and the same token id exactly when neither route continues the other one with a dash
and the beginning of its token id. -/
theorem peerId_identifies_iff (ha : a.Admissible) (hb : b.Admissible) :
    (a.peerId = b.peerId → a.routeName = b.routeName ∧ a.tokenId = b.tokenId) ↔
      ¬ a.Overlaps b ∧ ¬ b.Overlaps a := by
  -- both ends overlap only where the names share a prefix and the suffixes differ
  rw [ha.peerId_eq_iff hb]
  constructor
  · intro h
    refine ⟨fun hab => ?_, fun hba => ?_⟩
    · obtain ⟨heq, hne⟩ := hab.shared
      exact hne (h heq).1
    · obtain ⟨heq, hne⟩ := hba.shared
      exact hne (h heq.symm).1.symm
  · rintro ⟨hab, hba⟩ heq
    -- the two routes are of one length, or one is longer by `m`
    rcases Str.append_eq_append_iff.mp heq with ⟨m, hroute, hsuffix⟩ | ⟨m, hroute, hsuffix⟩
    · by_cases hm : m = ""
      · subst hm
        rw [String.append_empty] at hroute
        rw [String.empty_append] at hsuffix
        exact ⟨hroute.symm, tokenSuffix_inj hsuffix⟩
      · exact absurd (overlaps_of_append hm hroute hsuffix) hab
    · by_cases hm : m = ""
      · subst hm
        rw [String.append_empty] at hroute
        rw [String.empty_append] at hsuffix
        exact ⟨hroute, (tokenSuffix_inj hsuffix).symm⟩
      · exact absurd (overlaps_of_append hm hroute hsuffix) hba

/-- Routes without dashes: the ids tell the connections apart. -/
theorem peerId_identifies_hubs :
    (tokenBound "hub" "tok" 0 "n" none .resourceRead .resourceRead).Admissible ∧
      (unauthenticated "cloud" 1 .resourceRead).Admissible ∧
      ((tokenBound "hub" "tok" 0 "n" none .resourceRead .resourceRead).peerId =
          (unauthenticated "cloud" 1 .resourceRead).peerId →
        "hub" = "cloud" ∧ some "tok" = none) := by
  have ha : (tokenBound "hub" "tok" 0 "n" none .resourceRead .resourceRead).Admissible :=
    .tokenBound ⟨"hub", by decide⟩ ..
  have hb : (unauthenticated "cloud" 1 .resourceRead).Admissible :=
    .unauthenticated ⟨"cloud", by decide⟩ ..
  refine ⟨ha, hb, (peerId_identifies_iff ha hb).mpr ⟨?_, ?_⟩⟩
  · rintro ⟨x, hroute, -⟩
    have hchars := congrArg String.toList hroute
    rw [String.toList_append, String.toList_append] at hchars
    have hhead : some 'c' = some 'h' := congrArg List.head? hchars
    exact absurd hhead (by decide)
  · rintro ⟨x, hroute, -⟩
    have hchars := congrArg String.toList hroute
    rw [String.toList_append, String.toList_append] at hchars
    have hhead : some 'h' = some 'c' := congrArg List.head? hchars
    exact absurd hhead (by decide)

/-- The admissions of two routes, one of which continues the other. -/
def dashedAdmissions : List PeerAdmissionConfig :=
  [{ hubAdmission with tokenId := "west-1" },
    { hubAdmission with allowedRouteName := ⟨"hub-west", by decide⟩, tokenId := "1" }]

/-- The headers of a handshake with a token id. -/
def dashedHeaders (tokenId : HeaderValue) : HeaderMap :=
  [(PEER_TOKEN_ID_HEADER, tokenId),
    (AUTHORIZATION, ⟨"Bearer secret".toUTF8.data.toList, rfl⟩),
    (PEER_NODE_ID_HEADER, ⟨"node-1".toUTF8.data.toList, rfl⟩),
    (PEER_CAPABILITIES_HEADER, ⟨"resource.read".toUTF8.data.toList, rfl⟩)]

/-- **One gateway admits two peers under one peer id**: `hub` with the token `west-1` and `hub-west`
with the token `1`. -/
theorem peerId_shared :
    ∃ a b, admitPeerConnection "hub" 0 (dashedHeaders ⟨"west-1".toUTF8.data.toList, by decide⟩)
        dashedAdmissions none = .ok a ∧
      admitPeerConnection "hub-west" 1 (dashedHeaders ⟨"1".toUTF8.data.toList, by decide⟩)
        dashedAdmissions none = .ok b ∧
      a.peerId = b.peerId ∧ a.routeName ≠ b.routeName ∧ a.tokenId ≠ b.tokenId := by
  refine ⟨.tokenBound "hub" "west-1" 0 "node-1" none .resourceRead .resourceRead,
    .tokenBound "hub-west" "1" 1 "node-1" none .resourceRead .resourceRead, ?_, ?_, rfl, ?_, ?_⟩
  · decide
  · decide
  · decide
  · decide

end AdmittedPeerConnection

end Boardwalk
