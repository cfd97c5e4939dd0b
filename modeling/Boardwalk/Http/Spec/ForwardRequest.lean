import Boardwalk.Http.ForwardRequest
import Boardwalk.Http.Spec.Ingress
import Boardwalk.Lib.Str

/-!
# Forwarded headers cannot be forged

A built request has the copied headers first and the gateway's after them
(`buildPeerForwardRequest_headers`).  Nothing that is copied has a name of the gateway's, so the
gateway's headers depend on nothing of the inbound request but its host, and each occurs once.
-/

namespace Boardwalk

/-! ### Texts as header values -/

/-- The text has only visible ASCII characters and tabs. -/
def IsVisible (s : String) : Prop :=
  ∀ c ∈ s.toList, (32 ≤ c.toNat ∧ c.toNat < 127) ∨ c.toNat = 9

instance (s : String) : Decidable (IsVisible s) := List.decidableBAll _ _

namespace HeaderValue

/-- A character is visible exactly when all its bytes are. -/
theorem isVisibleAscii_utf8EncodeChar_iff {c : Char} :
    (∀ b ∈ String.utf8EncodeChar c, isVisibleAscii b = true) ↔
      (32 ≤ c.toNat ∧ c.toNat < 127) ∨ c.toNat = 9 := by
  by_cases hascii : c.toNat < 128
  · rw [Str.utf8EncodeChar_of_lt hascii]
    have hmod : (UInt8.ofNat c.toNat).toNat = c.toNat := by
      rw [UInt8.toNat_ofNat']
      omega
    simp only [List.mem_singleton, forall_eq, isVisibleAscii_iff]
    simp only [UInt8.le_iff_toNat_le, UInt8.lt_iff_toNat_lt, ← UInt8.toNat_inj, hmod]
    rfl
  · obtain ⟨b, hb, hge⟩ := Str.exists_mem_utf8EncodeChar (by omega : 128 ≤ c.toNat)
    constructor
    · intro hall
      have hvis := isVisibleAscii_iff.mp (hall b hb)
      simp only [UInt8.le_iff_toNat_le, UInt8.lt_iff_toNat_lt, ← UInt8.toNat_inj,
        UInt8.toNat_ofNat] at hvis hge
      omega
    · omega

theorem all_isVisibleAscii_iff {s : String} :
    s.toUTF8.data.toList.all isVisibleAscii = true ↔ IsVisible s := by
  rw [Str.toUTF8_toList, List.all_eq_true]
  simp only [List.mem_flatMap, forall_exists_index, and_imp, IsVisible,
    ← isVisibleAscii_utf8EncodeChar_iff]
  grind

/-- The characters of an ASCII text are its bytes. -/
theorem ofList_bytes {s : String} (h : IsVisible s) :
    String.ofList (s.toUTF8.data.toList.map fun b => Char.ofNat b.toNat) = s := by
  rw [← String.toList_inj, String.toList_ofList, Str.toUTF8_toList, List.map_flatMap]
  have hone : ∀ c ∈ s.toList,
      (String.utf8EncodeChar c).map (fun b => Char.ofNat b.toNat) = [c] := by
    intro c hc
    have hlt : c.toNat < 128 := by
      have := h c hc
      omega
    rw [Str.utf8EncodeChar_of_lt hlt, List.map_singleton, UInt8.toNat_ofNat',
      Nat.mod_eq_of_lt (by omega), Char.ofNat_toNat]
  rw [List.flatMap_congr hone, List.flatMap_singleton']

/-- **A text that is stamped is read back exactly when it is visible.**  Construction also accepts
bytes outside ASCII, which `to_str` does not. -/
theorem toStr_fromStr {s : String} {v : HeaderValue} (h : fromStr s = some v) :
    v.toStr = if IsVisible s then some s else none := by
  unfold fromStr at h
  split at h
  · cases h
    unfold toStr
    by_cases hvis : IsVisible s
    · rw [if_pos (all_isVisibleAscii_iff.mpr hvis), if_pos hvis]
      exact congrArg some (ofList_bytes hvis)
    · rw [if_neg fun hall => hvis (all_isVisibleAscii_iff.mp hall), if_neg hvis]
  · cases h

/-- What `to_str` returns is visible. -/
theorem isVisible_of_toStr {v : HeaderValue} {s : String} (h : v.toStr = some s) :
    IsVisible s := by
  unfold toStr at h
  split at h
  · rename_i hall
    cases h
    intro c hc
    rw [String.toList_ofList] at hc
    obtain ⟨b, hb, rfl⟩ := List.mem_map.mp hc
    have hvis := isVisibleAscii_iff.mp (List.all_eq_true.mp hall b hb)
    rw [toNat_ofNat_byte]
    simp only [UInt8.le_iff_toNat_le, UInt8.lt_iff_toNat_lt, ← UInt8.toNat_inj,
      UInt8.toNat_ofNat] at hvis
    omega
  · cases h

end HeaderValue

/-! ### The headers of a built request -/

/-- The values of texts that are stamped. -/
def stampedHeaders (texts : List (String × String)) : HeaderMap :=
  texts.filterMap fun h => (HeaderValue.fromStr h.2).map fun value => (h.1, value)

/-- Appending valid headers one by one appends the list. -/
theorem foldlM_appendHeader {ops : HttpOps} {headers : List (String × HeaderValue)}
    {acc out : HeaderMap} (h : headers.foldlM (appendHeader ops) acc = .ok out) :
    out = acc ++ headers := by
  induction headers generalizing acc with
  | nil =>
    cases h
    rw [List.append_nil]
  | cons header rest ih =>
    rw [List.foldlM_cons] at h
    unfold appendHeader at h
    split at h
    · rw [ih h, List.append_assoc]
      rfl
    · cases h

/-- Stamping headers one by one appends them all, and each value was valid text. -/
theorem foldlM_stampHeader {ops : HttpOps} {texts : List (String × String)} {acc out : HeaderMap}
    (h : texts.foldlM (stampHeader ops) acc = .ok out) :
    out = acc ++ stampedHeaders texts ∧ ∀ t ∈ texts, (HeaderValue.fromStr t.2).isSome = true := by
  -- on the texts; `acc` is what was stamped before them
  induction texts generalizing acc with
  | nil =>
    cases h
    exact ⟨(List.append_nil _).symm, nofun⟩
  | cons text rest ih =>
    rw [List.foldlM_cons] at h
    unfold stampHeader appendHeader at h
    split at h
    · cases h
    · rename_i value hvalue
      split at h
      · obtain ⟨hout, hrest⟩ := ih h
        refine ⟨?_, ?_⟩
        · rw [hout, List.append_assoc, stampedHeaders, stampedHeaders, List.filterMap_cons, hvalue]
          rfl
        · intro t ht
          rcases List.mem_cons.mp ht with rfl | ht
          · rw [hvalue]
            rfl
          · exact hrest t ht
      · cases h

/-- **What a built request carries**: the sanitized headers of the inbound one, then the gateway's,
all of which are valid header values. -/
theorem buildPeerForwardRequest_headers {β : Type} {ops : HttpOps}
    {attestation : ForwardAttestation} {targetName method : String} {uri : Uri}
    {inbound : HeaderMap} {body : β} {correlationId : Uuid} {req : HttpRequest β}
    (h : buildPeerForwardRequest ops attestation targetName method uri inbound body correlationId =
      .ok req) :
    req.headers = sanitizeForwardHeaders inbound (connectionHeaderTokens inbound) ++
        stampedHeaders (gatewayHeaders attestation (forwardedExternalBases inbound uri targetName)
          correlationId) ∧
      ∀ t ∈ gatewayHeaders attestation (forwardedExternalBases inbound uri targetName)
        correlationId, (HeaderValue.fromStr t.2).isSome = true := by
  unfold buildPeerForwardRequest at h
  dsimp only at h
  split at h
  · cases h
  · obtain ⟨copied, hcopied, h⟩ := bind_eq_ok_iff.mp h
    obtain ⟨stamped, hstamped, h⟩ := bind_eq_ok_iff.mp h
    cases h
    have hall := foldlM_appendHeader hcopied
    rw [List.nil_append] at hall
    rw [← hall]
    exact foldlM_stampHeader hstamped

/-! ### The names of the gateway -/

/-- The names that a gateway keeps for itself. -/
def isGatewayOwned (name : String) : Bool :=
  Str.startsWith name "boardwalk-" || Str.startsWith name "x-forwarded-"

/-- The names that no forwarded request has. -/
def isNeverForwarded (name : String) : Bool :=
  name ∈ ["host", "forwarded", "authorization", "cookie", "connection", "keep-alive", "te",
      "trailer", "transfer-encoding", "upgrade"] ||
    Str.startsWith name "proxy-" || Str.startsWith name "x-boardwalk-" ||
    Str.startsWith name "sec-websocket-"

/-- A `Connection` value that is text nominates the name. -/
def Nominated (inbound : HeaderMap) (name : String) : Prop :=
  name ≠ "" ∧ ∃ h ∈ inbound, h.1 = "connection" ∧ ∃ text, h.2.toStr = some text ∧
    ∃ token ∈ Str.split ',' text, Str.toAsciiLowercase (Str.trim token) = name

theorem mem_connectionHeaderTokens {inbound : HeaderMap} {name : String} :
    name ∈ connectionHeaderTokens inbound ↔ Nominated inbound name := by
  unfold connectionHeaderTokens Nominated
  simp only [List.mem_filter, List.mem_map, List.mem_flatMap, List.mem_filterMap, CONNECTION,
    Bool.not_eq_true', String.isEmpty_eq_false_iff]
  grind

instance (inbound : HeaderMap) (name : String) : Decidable (Nominated inbound name) :=
  decidable_of_iff _ mem_connectionHeaderTokens

/-- Every name that a gateway can stamp. -/
def gatewayNames : List String :=
  ["x-forwarded-host", "x-forwarded-proto", "boardwalk-external-base",
    "boardwalk-external-ws-base", "boardwalk-forwarded-by", RENDER_CAPABILITIES_HEADER,
    "boardwalk-correlation-id", CALLER_PEER_ID_HEADER, CALLER_ROUTE_HEADER,
    CALLER_CAPABILITIES_HEADER, CALLER_CONNECTION_ID_HEADER, CALLER_TOKEN_ID_HEADER,
    CALLER_NODE_ID_HEADER, CALLER_NODE_NAME_HEADER]

theorem gatewayNames_nodup : gatewayNames.Nodup := by decide

theorem gatewayNames_owned : ∀ name ∈ gatewayNames,
    isGatewayOwned name = true ∧ isNeverForwarded name = false := by decide +kernel

/-- Each name is stamped at most once, whichever of the caller's fields are there. -/
theorem gatewayHeaders_names_sublist (attestation : ForwardAttestation)
    (bases : ForwardedExternalBases) (correlationId : Uuid) :
    ((gatewayHeaders attestation bases correlationId).map Prod.fst).Sublist gatewayNames := by
  unfold gatewayHeaders
  cases attestation.caller with
  | none => simp [gatewayNames]
  | some caller =>
    simp only [Option.map_some, Option.getD_some, callerHeaders]
    cases caller.tokenId <;> cases caller.nodeId <;> cases caller.displayName <;>
      simp [gatewayNames]

theorem stampedHeaders_names {texts : List (String × String)}
    (hvalid : ∀ t ∈ texts, (HeaderValue.fromStr t.2).isSome = true) :
    (stampedHeaders texts).map Prod.fst = texts.map Prod.fst := by
  induction texts with
  | nil => rfl
  | cons text rest ih =>
    obtain ⟨value, hvalue⟩ := Option.isSome_iff_exists.mp (hvalid text List.mem_cons_self)
    have hrest := ih fun t ht => hvalid t (List.mem_cons_of_mem _ ht)
    rw [stampedHeaders] at hrest ⊢
    rw [List.filterMap_cons, hvalue, Option.map_some, List.map_cons, List.map_cons, hrest]

/-! ### What is copied -/

/-- `http::HeaderName` is lower case. -/
def HeaderMap.LowerCase (headers : HeaderMap) : Prop :=
  ∀ h ∈ headers, Str.toAsciiLowercase h.1 = h.1

theorem unforwardedNames_never : ∀ name ∈ unforwardedNames, isNeverForwarded name = true := by
  decide

/-- A header is copied exactly when its name is not the gateway's, is not one that is never
forwarded, and is not nominated. -/
theorem shouldForwardHeader_iff {inbound : HeaderMap} {name : String}
    (hlower : Str.toAsciiLowercase name = name) :
    shouldForwardHeader name (connectionHeaderTokens inbound) = true ↔
      isGatewayOwned name = false ∧ isNeverForwarded name = false ∧ ¬ Nominated inbound name := by
  unfold shouldForwardHeader
  rw [hlower, ← mem_connectionHeaderTokens]
  constructor
  · -- each guard of the filter gives one of the three facts
    intro h
    split at h
    · cases h
    rename_i hhost
    dsimp only at h
    split at h
    · cases h
    rename_i htoken
    split at h
    · cases h
    rename_i hname
    split at h
    · cases h
    rename_i hpre
    simp only [unforwardedPrefixes, List.any_cons, List.any_nil, Bool.or_false, Bool.or_eq_true,
      not_or, Bool.not_eq_true] at hpre
    -- the names of the source that no prefix covers
    obtain ⟨hproxy, hxfwd, hxbw, hbw, hws⟩ := hpre
    have hlisted : name ∉ ["host", "forwarded", "authorization", "cookie", "connection",
        "keep-alive", "te", "trailer", "transfer-encoding", "upgrade"] := by
      simp only [unforwardedNames, HOST] at hname hhost
      simp only [List.mem_cons, not_or] at hname ⊢
      grind
    exact ⟨by simp [isGatewayOwned, hbw, hxfwd],
      by simp only [isNeverForwarded, hlisted, hproxy, hxbw, hws]; rfl, htoken⟩
  · rintro ⟨howned, hnever, htoken⟩
    -- `host` is among the names that are never forwarded
    have hhost : name ≠ HOST := by
      rintro rfl
      exact absurd hnever (by decide)
    have hname : name ∉ unforwardedNames := by
      intro hmem
      rw [unforwardedNames_never name hmem] at hnever
      cases hnever
    simp only [isGatewayOwned, isNeverForwarded, Bool.or_eq_false_iff] at howned hnever
    have hpre : unforwardedPrefixes.any (Str.startsWith name) = false := by
      simp only [unforwardedPrefixes, List.any_cons, List.any_nil, hnever, howned]
      rfl
    rw [if_neg hhost]
    dsimp only
    rw [if_neg htoken, if_neg hname, if_neg (by rw [hpre]; nofun)]

/-- What is copied is the inbound headers that may be. -/
theorem sanitizeForwardHeaders_eq {inbound : HeaderMap} (hlower : inbound.LowerCase) :
    sanitizeForwardHeaders inbound (connectionHeaderTokens inbound) =
      inbound.filter fun h => isGatewayOwned h.1 = false ∧ isNeverForwarded h.1 = false ∧
        ¬ Nominated inbound h.1 := by
  unfold sanitizeForwardHeaders
  refine List.filter_congr fun h hh => ?_
  rw [Bool.eq_iff_iff, shouldForwardHeader_iff (hlower h hh), decide_eq_true_eq]

/-- What a request that was forwarded has of the inbound one and of the gateway. -/
structure ForwardedFrom (inbound : HeaderMap) (correlationId : Uuid) (out : HeaderMap) :
    Prop where
  /-- Each of the gateway's names occurs once. -/
  once : ((out.filter fun h => isGatewayOwned h.1).map Prod.fst).Nodup
  correlation : headerText out "boardwalk-correlation-id" = some correlationId.toText
  never : ∀ h ∈ out, isNeverForwarded h.1 = false
  /-- A nominated name is at most one that the gateway stamps itself. -/
  nominated : ∀ h ∈ out, Nominated inbound h.1 → isGatewayOwned h.1 = true
  /-- Everything else is copied as it is. -/
  copied : (out.filter fun h => !isGatewayOwned h.1) =
    inbound.filter fun h => isGatewayOwned h.1 = false ∧ isNeverForwarded h.1 = false ∧
      ¬ Nominated inbound h.1

/-! ### Reading what was stamped -/

theorem isVisible_digitChar : ∀ n < 16, 32 ≤ (Nat.digitChar n).toNat ∧
    (Nat.digitChar n).toNat < 127 := by
  decide

/-- The text of a connection id has only dashes and hexadecimal digits. -/
theorem Uuid.mem_toList_toText {u : Uuid} {c : Char} (h : c ∈ u.toText.toList) :
    c = '-' ∨ ∃ n < 16, c = Nat.digitChar n := by
  have hgroup : ∀ start len, c ∈ (String.ofList ((u.hexDigits.drop start).take len)).toList →
      ∃ n < 16, c = Nat.digitChar n := by
    intro start len hmem
    rw [String.toList_ofList] at hmem
    obtain ⟨i, -, rfl⟩ := List.mem_map.mp (List.mem_of_mem_drop (List.mem_of_mem_take hmem))
    exact ⟨_, Nat.mod_lt _ (by decide), rfl⟩
  unfold Uuid.toText at h
  rcases Str.mem_toList_intercalate h with hc | ⟨s, hs, hc⟩
  · left
    simpa using hc
  · right
    simp only [List.mem_cons, List.not_mem_nil, or_false] at hs
    rcases hs with hs | hs | hs | hs | hs <;>
    · rw [hs] at hc
      exact hgroup _ _ hc

theorem Uuid.isVisible_toText (u : Uuid) : IsVisible u.toText := by
  intro c hc
  rcases mem_toList_toText hc with rfl | ⟨n, hn, rfl⟩
  · decide
  · exact .inl (isVisible_digitChar n hn)

/-- Reading a stamped header gives the text of the first header of that name, if it is visible. -/
theorem headerText_stampedHeaders {texts : List (String × String)} {name : String}
    (hvalid : ∀ t ∈ texts, (HeaderValue.fromStr t.2).isSome = true) :
    headerText (stampedHeaders texts) name =
      (texts.find? fun t => t.1 = name).bind fun t => if IsVisible t.2 then some t.2 else none := by
  induction texts with
  | nil => rfl
  | cons text rest ih =>
    obtain ⟨value, hvalue⟩ := Option.isSome_iff_exists.mp (hvalid text List.mem_cons_self)
    have hrest := ih fun t ht => hvalid t (List.mem_cons_of_mem _ ht)
    have hcons : stampedHeaders (text :: rest) = (text.1, value) :: stampedHeaders rest := by
      rw [stampedHeaders, List.filterMap_cons, hvalue]
      rfl
    unfold headerText HeaderMap.get at hrest ⊢
    rw [hcons]
    by_cases hname : text.1 = name
    · simp [hname, HeaderValue.toStr_fromStr hvalue]
    · simp only [List.find?_cons_of_neg, hname, decide_false, Bool.false_eq_true,
        not_false_eq_true]
      exact hrest

theorem headerText_append_of_forall_ne {front back : HeaderMap} {name : String}
    (h : ∀ x ∈ front, x.1 ≠ name) : headerText (front ++ back) name = headerText back name := by
  have hfront : front.find? (fun x => x.1 = name) = none := by
    rw [List.find?_eq_none]
    intro x hx
    simpa using h x hx
  unfold headerText HeaderMap.get
  rw [List.find?_append, hfront, Option.none_or]

/-- Every name that the gateway can stamp is read from what it stamped. -/
theorem headerText_built {inbound : HeaderMap} {texts : List (String × String)} (name : String)
    (hname : name ∈ gatewayNames)
    (hvalid : ∀ t ∈ texts, (HeaderValue.fromStr t.2).isSome = true) :
    headerText (sanitizeForwardHeaders inbound (connectionHeaderTokens inbound) ++
        stampedHeaders texts) name =
      (texts.find? fun t => t.1 = name).bind fun t => if IsVisible t.2 then some t.2 else none := by
  rw [headerText_append_of_forall_ne, headerText_stampedHeaders hvalid]
  rintro x hx rfl
  have hlower : ∀ name ∈ gatewayNames, Str.toAsciiLowercase name = name := by decide
  have howned := (shouldForwardHeader_iff (hlower x.1 hname)).mp (List.mem_filter.mp hx).2
  rw [(gatewayNames_owned x.1 hname).1] at howned
  exact absurd howned.1 nofun

/-! ### No forged headers -/

theorem mem_gatewayNames_of_mem_stampedHeaders {attestation : ForwardAttestation}
    {bases : ForwardedExternalBases} {correlationId : Uuid} {h : String × HeaderValue}
    (hh : h ∈ stampedHeaders (gatewayHeaders attestation bases correlationId)) :
    h.1 ∈ gatewayNames := by
  obtain ⟨text, htext, hvalue⟩ := List.mem_filterMap.mp hh
  obtain ⟨value, -, rfl⟩ := Option.map_eq_some_iff.mp hvalue
  exact (gatewayHeaders_names_sublist attestation bases correlationId).subset
    (List.mem_map_of_mem htext)

section Built

variable {inbound : HeaderMap} {attestation : ForwardAttestation} {bases : ForwardedExternalBases}
  {correlationId : Uuid}

/-- The gateway's part of a built request is what it stamped. -/
theorem filter_owned_built (hlower : inbound.LowerCase) :
    (sanitizeForwardHeaders inbound (connectionHeaderTokens inbound) ++
        stampedHeaders (gatewayHeaders attestation bases correlationId)).filter
      (fun h => isGatewayOwned h.1) =
      stampedHeaders (gatewayHeaders attestation bases correlationId) := by
  rw [List.filter_append, List.filter_eq_nil_iff.mpr, List.nil_append, List.filter_eq_self.mpr]
  · intro h hh
    exact (gatewayNames_owned h.1 (mem_gatewayNames_of_mem_stampedHeaders hh)).1
  · intro h hh
    rw [sanitizeForwardHeaders_eq hlower] at hh
    have hcopied := of_decide_eq_true (List.mem_filter.mp hh).2
    rw [hcopied.1]
    nofun

/-- The rest of it is what was copied. -/
theorem filter_not_owned_built (hlower : inbound.LowerCase) :
    (sanitizeForwardHeaders inbound (connectionHeaderTokens inbound) ++
        stampedHeaders (gatewayHeaders attestation bases correlationId)).filter
      (fun h => !isGatewayOwned h.1) =
      sanitizeForwardHeaders inbound (connectionHeaderTokens inbound) := by
  rw [List.filter_append, List.filter_eq_self.mpr, List.filter_eq_nil_iff.mpr, List.append_nil]
  · intro h hh
    rw [(gatewayNames_owned h.1 (mem_gatewayNames_of_mem_stampedHeaders hh)).1]
    nofun
  · intro h hh
    rw [sanitizeForwardHeaders_eq hlower] at hh
    have hcopied := of_decide_eq_true (List.mem_filter.mp hh).2
    rw [hcopied.1]
    rfl

/-- A built request is forwarded from the inbound one. -/
theorem forwardedFrom_built (hlower : inbound.LowerCase)
    (hvalid : ∀ t ∈ gatewayHeaders attestation bases correlationId,
      (HeaderValue.fromStr t.2).isSome = true) :
    ForwardedFrom inbound correlationId
      (sanitizeForwardHeaders inbound (connectionHeaderTokens inbound) ++
        stampedHeaders (gatewayHeaders attestation bases correlationId)) where
  once := by
    rw [filter_owned_built hlower, stampedHeaders_names hvalid]
    exact gatewayNames_nodup.sublist (gatewayHeaders_names_sublist _ _ _)
  correlation := by
    rw [headerText_built _ (by decide) hvalid]
    simp [gatewayHeaders, RENDER_CAPABILITIES_HEADER, Uuid.isVisible_toText]
  never := by
    intro h hh
    -- an owned name is stamped once, and nothing else is copied or stamped
    rcases List.mem_append.mp hh with hh | hh
    · rw [sanitizeForwardHeaders_eq hlower] at hh
      exact (of_decide_eq_true (List.mem_filter.mp hh).2).2.1
    · exact (gatewayNames_owned h.1 (mem_gatewayNames_of_mem_stampedHeaders hh)).2
  nominated := by
    intro h hh hnominated
    rcases List.mem_append.mp hh with hh | hh
    · rw [sanitizeForwardHeaders_eq hlower] at hh
      exact absurd hnominated (of_decide_eq_true (List.mem_filter.mp hh).2).2.2
    · exact (gatewayNames_owned h.1 (mem_gatewayNames_of_mem_stampedHeaders hh)).1
  copied := by
    rw [filter_not_owned_built hlower, sanitizeForwardHeaders_eq hlower]

end Built

/-- What the gateway stamps besides the correlation id does not depend on it. -/
theorem filter_stampedHeaders_gatewayHeaders (attestation : ForwardAttestation)
    (bases : ForwardedExternalBases) (id₁ id₂ : Uuid) :
    (stampedHeaders (gatewayHeaders attestation bases id₁)).filter
        (fun h => h.1 ≠ "boardwalk-correlation-id") =
      (stampedHeaders (gatewayHeaders attestation bases id₂)).filter
        (fun h => h.1 ≠ "boardwalk-correlation-id") := by
  -- the correlation id is a header of its own
  have hcorrelation : ∀ id : Uuid, (stampedHeaders [("boardwalk-correlation-id", id.toText)]).filter
      (fun h => h.1 ≠ "boardwalk-correlation-id") = [] := by
    intro id
    rw [List.filter_eq_nil_iff]
    intro h hh
    obtain ⟨text, htext, hvalue⟩ := List.mem_filterMap.mp hh
    obtain ⟨value, -, rfl⟩ := Option.map_eq_some_iff.mp hvalue
    simp [List.mem_singleton.mp htext]
  have hsplit : ∀ id : Uuid, gatewayHeaders attestation bases id =
      [("x-forwarded-host", bases.host), ("x-forwarded-proto", bases.scheme),
        ("boardwalk-external-base", bases.http), ("boardwalk-external-ws-base", bases.ws),
        ("boardwalk-forwarded-by", attestation.gatewayName),
        (RENDER_CAPABILITIES_HEADER, attestation.renderCapabilities.toText)] ++
      ([("boardwalk-correlation-id", id.toText)] ++
        (attestation.caller.map callerHeaders).getD []) := fun _ => rfl
  have hstamp : ∀ l l' : List (String × String),
      stampedHeaders (l ++ l') = stampedHeaders l ++ stampedHeaders l' :=
    fun l l' => List.filterMap_append
  rw [hsplit id₁, hsplit id₂, hstamp, hstamp, hstamp, hstamp, List.filter_append,
    List.filter_append, List.filter_append, List.filter_append, hcorrelation, hcorrelation]

/-- **Forwarded headers cannot be forged.**  Two requests with the same host, forwarded under the
same attestation, carry the same gateway headers up to the fresh correlation id, each of them once.
No name that is never forwarded is there, a name that `Connection` nominates is there only as a
header of the gateway's own, and everything else of the inbound request is copied as it is. -/
theorem forwarded_headers_not_forged {β : Type} (ops : HttpOps) (attestation : ForwardAttestation)
    (targetName method : String) (uri : Uri) (body : β) (inbound₁ inbound₂ : HeaderMap)
    (id₁ id₂ : Uuid) (req₁ req₂ : HttpRequest β) (hlower₁ : inbound₁.LowerCase)
    (hlower₂ : inbound₂.LowerCase) (hhost : inbound₁.get HOST = inbound₂.get HOST)
    (h₁ : buildPeerForwardRequest ops attestation targetName method uri inbound₁ body id₁ =
      .ok req₁)
    (h₂ : buildPeerForwardRequest ops attestation targetName method uri inbound₂ body id₂ =
      .ok req₂) :
    ((req₁.headers.filter fun h => isGatewayOwned h.1).filter
        fun h => h.1 ≠ "boardwalk-correlation-id") =
      ((req₂.headers.filter fun h => isGatewayOwned h.1).filter
        fun h => h.1 ≠ "boardwalk-correlation-id") ∧
    ForwardedFrom inbound₁ id₁ req₁.headers ∧ ForwardedFrom inbound₂ id₂ req₂.headers := by
  -- both builds come down to copied headers and stamped ones
  obtain ⟨hout₁, hvalid₁⟩ := buildPeerForwardRequest_headers h₁
  obtain ⟨hout₂, hvalid₂⟩ := buildPeerForwardRequest_headers h₂
  -- the bases read nothing of the headers but `host`
  have hbases : forwardedExternalBases inbound₁ uri targetName =
      forwardedExternalBases inbound₂ uri targetName := by
    unfold forwardedExternalBases
    rw [hhost]
  rw [hout₁, hout₂]
  refine ⟨?_, forwardedFrom_built hlower₁ hvalid₁, forwardedFrom_built hlower₂ hvalid₂⟩
  rw [filter_owned_built hlower₁, filter_owned_built hlower₂, hbases]
  exact filter_stampedHeaders_gatewayHeaders attestation _ id₁ id₂

/-- A gateway that attests no caller. -/
def anonymousAttestation : ForwardAttestation := ⟨"gw", .resourceRead, none⟩

def resourcesUri : Uri := ⟨none, some "/servers/hub/resources", "/servers/hub/resources"⟩

/-- The headers of a request that claims to be forwarded already. -/
def forgedHeaders : HeaderMap :=
  [("host", ⟨"gw.example".toUTF8.data.toList, by decide⟩),
    ("boardwalk-forwarded-by", ⟨"evil".toUTF8.data.toList, by decide⟩),
    ("accept", ⟨"*/*".toUTF8.data.toList, by decide⟩)]

/-- The forged header is not among those of the built request. -/
theorem forwarded_headers_not_forged_example :
    ∃ req₁ req₂,
      buildPeerForwardRequest lenientOps anonymousAttestation "hub" "GET" resourcesUri
          forgedHeaders () 1 = .ok req₁ ∧
        buildPeerForwardRequest lenientOps anonymousAttestation "hub" "GET" resourcesUri
          (forgedHeaders.take 1) () 2 = .ok req₂ ∧
        ((req₁.headers.filter fun h => isGatewayOwned h.1).filter
            fun h => h.1 ≠ "boardwalk-correlation-id") =
          ((req₂.headers.filter fun h => isGatewayOwned h.1).filter
            fun h => h.1 ≠ "boardwalk-correlation-id") :=
  have hlower : forgedHeaders.LowerCase := by unfold HeaderMap.LowerCase; decide
  have hlower' : HeaderMap.LowerCase (forgedHeaders.take 1) := by
    unfold HeaderMap.LowerCase; decide
  ⟨_, _, rfl, rfl, (forwarded_headers_not_forged lenientOps anonymousAttestation "hub" "GET"
    resourcesUri () forgedHeaders (forgedHeaders.take 1) 1 2 _ _ hlower hlower' rfl rfl rfl).1⟩

/-- A request whose `Connection` value nominates a header of the gateway's. -/
def nominatingHeaders : HeaderMap :=
  [("connection", ⟨"boardwalk-forwarded-by".toUTF8.data.toList, by decide⟩)]

/-- **A nominated name can be there**: the gateway stamps its own header all the same. -/
theorem nominated_header_present :
    ∃ req, buildPeerForwardRequest lenientOps anonymousAttestation "hub" "GET" resourcesUri
        nominatingHeaders () 1 = .ok req ∧
      ∃ h ∈ req.headers, Nominated nominatingHeaders h.1 :=
  ⟨_, rfl, ("boardwalk-forwarded-by", ⟨"gw".toUTF8.data.toList, by decide⟩),
    by decide, by decide⟩

end Boardwalk
