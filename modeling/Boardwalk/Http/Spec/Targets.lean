import Boardwalk.Http.Spec.Attestation
import Boardwalk.Http.Spec.SubscriptionUrl
import Boardwalk.Http.Targets
import Boardwalk.Lib.Ascii

/-!
# Which request targets are URIs

Every name that admission lets through is percent-encoded into the host of two targets.  A host must
not hold a percent sign, so a name that is admitted without a token breaks both of them unless its
bytes are unreserved; a route name always is.  Beyond that only the length decides, which encoding
can triple (`targets_parse_iff`).
-/

namespace Boardwalk

/-! ### URIs -/

/-- The characters of the targets. -/
def isTargetChar (c : Char) : Bool := Str.isEncodedChar c || "/?=&+*".toList.contains c

/-- A path, perhaps with a query. -/
def IsOriginForm (path : String) : Prop :=
  path.toList.head? = some '/' ∧ ∀ c ∈ path.toList, isTargetChar c = true

instance (path : String) : Decidable (IsOriginForm path) :=
  decidable_of_iff (path.toList.head? = some '/' ∧ path.toList.all isTargetChar = true)
    (and_congr_right fun _ => List.all_eq_true)

/-- What is known of `http::Uri`: no URI is longer than 65534 bytes or has a percent sign in its
host, and otherwise these texts are URIs. -/
structure HttpOps.TakesTargets (ops : HttpOps) : Prop where
  tooLong : ∀ text, 65534 < text.utf8ByteSize → ops.parsesUri text = false
  percentHost : ∀ host path, (∀ c ∈ host.toList, Str.isEncodedChar c = true) →
    '%' ∈ host.toList → IsOriginForm path → ops.parsesUri ("http://" ++ host ++ path) = false
  absolute : ∀ host path, host ≠ "" → (∀ c ∈ host.toList, Str.isEncodedChar c = true) →
    '%' ∉ host.toList → IsOriginForm path → ("http://" ++ host ++ path).utf8ByteSize ≤ 65534 →
    ops.parsesUri ("http://" ++ host ++ path) = true
  origin : ∀ path, IsOriginForm path → path.utf8ByteSize ≤ 65534 → ops.parsesUri path = true

section Uris

variable {ops : HttpOps} (hops : ops.TakesTargets) {host path : String}
include hops

/-- A url of encoded host and origin-form path parses exactly when the host has no percent sign and
it is short enough. -/
theorem parsesUri_absolute_iff (hne : host ≠ "")
    (hhost : ∀ c ∈ host.toList, Str.isEncodedChar c = true) (hpath : IsOriginForm path) :
    ops.parsesUri ("http://" ++ host ++ path) = true ↔
      '%' ∉ host.toList ∧ ("http://" ++ host ++ path).utf8ByteSize ≤ 65534 := by
  constructor
  · intro h
    refine ⟨fun hpercent => ?_, ?_⟩
    · rw [hops.percentHost host path hhost hpercent hpath] at h
      contradiction
    · by_contra hlong
      rw [hops.tooLong _ (by omega)] at h
      contradiction
  · rintro ⟨hpercent, hsize⟩
    exact hops.absolute host path hne hhost hpercent hpath hsize

theorem parsesUri_origin_iff (hpath : IsOriginForm path) :
    ops.parsesUri path = true ↔ path.utf8ByteSize ≤ 65534 := by
  refine ⟨fun h => ?_, hops.origin path hpath⟩
  by_contra hlong
  rw [hops.tooLong _ (by omega)] at h
  contradiction

end Uris

theorem isTargetChar_of_mem_percentEncode {s : String} {c : Char}
    (h : c ∈ (Str.percentEncode s).toList) : isTargetChar c = true := by
  rw [isTargetChar, Str.isEncodedChar_of_mem_percentEncode h, Bool.true_or]

theorem IsOriginForm.append {path rest : String} (h : IsOriginForm path)
    (hrest : ∀ c ∈ rest.toList, isTargetChar c = true) : IsOriginForm (path ++ rest) := by
  obtain ⟨hhead, hpath⟩ := h
  constructor
  · rw [String.toList_append, List.head?_append, hhead]
    rfl
  · intro c hc
    rw [String.toList_append, List.mem_append] at hc
    exact hc.elim (hpath c) (hrest c)

/-! ### Connection ids -/

theorem Uuid.isTargetChar_of_mem_toText {u : Uuid} {c : Char} (h : c ∈ u.toText.toList) :
    isTargetChar c = true := by
  have hdigit : ∀ n < 16, isTargetChar (Nat.digitChar n) = true := by decide
  rcases mem_toList_toText h with rfl | ⟨n, hn, rfl⟩
  · decide
  · exact hdigit n hn

/-- The text of a connection id has 36 bytes. -/
theorem Uuid.utf8ByteSize_toText (u : Uuid) : u.toText.utf8ByteSize = 36 := by
  -- a digit of the text is one byte
  have hsize : ∀ c ∈ u.hexDigits, c.utf8Size = 1 := by
    have hdigit : ∀ n < 16, (Nat.digitChar n).utf8Size = 1 := by decide
    intro c hc
    obtain ⟨i, -, rfl⟩ := List.mem_map.mp hc
    exact hdigit _ (Nat.mod_lt _ (by decide))
  have hlength : u.hexDigits.length = 32 := by rw [hexDigits, List.length_map, List.length_range]
  -- the five groups and the four dashes
  have hgroup : ∀ start len, start + len ≤ 32 →
      (String.ofList ((u.hexDigits.drop start).take len)).utf8ByteSize = len := by
    intro start len hlen
    have hone : ∀ c ∈ (u.hexDigits.drop start).take len, c.utf8Size = 1 := fun c hc =>
      hsize c (List.mem_of_mem_drop (List.mem_of_mem_take hc))
    rw [Str.utf8ByteSize_eq_sum, String.toList_ofList, List.map_congr_left hone, List.map_const',
      List.sum_replicate_nat, List.length_take, List.length_drop, hlength]
    omega
  have htext : u.toText = String.ofList ((u.hexDigits.drop 0).take 8) ++ "-" ++
      String.ofList ((u.hexDigits.drop 8).take 4) ++ "-" ++
      String.ofList ((u.hexDigits.drop 12).take 4) ++ "-" ++
      String.ofList ((u.hexDigits.drop 16).take 4) ++ "-" ++
      String.ofList ((u.hexDigits.drop 20).take 12) := rfl
  have hdash : "-".utf8ByteSize = 1 := by decide
  simp only [htext, String.utf8ByteSize_append, hdash, hgroup 0 8 (by decide),
    hgroup 8 4 (by decide), hgroup 12 4 (by decide), hgroup 16 4 (by decide),
    hgroup 20 12 (by decide)]

/-! ### Names -/

theorem RouteName.isUnreserved (name : RouteName) : Str.IsUnreserved name.asStr := by
  have hchar : ∀ n < 128, isRouteNameChar (Char.ofNat n) = true →
      Str.isUnreserved n.toUInt8 = true := by
    decide
  refine Str.isUnreserved_of_chars fun c hc => ?_
  have hc := List.all_eq_true.mp name.valid.2 c hc
  have hlt : c.toNat < 128 := by
    have := (toNat_of_isRouteNameChar hc).2
    omega
  refine ⟨hlt, hchar c.toNat hlt ?_⟩
  rwa [Char.ofNat_toNat]

/-- Under token admission the name is the route name of a configuration. -/
theorem isUnreserved_of_tokens {peerName : String} {connectionId : Uuid} {headers : HeaderMap}
    {admissions : List PeerAdmissionConfig} {unauthenticated : Option UnauthenticatedPeerPolicy}
    {admitted : AdmittedPeerConnection} (hne : admissions ≠ [])
    (h : admitPeerConnection peerName connectionId headers admissions unauthenticated =
      .ok admitted) : Str.IsUnreserved peerName := by
  obtain ⟨tokenId, secret, nodeId, raw, config, requested, hadmits, -⟩ :=
    (admitPeerConnection_eq_ok_iff hne).mp h
  obtain ⟨l₁, l₂, -, hmatches, -⟩ := hadmits.first
  rw [← hmatches.2]
  exact config.allowedRouteName.isUnreserved

/-- An admitted connection is routed under the name it asked for. -/
theorem admitted_routeName {peerName : String} {connectionId : Uuid} {headers : HeaderMap}
    {admissions : List PeerAdmissionConfig} {unauthenticated : Option UnauthenticatedPeerPolicy}
    {admitted : AdmittedPeerConnection}
    (h : admitPeerConnection peerName connectionId headers admissions unauthenticated =
      .ok admitted) : admitted.routeName = peerName := by
  by_cases hne : admissions = []
  · subst hne
    unfold admitPeerConnection at h
    cases unauthenticated with
    | none => cases h
    | some policy =>
      cases h
      rfl
  · obtain ⟨tokenId, secret, nodeId, raw, config, requested, -, rfl⟩ :=
      (admitPeerConnection_eq_ok_iff hne).mp h
    rfl

/-! ### The host of a peer -/

theorem isEncodedChar_of_mem_tunnelHost {peerName : String} {c : Char}
    (h : c ∈ (tunnelHost peerName).toList) : Str.isEncodedChar c = true := by
  unfold tunnelHost at h
  rw [String.toList_append, List.mem_append] at h
  rcases h with h | h
  · exact Str.isEncodedChar_of_mem_percentEncode h
  · exact List.all_eq_true.mp (by decide) c h

theorem percent_mem_tunnelHost_iff {peerName : String} :
    '%' ∈ (tunnelHost peerName).toList ↔ ¬ Str.IsUnreserved peerName := by
  unfold tunnelHost
  rw [String.toList_append, List.mem_append, Str.percent_mem_percentEncode_iff,
    or_iff_left (by decide)]

theorem utf8ByteSize_tunnelHost (peerName : String) :
    (tunnelHost peerName).utf8ByteSize = Str.encodedSize peerName + 23 := by
  unfold tunnelHost
  rw [String.utf8ByteSize_append, Str.utf8ByteSize_percentEncode]
  congr 1

/-! ### The targets -/

/-- A byte that `form_urlencoded` writes as one character. -/
def isFormByte (b : UInt8) : Bool := b == 32 || b == 42 || (Str.isUnreserved b && b != 126)

/-- The size of a form-encoded text. -/
def formSize (s : String) : ℕ := ((Str.asBytes s).map fun b => if isFormByte b then 1 else 3).sum

/-- What is known of the form encoding of one pair. -/
structure AppendPair.Encodes (appendPair : AppendPair) : Prop where
  chars : ∀ key value, ∀ c ∈ (appendPair key value).toList, isTargetChar c = true
  size : ∀ key value,
    (appendPair key value).utf8ByteSize = formSize key + 1 + formSize value

section Targets

variable {ops : HttpOps} (hops : ops.TakesTargets)
include hops

/-- A request to a path of a peer. -/
theorem isSome_tunnelGet_iff {peerName path : String} (hpath : IsOriginForm path) :
    (expectGet ops ("http://" ++ tunnelHost peerName ++ path)).isSome = true ↔
      Str.IsUnreserved peerName ∧ peerName.utf8ByteSize + 30 + path.utf8ByteSize ≤ 65534 := by
  have hne : tunnelHost peerName ≠ "" := by
    intro h
    have := congrArg String.utf8ByteSize h
    rw [utf8ByteSize_tunnelHost] at this
    exact absurd this (Nat.succ_ne_zero _)
  have hget : ∀ target, (expectGet ops target).isSome = ops.parsesUri target := by
    intro target
    unfold expectGet
    cases ops.parsesUri target <;> rfl
  have hscheme : "http://".utf8ByteSize = 7 := by decide
  rw [hget, parsesUri_absolute_iff hops hne (fun c => isEncodedChar_of_mem_tunnelHost) hpath,
    percent_mem_tunnelHost_iff, not_not]
  refine and_congr_right fun hname => ?_
  rw [String.utf8ByteSize_append, String.utf8ByteSize_append, utf8ByteSize_tunnelHost, hscheme,
    Str.encodedSize_of_isUnreserved hname]
  omega

theorem isSome_confirmationRequest_iff {peerName : String} {connectionId : Uuid} :
    (confirmationRequest ops peerName connectionId).isSome = true ↔
      Str.IsUnreserved peerName ∧ peerName.utf8ByteSize + 82 ≤ 65534 := by
  have hpath : IsOriginForm ("/_initiate_peer/" ++ connectionId.toText) :=
    IsOriginForm.append (by decide) fun c => Uuid.isTargetChar_of_mem_toText
  have hsize : "/_initiate_peer/".utf8ByteSize = 16 := by decide
  unfold confirmationRequest
  rw [String.append_assoc, isSome_tunnelGet_iff hops hpath, String.utf8ByteSize_append, hsize,
    Uuid.utf8ByteSize_toText]

/-- A stream request can be built exactly when the peer's name is unreserved and the url short
enough. -/
theorem isSome_streamRequest_iff {peer topic : String} :
    (streamRequest ops peer topic).isSome = true ↔
      Str.IsUnreserved peer ∧
        2 * peer.utf8ByteSize + 53 + Str.encodedSize topic ≤ 65534 := by
  -- every part is of target characters, so it parses as an origin form
  have hpath : IsOriginForm ("/servers/" ++ Str.percentEncode peer ++ "/events?topic=" ++
      Str.percentEncode topic) := by
    refine IsOriginForm.append (IsOriginForm.append (IsOriginForm.append (by decide) ?_) ?_) ?_
    · exact fun c => isTargetChar_of_mem_percentEncode
    · exact List.all_eq_true.mp (by decide)
    · exact fun c => isTargetChar_of_mem_percentEncode
  have hservers : "/servers/".utf8ByteSize = 9 := by decide
  have hevents : "/events?topic=".utf8ByteSize = 14 := by decide
  -- the host and the path are what `tunnelGet` is made of
  have htarget : "http://" ++ tunnelHost peer ++ "/servers/" ++ Str.percentEncode peer ++
      "/events?topic=" ++ Str.percentEncode topic = "http://" ++ tunnelHost peer ++
        ("/servers/" ++ Str.percentEncode peer ++ "/events?topic=" ++ Str.percentEncode topic) := by
    simp only [String.append_assoc]
  unfold streamRequest
  rw [htarget, isSome_tunnelGet_iff hops hpath]
  refine and_congr_right fun hname => ?_
  simp only [String.utf8ByteSize_append, Str.utf8ByteSize_percentEncode, hservers, hevents,
    Str.encodedSize_of_isUnreserved hname]
  omega

/-- A peer query can be built exactly when its url is short enough. -/
theorem isSome_peerServerQueryUri_iff {appendPair : AppendPair} (hpair : appendPair.Encodes)
    {peer : String} {ql : Option String} :
    (peerServerQueryUri ops appendPair peer ql).isSome = true ↔
      Str.encodedSize peer + 9 + (ql.elim 0 fun ql => 4 + formSize ql) ≤ 65534 := by
  -- the query is encoded like the path
  have hsuffix : ∀ c ∈ (qlSuffix appendPair ql).toList, isTargetChar c = true := by
    intro c hc
    cases ql with
    | none => cases hc
    | some ql =>
      rw [qlSuffix, String.toList_append, List.mem_append] at hc
      rcases hc with hc | hc
      · exact List.all_eq_true.mp (by decide) c hc
      · exact hpair.chars _ _ c hc
  -- `?ql=` is four bytes
  have hsize : (qlSuffix appendPair ql).utf8ByteSize = ql.elim 0 fun ql => 4 + formSize ql := by
    cases ql with
    | none => rfl
    | some ql =>
      have hmark : "?".utf8ByteSize = 1 := by decide
      have hkey : formSize "ql" = 2 := by decide
      rw [qlSuffix, String.utf8ByteSize_append, hpair.size, hmark, hkey, Option.elim_some]
      omega
  have hpath : IsOriginForm ("/servers/" ++ Str.percentEncode peer ++ qlSuffix appendPair ql) :=
    IsOriginForm.append
      (IsOriginForm.append (by decide) fun c => isTargetChar_of_mem_percentEncode) hsuffix
  have hservers : "/servers/".utf8ByteSize = 9 := by decide
  -- the uri parses exactly if it is short enough
  have hparsed : (peerServerQueryUri ops appendPair peer ql).isSome =
      ops.parsesUri ("/servers/" ++ Str.percentEncode peer ++ qlSuffix appendPair ql) := by
    unfold peerServerQueryUri
    cases h : ops.parsesUri ("/servers/" ++ Str.percentEncode peer ++ qlSuffix appendPair ql) <;>
      simp [h]
  rw [hparsed, parsesUri_origin_iff hops hpath, String.utf8ByteSize_append,
    String.utf8ByteSize_append, Str.utf8ByteSize_percentEncode, hservers, hsize,
    Nat.add_comm 9]

end Targets

/-- None of the parses fails for an admitted peer, a topic and the values of a query. -/
structure TargetsParse (ops : HttpOps) (appendPair : AppendPair)
    (admitted : AdmittedPeerConnection) (topic : String) (server ql : Option String) : Prop where
  confirmation :
    (confirmationRequest ops admitted.routeName admitted.connectionId).isSome = true
  stream : (streamRequest ops admitted.routeName topic).isSome = true
  query : ∀ peer, queryScopeFromServer server = .peer peer →
    (peerServerQueryUri ops appendPair peer ql).isSome = true

/-- A name that was admitted without a token is kept by percent-encoding, and what the targets are
assembled from is short enough. -/
structure TargetsFit (admissions : List PeerAdmissionConfig) (peerName topic : String)
    (server ql : Option String) : Prop where
  name : admissions = [] → Str.IsUnreserved peerName
  confirmation : peerName.utf8ByteSize + 82 ≤ 65534
  stream : 2 * peerName.utf8ByteSize + 53 + Str.encodedSize topic ≤ 65534
  query : ∀ peer, queryScopeFromServer server = .peer peer →
    Str.encodedSize peer + 9 + (ql.elim 0 fun ql => 4 + formSize ql) ≤ 65534

/-- **The targets are URIs** exactly when what they are assembled from fits. -/
theorem targets_parse_iff (ops : HttpOps) (hops : ops.TakesTargets) (appendPair : AppendPair)
    (hpair : appendPair.Encodes) (peerName : String) (connectionId : Uuid) (headers : HeaderMap)
    (admissions : List PeerAdmissionConfig) (unauthenticated : Option UnauthenticatedPeerPolicy)
    (admitted : AdmittedPeerConnection)
    (hadmitted : admitPeerConnection peerName connectionId headers admissions unauthenticated =
      .ok admitted) (topic : String) (server ql : Option String) :
    TargetsParse ops appendPair admitted topic server ql ↔
      TargetsFit admissions peerName topic server ql := by
  have hroute := admitted_routeName hadmitted
  -- each target is one of the three lengths
  constructor
  · rintro ⟨hconfirmation, hstream, hquery⟩
    rw [isSome_confirmationRequest_iff hops, hroute] at hconfirmation
    rw [isSome_streamRequest_iff hops, hroute] at hstream
    exact ⟨fun _ => hconfirmation.1, hconfirmation.2, hstream.2, fun peer hpeer =>
      (isSome_peerServerQueryUri_iff hops hpair).mp (hquery peer hpeer)⟩
  · rintro ⟨hname, hconfirmation, hstream, hquery⟩
    -- an admitted name is of token characters, or the target check says so
    have hname : Str.IsUnreserved peerName := by
      by_cases hne : admissions = []
      · exact hname hne
      · exact isUnreserved_of_tokens hne hadmitted
    refine ⟨(isSome_confirmationRequest_iff hops).mpr ?_, (isSome_streamRequest_iff hops).mpr ?_,
      fun peer hpeer => (isSome_peerServerQueryUri_iff hops hpair).mpr (hquery peer hpeer)⟩
    · rw [hroute]
      exact ⟨hname, hconfirmation⟩
    · rw [hroute]
      exact ⟨hname, hstream⟩

/-! ### A hub that serves its peers -/

/-- A URI is a path, or `http` with a host of unreserved characters and a path. -/
def isUriText (text : String) : Bool :=
  decide (text.utf8ByteSize ≤ 65534) &&
    (decide (IsOriginForm text) ||
      match Str.stripPrefix "http://" text with
      | some rest =>
        let host := rest.toList.takeWhile (· ≠ '/')
        !host.isEmpty && (host.all fun c => Str.isEncodedChar c && c != '%') &&
          decide (IsOriginForm (.ofList (rest.toList.dropWhile (· ≠ '/'))))
      | none => false)

def uriTexts : HttpOps := ⟨isUriText, fun _ _ => true⟩

/-- For the concrete parser, the same condition decides an http url. -/
theorem isUriText_http {host path : String} (hhost : ∀ c ∈ host.toList, Str.isEncodedChar c = true)
    (hpath : IsOriginForm path) : isUriText ("http://" ++ host ++ path) =
      (decide (("http://" ++ host ++ path).utf8ByteSize ≤ 65534) &&
        (!host.toList.isEmpty && host.toList.all fun c => Str.isEncodedChar c && c != '%')) := by
  obtain ⟨rest, hrest⟩ : ∃ rest, path.toList = '/' :: rest := List.head?_eq_some_iff.mp hpath.1
  have hne : ∀ c ∈ host.toList, c ≠ '/' := by
    rintro c hc rfl
    exact absurd (hhost _ hc) (by decide)
  -- the text begins with a letter, and its host ends where the path begins
  have horigin : ¬ IsOriginForm ("http://" ++ host ++ path) := by
    rintro ⟨hhead, -⟩
    rw [String.append_assoc, String.toList_append] at hhead
    exact absurd hhead (by simp)
  have hstrip : Str.stripPrefix "http://" ("http://" ++ host ++ path) = some (host ++ path) :=
    Str.stripPrefix_eq_some_iff.mpr (String.append_assoc ..)
  have htake : (host ++ path).toList.takeWhile (· ≠ '/') = host.toList := by
    rw [String.toList_append, hrest, List.takeWhile_append_of_pos (by simpa using hne)]
    simp
  have hdrop : (host ++ path).toList.dropWhile (· ≠ '/') = path.toList := by
    rw [String.toList_append, hrest, List.dropWhile_append_of_pos (by simpa using hne)]
    simp
  unfold isUriText
  simp only [horigin, hstrip, htake, hdrop, String.ofList_toList, hpath, decide_false,
    Bool.false_or, decide_true, Bool.and_true]

/-- The concrete parser takes the targets the model asks for. -/
theorem takesTargets_uriTexts : uriTexts.TakesTargets where
  tooLong text hlong := by
    show isUriText text = false
    rw [isUriText, decide_eq_false (by omega), Bool.false_and]
  -- a percent sign in the host is refused
  percentHost host path hhost hpercent hpath := by
    show isUriText _ = false
    have hall : (host.toList.all fun c => Str.isEncodedChar c && c != '%') = false :=
      List.all_eq_false.mpr ⟨'%', hpercent, by decide⟩
    rw [isUriText_http hhost hpath, hall, Bool.and_false, Bool.and_false]
  -- any other host of encoded characters is taken
  absolute host path hne hhost hpercent hpath hsize := by
    show isUriText _ = true
    have hall : (host.toList.all fun c => Str.isEncodedChar c && c != '%') = true := by
      refine List.all_eq_true.mpr fun c hc => ?_
      rw [hhost c hc, Bool.true_and, bne_iff_ne]
      rintro rfl
      exact hpercent hc
    have hempty : host.toList.isEmpty = false := by
      rw [List.isEmpty_eq_false_iff]
      exact fun h => hne (String.toList_eq_nil_iff.mp h)
    rw [isUriText_http hhost hpath, hall, hempty, decide_eq_true hsize]
    rfl
  origin path hpath hsize := by
    show isUriText path = true
    rw [isUriText, decide_eq_true hsize, decide_eq_true hpath]
    rfl

def formPair : AppendPair := fun key value => formSerialize [(key, value)]

/-- What a byte is encoded as. -/
theorem formByte_all_sum (b : UInt8) : (formByte b).all isTargetChar = true ∧
    ((formByte b).map Char.utf8Size).sum = if isFormByte b then 1 else 3 := by
  revert b
  exact Str.forall_byte (by decide +kernel)

theorem isTargetChar_of_mem_formText {s : String} {c : Char} (h : c ∈ (formText s).toList) :
    isTargetChar c = true := by
  rw [formText, String.toList_ofList, List.mem_flatMap] at h
  obtain ⟨b, -, hc⟩ := h
  exact List.all_eq_true.mp (formByte_all_sum b).1 c hc

theorem utf8ByteSize_formText (s : String) : (formText s).utf8ByteSize = formSize s := by
  rw [formText, Str.utf8ByteSize_flatMap]
  exact congrArg List.sum (List.map_congr_left fun b _ => (formByte_all_sum b).2)

/-- The concrete form writer encodes as the model asks for. -/
theorem encodes_formPair : formPair.Encodes := by
  have hpair : ∀ key value, formPair key value = formText key ++ "=" ++ formText value :=
    fun _ _ => rfl
  constructor
  · intro key value c hc
    rw [hpair, String.toList_append, String.toList_append, List.mem_append, List.mem_append] at hc
    rcases hc with (hc | hc) | hc
    · exact isTargetChar_of_mem_formText hc
    · exact List.all_eq_true.mp (by decide) c hc
    · exact isTargetChar_of_mem_formText hc
  · intro key value
    rw [hpair, String.utf8ByteSize_append, String.utf8ByteSize_append, utf8ByteSize_formText,
      utf8ByteSize_formText]
    rfl

/-- For a plain peer name every target parses. -/
theorem targets_parse_hub : ∃ admitted,
    admitPeerConnection "hub-1" 1 [] [] (some .localDevelopment) = .ok admitted ∧
      TargetsParse uriTexts formPair admitted "hub-1/led/l1/state" (some " hub-1 ")
        (some "where kind = \"led\"") := by
  have hname : Str.IsUnreserved "hub-1" := List.all_eq_true.mp (by decide)
  refine ⟨.unauthenticated "hub-1" 1 .all, rfl, ?_⟩
  refine (targets_parse_iff uriTexts takesTargets_uriTexts formPair encodes_formPair "hub-1" 1 [] []
    (some .localDevelopment) _ rfl "hub-1/led/l1/state" (some " hub-1 ")
    (some "where kind = \"led\"")).mpr ⟨fun _ => hname, by decide, by decide, ?_⟩
  rintro peer hpeer
  have hscope : queryScopeFromServer (some " hub-1 ") = .peer "hub-1" := by decide
  cases hscope.symm.trans hpeer
  decide

/-- A query of tildes, each of which is three bytes in the target. -/
def tildes (n : ℕ) : String := String.ofList (List.replicate n '~')

theorem formSize_tildes (n : ℕ) : formSize (tildes n) = n * 3 := by
  have htilde : String.utf8EncodeChar '~' = [126] := by decide
  have hbytes : Str.asBytes (tildes n) = List.replicate n 126 := by
    rw [Str.asBytes, Str.toUTF8_toList, tildes, String.toList_ofList, List.flatMap_replicate,
      htilde, List.flatten_replicate_singleton]
  rw [formSize, hbytes, List.map_replicate, List.sum_replicate_nat]
  rfl

/-- A name with a space that is admitted without a token, and a long query. -/
theorem targets_panic :
    (∃ admitted, admitPeerConnection "my hub" 1 [] [] (some .localDevelopment) = .ok admitted ∧
      confirmationRequest uriTexts admitted.routeName admitted.connectionId = none ∧
      streamRequest uriTexts admitted.routeName "my hub/led/l1/state" = none) ∧
    peerServerQueryUri uriTexts formPair "hub" (some (tildes 21840)) = none := by
  have hname : ¬ Str.IsUnreserved "my hub" := by decide
  refine ⟨⟨.unauthenticated "my hub" 1 .all, rfl, ?_, ?_⟩, ?_⟩
  · rw [← Option.not_isSome_iff_eq_none, isSome_confirmationRequest_iff takesTargets_uriTexts]
    exact fun h => hname h.1
  · rw [← Option.not_isSome_iff_eq_none, isSome_streamRequest_iff takesTargets_uriTexts]
    exact fun h => hname h.1
  · rw [← Option.not_isSome_iff_eq_none,
      isSome_peerServerQueryUri_iff takesTargets_uriTexts encodes_formPair, Option.elim_some,
      formSize_tildes]
    decide

end Boardwalk
