import Boardwalk.Http.Spec.Routes
import Boardwalk.Http.Spec.Targets
import Boardwalk.Server.Spec.Registrar
import Boardwalk.Tunnel.Handshake

/-!
# When a handshake links

The gateway reads the headers of a dial after HTTP has cut the blanks at the ends of their values,
and only where they are visible.  `MeetsAdmission` says what it then asks of the configuration of a
link: in particular the token's secret keeps the blanks before it, which stand inside of the value,
and loses those after it.  The handler of the gateway gets a connection exactly when
the link meets an admission and nothing else stands in the way, and then, and only then, does the
initiator see the tunnel as open (`handshake_links_iff`).
-/

namespace Boardwalk

/-! ### Blanks at the ends of a value -/

namespace Str

def isBlank (c : Char) : Bool := c == ' ' || c == '\t'

/-- The text without the blanks at its ends. -/
def trimBlanks (s : String) : String :=
  String.ofList ((s.toList.dropWhile isBlank).rdropWhile isBlank)

/-- The text without the blanks after it. -/
def trimBlankEnd (s : String) : String := String.ofList (s.toList.rdropWhile isBlank)

/-- Of the visible characters only the blanks are white space. -/
theorem isWhitespace_iff_isBlank {c : Char} (h : (32 ≤ c.toNat ∧ c.toNat < 127) ∨ c.toNat = 9) :
    isWhitespace c = true ↔ isBlank c = true := by
  have hspace : (c = ' ') ↔ c.toNat = 32 := by
    rw [← Char.toNat_inj]
    rfl
  have htab : (c = '\t') ↔ c.toNat = 9 := by
    rw [← Char.toNat_inj]
    rfl
  simp only [isWhitespace, isBlank, Bool.or_eq_true, Bool.and_eq_true, decide_eq_true_eq,
    beq_iff_eq, hspace, htab]
  omega

theorem mem_of_mem_trimBlankEnd {s : String} {c : Char} (h : c ∈ (trimBlankEnd s).toList) :
    c ∈ s.toList := by
  rw [trimBlankEnd, String.toList_ofList] at h
  exact (List.rdropWhile_prefix isBlank _).subset h

/-- What is left ends in a character that is no blank, so it is white space only if it is empty. -/
theorem trim_trimBlankEnd_eq_empty_iff {s : String} (h : IsVisible s) :
    trim (trimBlankEnd s) = "" ↔ trimBlankEnd s = "" := by
  refine ⟨fun hall => ?_, fun hempty => by rw [hempty]; rfl⟩
  by_contra hne
  have hlist : s.toList.rdropWhile isBlank ≠ [] := by
    intro hnil
    apply hne
    rw [trimBlankEnd, hnil]
  have hlast := List.rdropWhile_last_not isBlank s.toList hlist
  have hmem : (s.toList.rdropWhile isBlank).getLast hlist ∈ (trimBlankEnd s).toList := by
    rw [trimBlankEnd, String.toList_ofList]
    exact List.getLast_mem hlist
  have hwhite := trim_eq_empty_iff.mp hall _ hmem
  exact hlast ((isWhitespace_iff_isBlank (h _ (mem_of_mem_trimBlankEnd hmem))).mp hwhite)

/-- Trimming on both ends is trimming the end of what starts with no blank. -/
theorem trimBlanks_eq (s : String) :
    trimBlanks s = trimBlankEnd (String.ofList (s.toList.dropWhile isBlank)) := by
  rw [trimBlanks, trimBlankEnd, String.toList_ofList]

theorem trim_trimBlanks_eq_empty_iff {s : String} (h : IsVisible s) :
    trim (trimBlanks s) = "" ↔ trimBlanks s = "" := by
  rw [trimBlanks_eq]
  apply trim_trimBlankEnd_eq_empty_iff
  intro c hc
  rw [String.toList_ofList] at hc
  exact h c ((List.dropWhile_sublist isBlank).subset hc)

/-- A text without blanks is not trimmed. -/
theorem trimBlanks_eq_self {s : String} (h : ∀ c ∈ s.toList, isBlank c = false) :
    trimBlanks s = s := by
  have hfront : s.toList.dropWhile isBlank = s.toList := by
    cases hs : s.toList with
    | nil => rfl
    | cons c cs => rw [List.dropWhile_cons_of_neg (by rw [h c (by rw [hs]; simp)]; nofun)]
  have hback : s.toList.rdropWhile isBlank = s.toList := by
    rw [List.rdropWhile_eq_self_iff]
    intro hne
    rw [h _ (List.getLast_mem hne)]
    nofun
  rw [trimBlanks, hfront, hback, String.ofList_toList]

/-- Trimming the end of a text that goes on with `s` trims `s`, unless nothing of it is left. -/
theorem rdropWhile_append {α : Type*} (p : α → Bool) (l m : List α) :
    (l ++ m).rdropWhile p =
      if m.rdropWhile p = [] then l.rdropWhile p else l ++ m.rdropWhile p := by
  simp only [List.rdropWhile, List.reverse_append, List.dropWhile_append, List.isEmpty_iff,
    List.reverse_eq_nil_iff]
  split
  · rfl
  · rw [List.reverse_append, List.reverse_reverse]

/-- A bearer's secret as it is read: the blank after the scheme stays only before a secret. -/
theorem trimBlanks_bearer (secret : String) :
    trimBlanks ("Bearer " ++ secret) =
      if trimBlankEnd secret = "" then "Bearer" else "Bearer " ++ trimBlankEnd secret := by
  have hfront : ("Bearer " ++ secret).toList.dropWhile isBlank = "Bearer ".toList ++ secret.toList := by
    rw [String.toList_append]
    rfl
  have hempty : trimBlankEnd secret = "" ↔ secret.toList.rdropWhile isBlank = [] := by
    rw [trimBlankEnd, ← String.toList_inj, String.toList_ofList]
    rfl
  rw [trimBlanks, hfront, rdropWhile_append]
  by_cases hnil : secret.toList.rdropWhile isBlank = []
  · rw [if_pos hnil, if_pos (hempty.mpr hnil)]
    decide
  · rw [if_neg hnil, if_neg fun h => hnil (hempty.mp h), trimBlankEnd, ← String.toList_inj]
    simp

end Str

/-! ### Headers as they are received -/

namespace HeaderValue

/-- The blanks among the bytes are the blanks among the characters. -/
theorem isBlank_ofNat (b : UInt8) : Str.isBlank (Char.ofNat b.toNat) = isBlank b := by
  revert b
  exact Str.forall_byte (by decide +kernel)

theorem isVisibleAscii_of_isBlank : ∀ b, isBlank b = true → isVisibleAscii b = true :=
  Str.forall_byte (by decide +kernel)

/-- Trimming the bytes drops only visible ones. -/
theorem all_received (v : HeaderValue) :
    v.received.bytes.all isVisibleAscii = v.bytes.all isVisibleAscii := by
  have hdrop : ∀ l : List UInt8,
      (l.dropWhile isBlank).all isVisibleAscii = l.all isVisibleAscii := by
    intro l
    induction l with
    | nil => rfl
    | cons b bs ih =>
      rw [List.dropWhile_cons]
      split
      · rename_i hblank
        rw [ih, List.all_cons, isVisibleAscii_of_isBlank b hblank, Bool.true_and]
      · rfl
  show ((v.bytes.dropWhile isBlank).rdropWhile isBlank).all isVisibleAscii = _
  rw [List.rdropWhile, List.all_reverse, hdrop, List.all_reverse, hdrop]

/-- **What is received of a value reads as its text without the blanks at its ends.** -/
theorem toStr_received (v : HeaderValue) : v.received.toStr = v.toStr.map Str.trimBlanks := by
  have hchar : (Str.isBlank ∘ fun b : UInt8 => Char.ofNat b.toNat) = isBlank :=
    funext isBlank_ofNat
  unfold toStr
  rw [all_received]
  split
  · rw [Option.map_some, Str.trimBlanks, String.toList_ofList]
    show some (String.ofList (((v.bytes.dropWhile isBlank).rdropWhile isBlank).map _)) = _
    rw [List.rdropWhile, List.rdropWhile, List.dropWhile_map, ← List.map_reverse, List.dropWhile_map,
      ← List.map_reverse, hchar]
  · rfl

end HeaderValue

theorem HeaderMap.get_received (headers : HeaderMap) (name : String) :
    headers.received.get name = (headers.get name).map HeaderValue.received := by
  unfold HeaderMap.received HeaderMap.get
  rw [List.find?_map, Option.map_map, Option.map_map]
  rfl

theorem headerText_received (headers : HeaderMap) (name : String) :
    headerText headers.received name = (headerText headers name).map Str.trimBlanks := by
  unfold headerText
  rw [HeaderMap.get_received]
  cases headers.get name with
  | none => rfl
  | some v => exact v.toStr_received

theorem presents_iff {headers : HeaderMap} {name value : String} :
    Presents headers name value ↔ headerText headers name = some value ∧ Str.trim value ≠ "" := by
  unfold Presents headerText
  rw [Option.bind_eq_some_iff]
  grind

theorem presentsBearer_iff {headers : HeaderMap} {secret : String} :
    PresentsBearer headers secret ↔
      headerText headers AUTHORIZATION = some ("Bearer " ++ secret) ∧ Str.trim secret ≠ "" := by
  unfold PresentsBearer headerText
  rw [Option.bind_eq_some_iff]
  grind

section Stamped

variable {texts : List (String × String)}
  (hvalid : ∀ t ∈ texts, (HeaderValue.fromStr t.2).isSome = true)
include hvalid

/-- A stamped text is received without the blanks at its ends, if it is visible. -/
theorem headerText_stamped_received {name text : String}
    (hfind : texts.find? (fun t => t.1 = name) = some (name, text)) :
    headerText (HeaderMap.received (stampedHeaders texts)) name =
      if IsVisible text then some (Str.trimBlanks text) else none := by
  rw [headerText_received, headerText_stampedHeaders hvalid, hfind, Option.bind_some]
  split <;> rfl

theorem headerText_stamped_absent {name : String}
    (hfind : texts.find? (fun t => t.1 = name) = none) :
    headerText (HeaderMap.received (stampedHeaders texts)) name = none := by
  rw [headerText_received, headerText_stampedHeaders hvalid, hfind]
  rfl

/-- A stamped header presents its text trimmed, if that is visible and not blank. -/
theorem presents_stamped_iff {name text value : String}
    (hfind : texts.find? (fun t => t.1 = name) = some (name, text)) :
    Presents (HeaderMap.received (stampedHeaders texts)) name value ↔
      IsVisible text ∧ value = Str.trimBlanks text ∧ value ≠ "" := by
  rw [presents_iff, headerText_stamped_received hvalid hfind]
  by_cases hvis : IsVisible text
  · rw [if_pos hvis, Option.some.injEq]
    constructor
    · rintro ⟨rfl, htrim⟩
      exact ⟨hvis, rfl, fun h => htrim ((Str.trim_trimBlanks_eq_empty_iff hvis).mpr h)⟩
    · rintro ⟨-, rfl, hne⟩
      exact ⟨rfl, fun h => hne ((Str.trim_trimBlanks_eq_empty_iff hvis).mp h)⟩
  · rw [if_neg hvis]
    exact ⟨fun h => absurd h.1 nofun, fun h => absurd h.1 hvis⟩

/-- The secret is received with the blanks before it and without those after it. -/
theorem presentsBearer_stamped_iff {secret value : String}
    (hfind : texts.find? (fun t => t.1 = AUTHORIZATION) =
      some (AUTHORIZATION, "Bearer " ++ secret)) :
    PresentsBearer (HeaderMap.received (stampedHeaders texts)) value ↔
      IsVisible secret ∧ value = Str.trimBlankEnd secret ∧ value ≠ "" := by
  have hscheme : IsVisible "Bearer " := by decide
  have hvis : IsVisible ("Bearer " ++ secret) ↔ IsVisible secret := by
    refine ⟨fun h c hc => h c ?_, fun h => hscheme.append h⟩
    rw [String.toList_append, List.mem_append]
    exact .inr hc
  rw [presentsBearer_iff, headerText_stamped_received hvalid hfind]
  by_cases hsecret : IsVisible secret
  · rw [if_pos (hvis.mpr hsecret), Option.some.injEq, Str.trimBlanks_bearer]
    split
    · rename_i hempty
      constructor
      · rintro ⟨hbearer, -⟩
        -- a bare scheme is one character short
        have hlen := congrArg String.length hbearer
        rw [String.length_append] at hlen
        have h6 : "Bearer".length = 6 := by decide
        have h7 : "Bearer ".length = 7 := by decide
        omega
      · rintro ⟨-, rfl, hne⟩
        exact absurd hempty hne
    · rename_i hne
      have hinj : "Bearer " ++ Str.trimBlankEnd secret = "Bearer " ++ value ↔
          Str.trimBlankEnd secret = value := by
        rw [← String.toList_inj, String.toList_append, String.toList_append, List.append_cancel_left_eq,
          String.toList_inj]
      rw [hinj]
      constructor
      · rintro ⟨rfl, -⟩
        exact ⟨hsecret, rfl, hne⟩
      · rintro ⟨-, rfl, -⟩
        exact ⟨rfl, fun h => hne ((Str.trim_trimBlankEnd_eq_empty_iff hsecret).mp h)⟩
  · rw [if_neg fun h => hsecret (hvis.mp h)]
    exact ⟨fun h => absurd h.1 nofun, fun h => absurd h.1 hsecret⟩

end Stamped

/-! ### The request of a dial -/

/-- Texts that the builder takes are stamped, as long as the map has room. -/
theorem foldlM_stampHeader_of_valid {ops : HttpOps} {room : ℕ}
    (hroom : ∀ (headers : HeaderMap) name, headers.length < room → ops.hasRoom headers name = true) :
    ∀ {texts : List (String × String)} (acc : HeaderMap),
      (∀ t ∈ texts, (HeaderValue.fromStr t.2).isSome = true) → acc.length + texts.length ≤ room →
      texts.foldlM (stampHeader ops) acc = .ok (acc ++ stampedHeaders texts) := by
  intro texts
  -- on the texts
  induction texts with
  | nil =>
    intro acc _ _
    rw [stampedHeaders, List.filterMap_nil, List.append_nil]
    rfl
  | cons text rest ih =>
    intro acc hvalid hlen
    rw [List.length_cons] at hlen
    obtain ⟨value, hvalue⟩ := Option.isSome_iff_exists.mp (hvalid text List.mem_cons_self)
    -- the map has room for one header more
    have hstamp : stampHeader ops acc text = .ok (acc ++ [(text.1, value)]) := by
      unfold stampHeader appendHeader
      rw [hvalue]
      exact if_pos (hroom acc text.1 (by omega))
    have hcons : stampedHeaders (text :: rest) = (text.1, value) :: stampedHeaders rest := by
      rw [stampedHeaders, List.filterMap_cons, hvalue]
      rfl
    have hrest := ih (acc ++ [(text.1, value)])
      (fun t ht => hvalid t (List.mem_cons_of_mem _ ht)) (by simp; omega)
    rw [List.foldlM_cons, hstamp, hcons]
    show rest.foldlM (stampHeader ops) (acc ++ [(text.1, value)]) = _
    rw [hrest, List.append_assoc]
    rfl

/-- Stamping onto an empty map, with room for all, succeeds exactly on valid texts. -/
theorem foldlM_stampHeader_eq_ok_iff {ops : HttpOps} {room : ℕ}
    (hroom : ∀ (headers : HeaderMap) name, headers.length < room → ops.hasRoom headers name = true)
    {texts : List (String × String)} (hlen : texts.length ≤ room) {out : HeaderMap} :
    texts.foldlM (stampHeader ops) [] = .ok out ↔
      (∀ t ∈ texts, (HeaderValue.fromStr t.2).isSome = true) ∧ out = stampedHeaders texts := by
  constructor
  · intro h
    obtain ⟨rfl, hvalid⟩ := foldlM_stampHeader h
    exact ⟨hvalid, List.nil_append _⟩
  · rintro ⟨hvalid, rfl⟩
    have hok := foldlM_stampHeader_of_valid hroom [] hvalid (by simpa using hlen)
    rwa [List.nil_append] at hok

/-- Base64 text. -/
def IsBase64 (s : String) : Prop :=
  ∀ c ∈ s.toList, c.isAlphanum = true ∨ c = '+' ∨ c = '/' ∨ c = '='

instance (s : String) : Decidable (IsBase64 s) := List.decidableBAll _ _

theorem IsBase64.range {s : String} (h : IsBase64 s) {c : Char} (hc : c ∈ s.toList) :
    33 ≤ c.toNat ∧ c.toNat < 127 := by
  rcases h c hc with halnum | rfl | rfl | rfl
  · have hrange := toNat_of_isAlphanum halnum
    omega
  all_goals decide

theorem IsBase64.isVisible {s : String} (h : IsBase64 s) : IsVisible s := by
  intro c hc
  have hrange := h.range hc
  omega

/-- Base64 text has no blanks to trim. -/
theorem IsBase64.trimBlanks {s : String} (h : IsBase64 s) : Str.trimBlanks s = s := by
  apply Str.trimBlanks_eq_self
  intro c hc
  have hrange := h.range hc
  have hspace : c ≠ ' ' := by
    rintro rfl
    revert hrange
    decide
  have htab : c ≠ '\t' := by
    rintro rfl
    revert hrange
    decide
  simp [Str.isBlank, hspace, htab]

/-- A visible text is a header value. -/
theorem IsVisible.isSome_fromStr {s : String} (h : IsVisible s) :
    (HeaderValue.fromStr s).isSome = true := by
  have hvalid : ∀ b, HeaderValue.isVisibleAscii b = true → HeaderValue.isValidByte b = true :=
    Str.forall_byte (by decide +kernel)
  have hall : s.toUTF8.data.toList.all HeaderValue.isValidByte = true := by
    rw [List.all_eq_true]
    intro b hb
    exact hvalid b (List.all_eq_true.mp (HeaderValue.all_isVisibleAscii_iff.mpr h) b hb)
  unfold HeaderValue.fromStr
  rw [dif_pos hall]
  rfl

/-- What is known of the libraries where they carry one dial. -/
structure HandshakeOps.Carries (ops : HandshakeOps) (localName : String) (connectionId : Uuid)
    (key : String) : Prop where
  targets : ops.toHttpOps.TakesTargets
  /-- A header map takes far more than the entries of a handshake. -/
  room : ∀ (headers : HeaderMap) name, headers.length < 16 → ops.hasRoom headers name = true
  keyText : IsBase64 key
  acceptText : IsBase64 (ops.wsAcceptKey key)
  decode : ops.decode (Str.percentEncode localName) = some localName
  query : ops.formParse ("connectionId=" ++ connectionId.toText) =
    [("connectionId", connectionId.toText)]
  parseUuid : ops.parseUuid connectionId.toText = some connectionId

section Dial

variable {ops : HandshakeOps} {localName : String} {connectionId : Uuid} {key : String}

theorem length_dialHeaders_le (authority key : String) (admission : Option InitiatorAdmission) :
    (dialHeaders authority key admission).length ≤ 16 := by
  unfold dialHeaders
  cases admission with
  | none => simp
  | some admission =>
    cases hname : admission.nodeName <;> simp [InitiatorAdmission.headers, hname]

theorem dialPath_eq (localName : String) (connectionId : Uuid) :
    dialPath localName connectionId =
      "/peers/" ++ Str.percentEncode localName ++ "?" ++ ("connectionId=" ++ connectionId.toText) := by
  have hquery : "?connectionId=" = "?" ++ "connectionId=" := by decide
  unfold dialPath
  rw [hquery]
  simp only [String.append_assoc]

theorem isOriginForm_dialPath (localName : String) (connectionId : Uuid) :
    IsOriginForm (dialPath localName connectionId) := by
  have hpeers : IsOriginForm "/peers/" := by decide
  have hquery : "?connectionId=".toList.all isTargetChar = true := by decide
  unfold dialPath
  apply IsOriginForm.append
  · apply IsOriginForm.append
    · exact hpeers.append fun c => isTargetChar_of_mem_percentEncode
    · exact List.all_eq_true.mp hquery
  · exact fun c => Uuid.isTargetChar_of_mem_toText

theorem utf8ByteSize_dialPath (localName : String) (connectionId : Uuid) :
    (dialPath localName connectionId).utf8ByteSize = Str.encodedSize localName + 57 := by
  have hpeers : "/peers/".utf8ByteSize = 7 := by decide
  have hquery : "?connectionId=".utf8ByteSize = 14 := by decide
  unfold dialPath
  rw [String.utf8ByteSize_append, String.utf8ByteSize_append, String.utf8ByteSize_append, hpeers,
    hquery, Str.utf8ByteSize_percentEncode, Uuid.utf8ByteSize_toText]
  omega

theorem routed_peers {param : String} (hslash : '/' ∉ param.toList) :
    routed "POST" ("/peers/" ++ param) =
      if param = "" then none else some (.peersUpgrade, [param]) := by
  have hpath : "/peers/" ++ param = "/peers" ++ String.singleton '/' ++ param := by
    rw [show "/peers/" = "/peers" ++ String.singleton '/' by decide]
  have hpeers : Str.split '/' "/peers" = ["", "peers"] := by decide
  unfold routed
  rw [hpath, Str.split_append_cons, hpeers, Str.split_of_not_mem hslash]
  by_cases hempty : param = "" <;>
    simp [routes, matchSegments, MethodFilter.takes, hempty]

/-- A dialed request reaches `peers_upgrade` under the name and the id of the dial. -/
theorem receive_dial (hops : ops.Carries localName connectionId key) (gateway : UpgradeState)
    (headers : HeaderMap) :
    gateway.receive ops ⟨"POST", dialPath localName connectionId, headers, ()⟩ =
      if localName = "" then .rejected 404
      else peersUpgrade ops gateway localName (some connectionId) headers.received := by
  have hchars : ∀ c ∈ (Str.percentEncode localName).toList, Str.isEncodedChar c = true :=
    fun c => Str.isEncodedChar_of_mem_percentEncode
  have hslash : '/' ∉ (Str.percentEncode localName).toList := fun hmem =>
    absurd (hchars _ hmem) (by decide)
  have hfront : '?' ∉ ("/peers/" ++ Str.percentEncode localName).toList := by
    rw [String.toList_append, List.mem_append, not_or]
    exact ⟨by decide, Str.question_not_mem_percentEncode localName⟩
  have hsplit : TopicPattern.splitSuffix (dialPath localName connectionId) =
      ("/peers/" ++ Str.percentEncode localName,
        some ("connectionId=" ++ connectionId.toText)) := by
    rw [dialPath_eq, TopicPattern.splitSuffix_append hfront]
  have hquery : peerQuery ops (hrefQuery (dialPath localName connectionId)) =
      some (some connectionId) := by
    simp [peerQuery, hrefQuery, hsplit, hops.query, queryParam, hops.parseUuid]
  -- only the empty name is encoded as the empty text
  have hempty : Str.percentEncode localName = "" ↔ localName = "" := by
    constructor
    · intro henc
      have hdecode := Str.percentDecode_percentEncode localName
      have hnothing := Str.percentDecode_percentEncode ""
      rw [show Str.percentEncode "" = "" by decide] at hnothing
      rw [henc, hnothing] at hdecode
      exact (Option.some.inj hdecode).symm
    · rintro rfl
      decide
  unfold UpgradeState.receive
  rw [hsplit]
  dsimp only
  rw [routed_peers hslash]
  by_cases hname : localName = ""
  · rw [if_pos (hempty.mpr hname), if_pos hname]
  · rw [if_neg fun h => hname (hempty.mp h), if_neg hname]
    dsimp only
    rw [hops.decode, hquery]

/-- All texts of a dial are header values when those that are configured are. -/
theorem dialHeaders_valid_iff (hkey : IsBase64 key) {authority : String}
    {admission : Option InitiatorAdmission} :
    (∀ t ∈ dialHeaders authority key admission, (HeaderValue.fromStr t.2).isSome = true) ↔
      (HeaderValue.fromStr authority).isSome = true ∧
        ∀ c ∈ admission, ∀ t ∈ c.headers, (HeaderValue.fromStr t.2).isSome = true := by
  have hfixed : ∀ text ∈ ["Upgrade", "websocket", "13", SUBPROTOCOL],
      (HeaderValue.fromStr text).isSome = true := by
    intro text htext
    apply IsVisible.isSome_fromStr
    revert text
    decide
  have hkey' := hkey.isVisible.isSome_fromStr
  simp only [List.mem_cons, List.not_mem_nil, or_false, forall_eq_or_imp, forall_eq] at hfixed
  cases admission with
  | none => simp [dialHeaders, hfixed, hkey']
  | some c =>
    simp only [dialHeaders, Option.map_some, Option.getD_some, List.mem_append, or_imp, forall_and]
    simp [hfixed, hkey']

/-- The acceptor's answer to the headers of a dial, whatever it admits. -/
theorem exists_buildUpgradeResponse (hops : ops.Carries localName connectionId key)
    {authority : String} {admission : Option InitiatorAdmission}
    (hvalid : ∀ t ∈ dialHeaders authority key admission,
      (HeaderValue.fromStr t.2).isSome = true) :
    ∃ response, buildUpgradeResponse ops
        (HeaderMap.received (stampedHeaders (dialHeaders authority key admission))) =
          .ok response ∧
      headerText response.received SEC_WEBSOCKET_ACCEPT = some (ops.wsAcceptKey key) := by
  -- the three headers that the answer reads
  have hfindKey : (dialHeaders authority key admission).find? (fun t => t.1 = SEC_WEBSOCKET_KEY) =
      some (SEC_WEBSOCKET_KEY, key) := by
    simp [dialHeaders, HOST, CONNECTION, UPGRADE, SEC_WEBSOCKET_KEY]
  have hfindVersion : (dialHeaders authority key admission).find?
      (fun t => t.1 = SEC_WEBSOCKET_VERSION) = some (SEC_WEBSOCKET_VERSION, "13") := by
    simp [dialHeaders, HOST, CONNECTION, UPGRADE, SEC_WEBSOCKET_KEY, SEC_WEBSOCKET_VERSION]
  have hfindProtocol : (dialHeaders authority key admission).find?
      (fun t => t.1 = SEC_WEBSOCKET_PROTOCOL) = some (SEC_WEBSOCKET_PROTOCOL, SUBPROTOCOL) := by
    simp [dialHeaders, HOST, CONNECTION, UPGRADE, SEC_WEBSOCKET_KEY, SEC_WEBSOCKET_VERSION,
      SEC_WEBSOCKET_PROTOCOL]
  have hkey := headerText_stamped_received hvalid hfindKey
  have hversion := headerText_stamped_received hvalid hfindVersion
  have hprotocol := headerText_stamped_received hvalid hfindProtocol
  rw [if_pos hops.keyText.isVisible, hops.keyText.trimBlanks] at hkey
  rw [if_pos (by decide), show Str.trimBlanks "13" = "13" by decide] at hversion
  rw [if_pos (by decide), show Str.trimBlanks SUBPROTOCOL = SUBPROTOCOL by decide] at hprotocol
  let answer := [(CONNECTION, "upgrade"), (UPGRADE, "websocket"),
    (SEC_WEBSOCKET_ACCEPT, ops.wsAcceptKey key), (SEC_WEBSOCKET_PROTOCOL, SUBPROTOCOL)]
  -- every header of the answer is visible text
  have hanswer : ∀ t ∈ answer, (HeaderValue.fromStr t.2).isSome = true := by
    intro t ht
    apply IsVisible.isSome_fromStr
    have hvis : IsVisible "upgrade" ∧ IsVisible "websocket" ∧ IsVisible SUBPROTOCOL := by decide
    simp only [answer, List.mem_cons, List.not_mem_nil, or_false] at ht
    rcases ht with rfl | rfl | rfl | rfl
    · exact hvis.1
    · exact hvis.2.1
    · exact hops.acceptText.isVisible
    · exact hvis.2.2
  have hbuilt : answer.foldlM (stampHeader ops.toHttpOps) [] = .ok (stampedHeaders answer) :=
    (foldlM_stampHeader_eq_ok_iff hops.room (by simp [answer])).mpr ⟨hanswer, rfl⟩
  refine ⟨stampedHeaders answer, ?_, ?_⟩
  · -- the subprotocol offered is the only one
    have hoffered : (!(Str.split ',' SUBPROTOCOL).any fun tok => Str.trim tok == SUBPROTOCOL) =
        false := by
      decide
    unfold buildUpgradeResponse
    simp only [hkey, hversion, hprotocol, Option.getD_some, hoffered]
    rw [if_neg (by simp), if_neg (by simp)]
    simp only [answer] at hbuilt
    simp only [hbuilt, answer]
  · have hfind : answer.find? (fun t => t.1 = SEC_WEBSOCKET_ACCEPT) =
        some (SEC_WEBSOCKET_ACCEPT, ops.wsAcceptKey key) := by
      simp [answer, CONNECTION, UPGRADE, SEC_WEBSOCKET_ACCEPT]
    rw [headerText_stamped_received hanswer hfind, if_pos hops.acceptText.isVisible,
      hops.acceptText.trimBlanks]

end Dial

/-! ### What the gateway asks of a link -/

/-- A node's name as it is received: one that is blank or not visible is dropped. -/
def receivedName (name : String) : Option String :=
  if IsVisible name ∧ Str.trimBlanks name ≠ "" then some (Str.trimBlanks name) else none

/-- The requested capabilities that have a name on the wire. -/
def PeerLinkConfig.sentCapabilities (link : PeerLinkConfig) : PeerCapabilities :=
  link.requestedCapabilities.intersection .all

/-- What `config` asks of a link that is dialed for `route`: it has a token and a node id, each
visible and not blank, and as received they are the ones of the first configuration that they
match. -/
structure PeerLinkConfig.MeetsAdmission (link : PeerLinkConfig) (route : String)
    (admissions : List PeerAdmissionConfig) (config : PeerAdmissionConfig)
    (tokenId secret nodeId : String) : Prop where
  hasTokenId : link.tokenId = some tokenId
  hasTokenSecret : link.tokenSecret = some secret
  hasNodeId : link.localNodeId = some nodeId
  visible : IsVisible tokenId ∧ IsVisible secret ∧ IsVisible nodeId
  notBlank : Str.trimBlanks tokenId ≠ "" ∧ Str.trimBlankEnd secret ≠ "" ∧
    Str.trimBlanks nodeId ≠ ""
  first : IsFirst (fun c => c.Matches (Str.trimBlanks tokenId) (Str.trimBlankEnd secret) route)
    admissions config
  expected : ∀ expected, config.expectedNodeId = some expected → expected = Str.trimBlanks nodeId
  meets : link.sentCapabilities.intersection config.allowedCapabilities ≠ .empty

/-- What the gateway makes of a client: without configured admissions its policy decides, and with
them the link of the client. -/
def UpgradeState.Admits (gateway : UpgradeState) (client : PeerClient) (connectionId : Uuid)
    (a : AdmittedPeerConnection) : Prop :=
  (gateway.admissions = [] ∧ ∃ policy, gateway.unauthenticated = some policy ∧
    a = .unauthenticated client.localName connectionId policy.allowedCapabilities) ∨
  (gateway.admissions ≠ [] ∧ ∃ link config tokenId secret nodeId, client.admission = some link ∧
    link.MeetsAdmission client.localName gateway.admissions config tokenId secret nodeId ∧
    a = .tokenBound client.localName (Str.trimBlanks tokenId) connectionId (Str.trimBlanks nodeId)
      (link.localNodeName.bind receivedName) config.allowedCapabilities
      (link.sentCapabilities.intersection config.allowedCapabilities))

/-- All that a handshake asks for. -/
structure UpgradeState.Links (gateway : UpgradeState) (client : PeerClient) (connectionId : Uuid)
    (authority : String) (a : AdmittedPeerConnection) : Prop where
  named : client.localName ≠ ""
  /-- The target is not too long for a URI. -/
  short : Str.encodedSize client.localName + 57 ≤ 65534
  authorityValid : (HeaderValue.fromStr authority).isSome = true
  textsValid : ∀ c ∈ client.initiatorAdmission, ∀ t ∈ c.headers,
    (HeaderValue.fromStr t.2).isSome = true
  peering : gateway.peering = true
  free : gateway.hasActivePeer client.localName = false
  admits : gateway.Admits client connectionId a

theorem initiatorAdmission_eq_some_iff {client : PeerClient} {c : InitiatorAdmission} :
    client.initiatorAdmission = some c ↔
      ∃ link, client.admission = some link ∧ link.tokenId = some c.tokenId ∧
        link.tokenSecret = some c.tokenSecret ∧ link.localNodeId = some c.nodeId ∧
        link.localNodeName = c.nodeName ∧
        link.requestedCapabilities.toText = c.requestedCapabilities := by
  cases c
  simp [PeerClient.initiatorAdmission, Option.bind_eq_some_iff]

/-- The text of a set of capabilities is received as it was sent. -/
theorem trimBlanks_toText (caps : PeerCapabilities) : Str.trimBlanks caps.toText = caps.toText := by
  have haxis : CAPABILITY_AXES.all (fun axis => axis.2.2.toList.all fun c => !Str.isBlank c) := by
    decide
  apply Str.trimBlanks_eq_self
  intro c hc
  rcases Str.mem_toList_intercalate hc with hsep | ⟨name, hname, hc⟩
  · have hcomma : ",".toList.all (fun c => !Str.isBlank c) := by decide
    simpa using List.all_eq_true.mp hcomma c hsep
  · rw [PeerCapabilities.names_eq_map_axes] at hname
    obtain ⟨axis, hmem, rfl⟩ := List.mem_map.mp hname
    have hall := List.all_eq_true.mp haxis axis (PeerCapabilities.axes_subset hmem)
    simpa using List.all_eq_true.mp hall c hc

section Admission

variable {authority key : String}

/-- No header of a dial without an admission names a token. -/
theorem not_presents_tokenId
    (hvalid : ∀ t ∈ dialHeaders authority key none, (HeaderValue.fromStr t.2).isSome = true)
    {tokenId : String} :
    ¬ Presents (HeaderMap.received (stampedHeaders (dialHeaders authority key none)))
      PEER_TOKEN_ID_HEADER tokenId := by
  rw [presents_iff, headerText_stamped_absent hvalid (by
    simp [dialHeaders, HOST, CONNECTION, UPGRADE, SEC_WEBSOCKET_KEY, SEC_WEBSOCKET_VERSION,
      SEC_WEBSOCKET_PROTOCOL, PEER_TOKEN_ID_HEADER])]
  intro h
  cases h.1

variable {c : InitiatorAdmission}
  (hvalid : ∀ t ∈ dialHeaders authority key (some c), (HeaderValue.fromStr t.2).isSome = true)
include hvalid

/-- The headers of an admission, as they are received. -/
theorem presents_dial (value : String) :
    let headers := HeaderMap.received (stampedHeaders (dialHeaders authority key (some c)))
    (Presents headers PEER_TOKEN_ID_HEADER value ↔
      IsVisible c.tokenId ∧ value = Str.trimBlanks c.tokenId ∧ value ≠ "") ∧
    (PresentsBearer headers value ↔
      IsVisible c.tokenSecret ∧ value = Str.trimBlankEnd c.tokenSecret ∧ value ≠ "") ∧
    (Presents headers PEER_NODE_ID_HEADER value ↔
      IsVisible c.nodeId ∧ value = Str.trimBlanks c.nodeId ∧ value ≠ "") ∧
    (Presents headers PEER_CAPABILITIES_HEADER value ↔
      IsVisible c.requestedCapabilities ∧ value = Str.trimBlanks c.requestedCapabilities ∧
        value ≠ "") := by
  refine ⟨presents_stamped_iff hvalid ?_, presentsBearer_stamped_iff hvalid ?_,
    presents_stamped_iff hvalid ?_, presents_stamped_iff hvalid ?_⟩ <;>
  simp [dialHeaders, InitiatorAdmission.headers, HOST, CONNECTION, UPGRADE, SEC_WEBSOCKET_KEY,
    SEC_WEBSOCKET_VERSION, SEC_WEBSOCKET_PROTOCOL, PEER_TOKEN_ID_HEADER, AUTHORIZATION,
    PEER_NODE_ID_HEADER, PEER_CAPABILITIES_HEADER]

/-- The node name the acceptor reads is the one the client stamped. -/
theorem optionalHeader_nodeName :
    optionalHeader (HeaderMap.received (stampedHeaders (dialHeaders authority key (some c))))
      PEER_NODE_NAME_HEADER = c.nodeName.bind receivedName := by
  -- no other header of the dial has this name
  have hnames : [HOST, CONNECTION, UPGRADE, SEC_WEBSOCKET_KEY, SEC_WEBSOCKET_VERSION,
      SEC_WEBSOCKET_PROTOCOL, PEER_TOKEN_ID_HEADER, AUTHORIZATION, PEER_NODE_ID_HEADER,
      PEER_CAPABILITIES_HEADER].all (· ≠ PEER_NODE_NAME_HEADER) = true := by decide
  apply Option.ext
  intro value
  rw [optionalHeader_eq_some_iff]
  cases hname : c.nodeName with
  | none =>
    rw [presents_iff, headerText_stamped_absent hvalid (by
      simpa [dialHeaders, InitiatorAdmission.headers, hname] using hnames)]
    simp
  | some name =>
    have hfind : (dialHeaders authority key (some c)).find? (fun t => t.1 = PEER_NODE_NAME_HEADER) =
        some (PEER_NODE_NAME_HEADER, name) := by
      simp at hnames
      simp [dialHeaders, InitiatorAdmission.headers, hname, hnames]
    rw [presents_stamped_iff hvalid hfind]
    rw [Option.bind_some, receivedName]
    -- a name that is empty or not visible is not received
    split
    · rename_i hkept
      simp only [Option.some.injEq]
      constructor
      · exact fun h => h.2.1.symm
      · rintro rfl
        exact ⟨hkept.1, rfl, hkept.2⟩
    · rename_i hdropped
      refine ⟨fun h => absurd ⟨h.1, ?_⟩ hdropped, nofun⟩
      rw [← h.2.1]
      exact h.2.2

end Admission

section Exchange

variable {ops : HandshakeOps} {gateway : UpgradeState} {client : PeerClient} {connectionId : Uuid}
  {authority key : String} {a : AdmittedPeerConnection}

/-- **Admission of a dial**: the gateway admits the headers of a dial, as it receives them, exactly
as `Admits` says. -/
theorem admit_dial_iff
    (hvalid : ∀ t ∈ dialHeaders authority key client.initiatorAdmission,
      (HeaderValue.fromStr t.2).isSome = true) :
    admitPeerConnection client.localName connectionId
        (HeaderMap.received (stampedHeaders
          (dialHeaders authority key client.initiatorAdmission)))
        gateway.admissions gateway.unauthenticated = .ok a ↔
      gateway.Admits client connectionId a := by
  by_cases hnil : gateway.admissions = []
  · unfold admitPeerConnection UpgradeState.Admits
    rw [hnil]
    cases gateway.unauthenticated with
    | none => simp
    | some policy => simp [eq_comm]
  rw [admitPeerConnection_eq_ok_iff hnil, UpgradeState.Admits]
  constructor
  · rintro ⟨tokenId, secret, nodeId, raw, config, requested, hadmits, rfl⟩
    cases hadm : client.initiatorAdmission with
    | none =>
      rw [hadm] at hvalid hadmits
      exact absurd hadmits.tokenIdPresented (not_presents_tokenId hvalid)
    | some c =>
      rw [hadm] at hvalid hadmits
      obtain ⟨link, hlink, htoken, hsecret, hnode, hname, hcaps⟩ :=
        initiatorAdmission_eq_some_iff.mp hadm
      obtain ⟨htokenVis, rfl, htokenNe⟩ :=
        (presents_dial hvalid tokenId).1.mp hadmits.tokenIdPresented
      obtain ⟨hsecretVis, rfl, hsecretNe⟩ :=
        (presents_dial hvalid secret).2.1.mp hadmits.secretPresented
      obtain ⟨hnodeVis, rfl, hnodeNe⟩ :=
        (presents_dial hvalid nodeId).2.2.1.mp hadmits.nodeIdPresented
      obtain ⟨-, rfl, -⟩ :=
        (presents_dial hvalid raw).2.2.2.mp hadmits.capabilitiesPresented
      -- the list of capabilities is read back
      have hparses := hadmits.parses
      rw [← hcaps, trimBlanks_toText, PeerCapabilities.parseList_toText] at hparses
      obtain rfl : link.sentCapabilities = requested := Except.ok.inj hparses
      refine .inr ⟨hnil, link, config, c.tokenId, c.tokenSecret, c.nodeId, hlink,
        { hasTokenId := htoken
          hasTokenSecret := hsecret
          hasNodeId := hnode
          visible := ⟨htokenVis, hsecretVis, hnodeVis⟩
          notBlank := ⟨htokenNe, hsecretNe, hnodeNe⟩
          first := hadmits.first
          expected := hadmits.expected
          meets := hadmits.meets }, ?_⟩
      rw [optionalHeader_nodeName hvalid, hname]
  · rintro (⟨hnil', -⟩ | ⟨-, link, config, tokenId, secret, nodeId, hlink, hmeets, rfl⟩)
    · exact absurd hnil' hnil
    have hadm : client.initiatorAdmission = some ⟨tokenId, secret, nodeId, link.localNodeName,
        link.requestedCapabilities.toText⟩ :=
      initiatorAdmission_eq_some_iff.mpr ⟨link, hlink, hmeets.hasTokenId, hmeets.hasTokenSecret,
        hmeets.hasNodeId, rfl, rfl⟩
    rw [hadm] at hvalid ⊢
    have hcaps : link.requestedCapabilities.toText ≠ "" := by
      intro hempty
      have hparse := PeerCapabilities.parseList_toText link.requestedCapabilities
      have hnothing : PeerCapabilities.parseList "" = .ok .empty := by decide
      rw [hempty, hnothing] at hparse
      have hsent : .empty = link.sentCapabilities := Except.ok.inj hparse
      apply hmeets.meets
      rw [← hsent]
      simp [PeerCapabilities.intersection, PeerCapabilities.empty]
    refine ⟨Str.trimBlanks tokenId, Str.trimBlankEnd secret, Str.trimBlanks nodeId,
      link.requestedCapabilities.toText, config, link.sentCapabilities,
      { tokenIdPresented := (presents_dial hvalid _).1.mpr
          ⟨hmeets.visible.1, rfl, hmeets.notBlank.1⟩
        secretPresented := (presents_dial hvalid _).2.1.mpr
          ⟨hmeets.visible.2.1, rfl, hmeets.notBlank.2.1⟩
        nodeIdPresented := (presents_dial hvalid _).2.2.1.mpr
          ⟨hmeets.visible.2.2, rfl, hmeets.notBlank.2.2⟩
        capabilitiesPresented := (presents_dial hvalid _).2.2.2.mpr
          ⟨PeerCapabilities.isVisible_toText _, (trimBlanks_toText _).symm, hcaps⟩
        first := hmeets.first
        expected := hmeets.expected
        parses := PeerCapabilities.parseList_toText _
        meets := hmeets.meets }, ?_⟩
    rw [optionalHeader_nodeName hvalid]

/-- The handler is spawned with what was admitted, once nothing else refuses the request. -/
theorem admitted?_peersUpgrade_iff {peerName : String} {headers : HeaderMap} :
    (peersUpgrade ops gateway peerName (some connectionId) headers).admitted? = some a ↔
      gateway.peering = true ∧ gateway.hasActivePeer peerName = false ∧
        admitPeerConnection peerName connectionId headers gateway.admissions
          gateway.unauthenticated = .ok a ∧
        ∃ response, buildUpgradeResponse ops headers = .ok response := by
  unfold peersUpgrade
  dsimp only
  cases gateway.peering with
  | false => simp [UpgradeAnswer.admitted?]
  | true =>
    cases admitPeerConnection peerName connectionId headers gateway.admissions
        gateway.unauthenticated with
    | error deny => simp [UpgradeAnswer.admitted?]
    | ok admitted =>
      cases gateway.hasActivePeer peerName with
      | true => simp [UpgradeAnswer.admitted?]
      | false =>
        cases buildUpgradeResponse ops headers with
        | error message => simp [UpgradeAnswer.admitted?]
        | ok response => simp [UpgradeAnswer.admitted?]

/-- The headers of an upgrade are the ones that `build_upgrade_response` builds. -/
theorem switched_headers {peerName : String} {headers built response : HeaderMap}
    {admitted : AdmittedPeerConnection}
    (h : peersUpgrade ops gateway peerName (some connectionId) headers = .switched built admitted)
    (hbuilt : buildUpgradeResponse ops headers = .ok response) : built = response := by
  unfold peersUpgrade at h
  rw [hbuilt] at h
  dsimp only at h
  split at h
  · cases h
  split at h
  · cases h
  split at h
  · cases h
  · cases h
    rfl

/-- A refusal never has the status of a 101, so the initiator goes on only after an upgrade. -/
theorem checkAnswer_eq_ok_iff {answer : UpgradeAnswer} :
    checkAnswer ops key answer = .ok () ↔
      ∃ headers admitted, answer = .switched headers admitted ∧
        headerText headers.received SEC_WEBSOCKET_ACCEPT = some (ops.wsAcceptKey key) := by
  cases answer with
  | rejected status => simp [checkAnswer]
  | refused status body => simp [checkAnswer]
  | switched headers admitted =>
    unfold checkAnswer headerText
    cases hgot : headers.received.get SEC_WEBSOCKET_ACCEPT with
    | none => simp [hgot]
    | some got => simp [hgot]

/-- The request is built exactly when its target is short enough and its texts are header values. -/
theorem dialRequest_eq_ok_iff (hops : ops.Carries client.localName connectionId key)
    {req : HttpRequest Unit} :
    dialRequest ops client connectionId authority key = .ok req ↔
      Str.encodedSize client.localName + 57 ≤ 65534 ∧
        (∀ t ∈ dialHeaders authority key client.initiatorAdmission,
          (HeaderValue.fromStr t.2).isSome = true) ∧
        req = ⟨"POST", dialPath client.localName connectionId,
          stampedHeaders (dialHeaders authority key client.initiatorAdmission), ()⟩ := by
  rw [← utf8ByteSize_dialPath client.localName connectionId,
    ← parsesUri_origin_iff hops.targets (isOriginForm_dialPath client.localName connectionId)]
  unfold dialRequest
  dsimp only
  -- the path parses exactly if it is short enough
  cases hparses : ops.parsesUri (dialPath client.localName connectionId) with
  | false => simp
  | true =>
    rw [if_neg (by simp)]
    have hstamp := @foldlM_stampHeader_eq_ok_iff ops.toHttpOps 16 hops.room
      (dialHeaders authority key client.initiatorAdmission) (length_dialHeaders_le _ _ _)
    -- the headers are stamped exactly if their values are visible
    cases hfold : (dialHeaders authority key client.initiatorAdmission).foldlM
        (stampHeader ops.toHttpOps) [] with
    | error err =>
      refine ⟨nofun, ?_⟩
      rintro ⟨-, hvalid, -⟩
      rw [hstamp.mpr ⟨hvalid, rfl⟩] at hfold
      cases hfold
    | ok headers =>
      obtain ⟨hvalid, rfl⟩ := hstamp.mp hfold
      show Except.ok _ = Except.ok req ↔ _
      rw [Except.ok.injEq]
      exact ⟨fun h => ⟨rfl, hvalid, h.symm⟩, fun h => h.2.2.symm⟩

/-- **When a handshake links.**  The handler of the gateway is spawned with the connection `a`
exactly when `Links` says so: the name of the client fits into a target, all texts are header
values, the gateway takes peers and has none of the name, and it admits the client, which under
configured admissions is a matter of its link alone.  The initiator gets a stream exactly when the
handler does: no end is left with a tunnel that the other has refused. -/
theorem handshake_links_iff (ops : HandshakeOps) (gateway : UpgradeState) (client : PeerClient)
    (connectionId : Uuid) (authority key : String)
    (hops : ops.Carries client.localName connectionId key) :
    (∀ a, (handshake ops gateway client connectionId authority key).1 = some a ↔
      gateway.Links client connectionId authority a) ∧
    ((handshake ops gateway client connectionId authority key).2 = .ok () ↔
      ∃ a, gateway.Links client connectionId authority a) := by
  unfold handshake
  cases hreq : dialRequest ops client connectionId authority key with
  | error err =>
    -- the builder fails where `Links` asks for a short target and for header values
    have hno : ∀ a, ¬ gateway.Links client connectionId authority a := by
      intro a hlinks
      have hok := (dialRequest_eq_ok_iff hops).mpr ⟨hlinks.short,
        (dialHeaders_valid_iff hops.keyText).mpr ⟨hlinks.authorityValid, hlinks.textsValid⟩, rfl⟩
      rw [hreq] at hok
      cases hok
    exact ⟨fun a => ⟨nofun, fun h => absurd h (hno a)⟩, nofun, fun ⟨a, h⟩ => absurd h (hno a)⟩
  | ok req =>
    obtain ⟨hshort, hvalid, rfl⟩ := (dialRequest_eq_ok_iff hops).mp hreq
    obtain ⟨hauthority, htexts⟩ := (dialHeaders_valid_iff hops.keyText).mp hvalid
    obtain ⟨response, hbuilt, haccept⟩ := exists_buildUpgradeResponse hops hvalid
    dsimp only
    rw [receive_dial hops]
    by_cases hname : client.localName = ""
    · rw [if_pos hname]
      have hno : ∀ a, ¬ gateway.Links client connectionId authority a :=
        fun a hlinks => hlinks.named hname
      refine ⟨fun a => ⟨nofun, fun h => absurd h (hno a)⟩, nofun, fun ⟨a, h⟩ => absurd h (hno a)⟩
    · rw [if_neg hname]
      have hhandler : ∀ a, (peersUpgrade ops gateway client.localName (some connectionId)
          (HeaderMap.received (stampedHeaders
            (dialHeaders authority key client.initiatorAdmission)))).admitted? = some a ↔
          gateway.Links client connectionId authority a := by
        intro a
        rw [admitted?_peersUpgrade_iff, admit_dial_iff hvalid]
        constructor
        · rintro ⟨hpeering, hfree, hadmits, -⟩
          exact ⟨hname, hshort, hauthority, htexts, hpeering, hfree, hadmits⟩
        · intro hlinks
          exact ⟨hlinks.peering, hlinks.free, hlinks.admits, response, hbuilt⟩
      refine ⟨hhandler, ?_⟩
      rw [checkAnswer_eq_ok_iff]
      constructor
      · rintro ⟨headers, admitted, hanswer, -⟩
        exact ⟨admitted, (hhandler admitted).mp (by rw [hanswer]; rfl)⟩
      · rintro ⟨a, hlinks⟩
        have hadmitted := (hhandler a).mpr hlinks
        cases hanswer : peersUpgrade ops gateway client.localName (some connectionId)
            (HeaderMap.received (stampedHeaders
              (dialHeaders authority key client.initiatorAdmission))) with
        | rejected status =>
          rw [hanswer] at hadmitted
          cases hadmitted
        | refused status body =>
          rw [hanswer] at hadmitted
          cases hadmitted
        | switched headers admitted =>
          refine ⟨headers, admitted, rfl, ?_⟩
          rw [switched_headers hanswer hbuilt]
          exact haccept

end Exchange

/-! ### A hub and its gateway -/

/-- Libraries that agree with the real ones on the dial below; the key and its answer are those of
the WebSocket standard's own example. -/
def sampleOps : HandshakeOps where
  toHttpOps := uriTexts
  wsAcceptKey _ := "s3pPLMBiTxaQ9kYGzzhZRbK+xOo="
  decode := Str.percentDecode
  formParse query := match Str.split '=' query with
    | [key, value] => [(key, value)]
    | _ => []
  parseUuid := RegistrarState.parseHyphenated
  displayError _ := "http error"

theorem carries_sampleOps : sampleOps.Carries "hub" 7 "dGhlIHNhbXBsZSBub25jZQ==" where
  targets := takesTargets_uriTexts
  room _ _ _ := rfl
  keyText := by decide
  acceptText := by decide
  decode := Str.percentDecode_percentEncode "hub"
  query := by decide
  parseUuid := by decide

/-- A link with blanks around its texts. -/
def blankLink : PeerLinkConfig where
  routeName := hubAdmission.allowedRouteName
  tokenId := some " tok"
  tokenSecret := some "secret\t"
  localNodeId := some "node-1 "
  localNodeName := some "  "
  requestedCapabilities := ⟨3⟩

/-- A gateway with one admission. -/
def hubGateway : UpgradeState := ⟨true, [hubAdmission], none, fun _ => false⟩

/-- The link comes up, with what it is allowed of what it requested and without the blank name. -/
theorem handshake_links_iff_hub :
    let made := handshake sampleOps hubGateway (.fromLink blankLink) 7 "gateway"
      "dGhlIHNhbXBsZSBub25jZQ=="
    made.1 = some (.tokenBound "hub" "tok" 7 "node-1" none .resourceRead .resourceRead) ∧
      made.2 = .ok () := by
  have hiff := handshake_links_iff sampleOps hubGateway (.fromLink blankLink) 7 "gateway"
    "dGhlIHNhbXBsZSBub25jZQ==" carries_sampleOps
  have hlinks : hubGateway.Links (.fromLink blankLink) 7 "gateway"
      (.tokenBound "hub" "tok" 7 "node-1" none .resourceRead .resourceRead) :=
    -- the checks of both ends, one by one
    { named := by decide
      short := by decide
      authorityValid := by decide
      textsValid := by decide
      peering := rfl
      free := rfl
      admits := .inr ⟨by decide, blankLink, hubAdmission, " tok", "secret\t", "node-1 ", rfl,
        { hasTokenId := rfl
          hasTokenSecret := rfl
          hasNodeId := rfl
          visible := by decide
          notBlank := by decide
          first := ⟨[], [], rfl, ⟨⟨by decide, by decide⟩, by decide⟩, by simp⟩
          expected := nofun
          meets := by decide }, by decide⟩ }
  exact ⟨(hiff.1 _).mpr hlinks, hiff.2.mpr ⟨_, hlinks⟩⟩

end Boardwalk
