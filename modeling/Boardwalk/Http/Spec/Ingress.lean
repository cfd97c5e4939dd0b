import Boardwalk.Http.Ingress

/-!
# Caller ingress fails closed

A request that carries the token-id header should be attested or refused.  The handler learns of the
header through `optional_header`, which also drops values that are not text or are blank:
`resolveCallerIngress_ne_anonymous_iff` says for which values the request is not taken for an
anonymous one.
-/

namespace Boardwalk

/-! ### The header is seen -/

namespace HeaderValue

theorem isVisibleAscii_iff {b : UInt8} :
    isVisibleAscii b = true ↔ (32 ≤ b ∧ b < 127) ∨ b = 9 := by
  simp [isVisibleAscii]

theorem toNat_ofNat_byte (b : UInt8) : (Char.ofNat b.toNat).toNat = b.toNat := by
  have hvalid : b.toNat.isValidChar := .inl (by have := b.toNat_lt; omega)
  rw [Char.ofNat, dif_pos hvalid]
  rfl

/-- Among the bytes of a text value only space and tab are white space. -/
theorem isWhitespace_ofNat_iff {b : UInt8} (hb : isVisibleAscii b = true) :
    Str.isWhitespace (Char.ofNat b.toNat) = true ↔ b = 32 ∨ b = 9 := by
  rw [isVisibleAscii_iff] at hb
  simp only [UInt8.le_iff_toNat_le, UInt8.lt_iff_toNat_lt, ← UInt8.toNat_inj,
    UInt8.toNat_ofNat] at hb ⊢
  simp only [Str.isWhitespace, toNat_ofNat_byte, Bool.or_eq_true, Bool.and_eq_true,
    decide_eq_true_eq, beq_iff_eq]
  omega

/-- The value is text that `to_str` accepts, and it is not blank. -/
def IsText (v : HeaderValue) : Prop :=
  (∀ b ∈ v.bytes, isVisibleAscii b = true) ∧ ∃ b ∈ v.bytes, b ≠ 32 ∧ b ≠ 9

/-- A value that is all visible trims to nothing exactly when it has only spaces and tabs. -/
theorem trim_toStr_eq_empty_iff {v : HeaderValue}
    (hvisible : ∀ b ∈ v.bytes, isVisibleAscii b = true) :
    Str.trim (String.ofList (v.bytes.map fun b => Char.ofNat b.toNat)) = "" ↔
      ∀ b ∈ v.bytes, b = 32 ∨ b = 9 := by
  rw [Str.trim_eq_empty_iff, String.toList_ofList]
  constructor
  · intro h b hb
    exact (isWhitespace_ofNat_iff (hvisible b hb)).mp (h _ (List.mem_map_of_mem hb))
  · intro h c hc
    obtain ⟨b, hb, rfl⟩ := List.mem_map.mp hc
    exact (isWhitespace_ofNat_iff (hvisible b hb)).mpr (h b hb)

end HeaderValue

/-- `optional_header` sees a header that is there exactly when its first value is text and not
blank. -/
theorem optionalHeader_eq_none_iff {headers : HeaderMap} {name : String} {v : HeaderValue}
    (hget : headers.get name = some v) : optionalHeader headers name = none ↔ ¬ v.IsText := by
  have hopt : optionalHeader headers name =
      v.toStr.filter fun value => !(Str.trim value).isEmpty := by
    rw [optionalHeader, hget, Option.bind_some]
  rw [hopt]
  -- `to_str` decides first, then the blank check
  by_cases hvisible : ∀ b ∈ v.bytes, HeaderValue.isVisibleAscii b = true
  · have htext : v.IsText ↔ ¬ ∀ b ∈ v.bytes, b = 32 ∨ b = 9 := by
      rw [HeaderValue.IsText, and_iff_right hvisible]
      push Not
      rfl
    rw [htext, not_not, ← HeaderValue.trim_toStr_eq_empty_iff hvisible]
    simp [HeaderValue.toStr, List.all_eq_true.mpr hvisible, Option.filter_some]
  · have hnone : v.toStr = none := by
      unfold HeaderValue.toStr
      rw [if_neg fun hall => hvisible (List.all_eq_true.mp hall)]
    rw [hnone]
    exact ⟨fun _ htext => hvisible htext.1, fun _ => rfl⟩

/-! ### The request is attested or refused -/

/-- Only a request whose token-id header is not seen is anonymous. -/
theorem resolveCallerIngress_eq_anonymous_iff {headers : HeaderMap}
    {admissions : List PeerAdmissionConfig} {senders : ℕ → PeerSenders} :
    resolveCallerIngress headers admissions senders = .ok none ↔
      optionalHeader headers PEER_TOKEN_ID_HEADER = none := by
  unfold resolveCallerIngress
  split
  · rename_i h
    exact ⟨fun _ => h, fun _ => rfl⟩
  · rename_i tokenId h
    rw [h]
    refine ⟨fun hr => ?_, nofun⟩
    -- every path from here on is a denial or names the caller
    split at hr
    · cases hr
    · split at hr
      · cases hr
      · split at hr
        · cases hr
        · dsimp only at hr
          split at hr <;> cases hr

/-- **Caller ingress fails closed** exactly on the text values: a request with the token-id header
is not taken for an anonymous one exactly when the first value of the header has only visible ASCII
characters and tabs, and is not blank. -/
theorem resolveCallerIngress_ne_anonymous_iff (headers : HeaderMap)
    (admissions : List PeerAdmissionConfig) (senders : ℕ → PeerSenders) (v : HeaderValue)
    (hget : headers.get PEER_TOKEN_ID_HEADER = some v) :
    resolveCallerIngress headers admissions senders ≠ .ok none ↔
      (∀ b ∈ v.bytes, (32 ≤ b ∧ b < 127) ∨ b = 9) ∧ ∃ b ∈ v.bytes, b ≠ 32 ∧ b ≠ 9 := by
  rw [ne_eq, resolveCallerIngress_eq_anonymous_iff, optionalHeader_eq_none_iff hget, not_not]
  simp only [HeaderValue.IsText, HeaderValue.isVisibleAscii_iff]

/-- A gateway with one admission for the route `hub`. -/
def hubAdmission : PeerAdmissionConfig where
  allowedRouteName := ⟨"hub", by decide⟩
  tokenId := "tok"
  tokenVerifier := ⟨"secret"⟩
  expectedNodeId := none
  allowedCapabilities := .resourceRead

/-- The value `tok`. -/
def tokValue : HeaderValue := ⟨[116, 111, 107], rfl⟩

/-- Without a bearer token the request is refused. -/
theorem resolveCallerIngress_tokValue :
    HeaderMap.get [(PEER_TOKEN_ID_HEADER, tokValue)] PEER_TOKEN_ID_HEADER = some tokValue ∧
      resolveCallerIngress [(PEER_TOKEN_ID_HEADER, tokValue)] [hubAdmission]
        (fun _ => PeerAcceptors.toPeerSenders {}) ≠ .ok none :=
  ⟨rfl, (resolveCallerIngress_ne_anonymous_iff _ [hubAdmission] _ tokValue rfl).mpr
    ⟨by simp [tokValue], 116, by simp [tokValue], by decide, by decide⟩⟩

/-- A value with a byte outside ASCII. -/
def nonAsciiValue : HeaderValue := ⟨[116, 111, 107, 0xE9], rfl⟩

/-- The value of a header line with nothing after the colon. -/
def emptyValue : HeaderValue := ⟨[], rfl⟩

/-- **A present header that is not seen makes the request anonymous.** -/
theorem anonymous_with_tokenId_header :
    (HeaderMap.get [(PEER_TOKEN_ID_HEADER, nonAsciiValue)] PEER_TOKEN_ID_HEADER =
        some nonAsciiValue ∧
      resolveCallerIngress [(PEER_TOKEN_ID_HEADER, nonAsciiValue)] [hubAdmission]
        (fun _ => PeerAcceptors.toPeerSenders {}) = .ok none) ∧
    HeaderMap.get [(PEER_TOKEN_ID_HEADER, emptyValue)] PEER_TOKEN_ID_HEADER = some emptyValue ∧
      resolveCallerIngress [(PEER_TOKEN_ID_HEADER, emptyValue)] [hubAdmission]
        (fun _ => PeerAcceptors.toPeerSenders {}) = .ok none :=
  ⟨⟨rfl, rfl⟩, rfl, rfl⟩

end Boardwalk
