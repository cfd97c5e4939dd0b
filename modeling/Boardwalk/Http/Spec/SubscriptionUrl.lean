import Boardwalk.Events.Spec.Topic
import Boardwalk.Http.Links

/-!
# What a subscription URL decodes to

The builder leaves out what is the default, and joins the segments of a key path with dots.  The
route restores the defaults and splits the path again, so that it subscribes with what the URL was
built from (`url_decodes`).  The policy of a query is read back from the spelling that the builder
gives it, whichever spelling it came from (`fromQuery_queryValue_of_ok`).
-/

namespace Boardwalk

/-! ### Key paths and policies -/

/-- A path is read off dotted text exactly when no segment of it is empty. -/
theorem tryParse_eq_ok_iff {s : String} {path : FieldPath} :
    FieldPath.tryParse s = .ok path ↔
      s ≠ "" ∧ (Str.split '.' s).any (·.isEmpty) = false ∧ path.segments = Str.split '.' s := by
  unfold FieldPath.tryParse
  split
  · rename_i hempty
    simp [hempty]
  · rename_i hne
    split
    · rename_i hany
      simp [hany]
    · rename_i hany
      rw [Except.ok.injEq]
      constructor
      · rintro rfl
        exact ⟨hne, Bool.eq_false_iff.mpr hany, rfl⟩
      · rintro ⟨-, -, hsegs⟩
        rw [← hsegs]

/-- A path that was parsed parses again from its segments. -/
theorem tryParse_join {s : String} {path : FieldPath} (h : FieldPath.tryParse s = .ok path) :
    FieldPath.tryParse (".".intercalate path.segments) = .ok path := by
  have hjoin : ".".intercalate path.segments = s := by
    rw [(tryParse_eq_ok_iff.mp h).2.2]
    exact Str.intercalate_split '.' s
  rw [hjoin]
  exact h

namespace SlowConsumerPolicy

/-- The key path of the policy is one that `try_parse` gives. -/
def KeyParses (p : SlowConsumerPolicy) : Prop :=
  ∀ path, p = .coalesce path → ∃ s, FieldPath.tryParse s = .ok path

/-- A policy is read back from its own spelling. -/
theorem fromQuery_queryValue {p : SlowConsumerPolicy} (h : p.KeyParses) :
    fromQuery p.queryValue.1 p.queryValue.2 = .ok p := by
  cases p with
  | disconnect => decide
  | backpressure => decide
  | dropNewest => decide
  | coalesce path =>
    obtain ⟨s, hs⟩ := h path rfl
    have hname : Str.toAsciiLowercase (.ofList ("coalesce".toList.map fun c =>
        if c = '_' then '-' else c)) = "coalesce" := by
      decide
    simp only [queryValue, fromQuery, hname, tryParse_join hs]
    simp

/-- The key path of a policy that was read from a query. -/
theorem keyParses_of_fromQuery {value : String} {key : Option String} {p : SlowConsumerPolicy}
    (h : fromQuery value key = .ok p) : p.KeyParses := by
  -- the policies without a key read it as absent
  have hplain : ∀ {q : SlowConsumerPolicy}, withoutKey q key = .ok p → p = q := by
    intro q hq
    unfold withoutKey at hq
    split at hq
    · cases hq
    · cases hq
      rfl
  rintro path rfl
  -- only `coalesce` reads a key, and it parses it
  unfold fromQuery at h
  simp only at h
  split at h
  · cases hplain h
  · split at h
    · cases hplain h
    · split at h
      · cases hplain h
      · split at h
        · split at h
          · cases h
          · rename_i text
            split at h
            · rename_i hparse
              cases h
              exact ⟨text, hparse⟩
            · cases h
        · cases h

end SlowConsumerPolicy

/-! ### Numbers and parameters -/

/-- A number of 64 bits is read back from its digits. -/
theorem parseUsize_toString {n : ℕ} (h : n < 2 ^ 64) : parseUsize (toString n) = some n := by
  have htext : (toString n).toList = Nat.toDigits 10 n := Nat.toList_repr
  have hdigit : ∀ c ∈ Nat.toDigits 10 n, c.isDigit = true := fun c hc =>
    Nat.isDigit_of_mem_toDigits (by decide) (by decide) hc
  have hplus : (Nat.toDigits 10 n).head? ≠ some '+' := by
    intro hhead
    have hdig := hdigit '+' (List.mem_of_head? hhead)
    revert hdig
    decide
  unfold parseUsize
  rw [htext, if_neg hplus]
  simp only [Nat.ofDigitChars_ten_toDigits]
  rw [if_pos ⟨Nat.toDigits_ne_nil, List.all_eq_true.mpr hdigit, h⟩]

/-- All the parameters have one of the names. -/
def Named (names : List String) (pairs : List (String × String)) : Prop :=
  ∀ kv ∈ pairs, kv.1 ∈ names

section Named

variable {pairs pairs' : List (String × String)} {names names' : List String} {name : String}

theorem Named.append (h : Named names pairs) (h' : Named names' pairs') :
    Named (names ++ names') (pairs ++ pairs') := by
  intro kv hkv
  rcases List.mem_append.mp hkv with hkv | hkv
  · exact List.mem_append_left names' (h kv hkv)
  · exact List.mem_append_right names (h' kv hkv)

theorem Named.filter_eq_nil (h : Named names pairs) (hname : name ∉ names) :
    pairs.filter (fun kv => kv.1 == name) = [] := by
  rw [List.filter_eq_nil_iff]
  intro kv hkv heq
  rw [← beq_iff_eq.mp heq] at hname
  exact hname (h kv hkv)

/-- Parameters of other names do not matter. -/
theorem queryParam_append_left (h : Named names pairs) (hname : name ∉ names) :
    queryParam (pairs ++ pairs') name = queryParam pairs' name := by
  unfold queryParam
  rw [List.filter_append, h.filter_eq_nil hname, List.nil_append]

theorem queryParam_append_right (h : Named names pairs') (hname : name ∉ names) :
    queryParam (pairs ++ pairs') name = queryParam pairs name := by
  unfold queryParam
  rw [List.filter_append, h.filter_eq_nil hname, List.append_nil]

end Named

namespace SubscriptionUrl

variable (url : SubscriptionUrl)

/-- The capacity that the subscription of the URL has. -/
def resolvedOutboundCapacity : ℕ :=
  (url.outboundCapacity.map UInt64.toNat).getD DEFAULT_OUTBOUND_CAPACITY

theorem named_topic : Named ["topic"] [("topic", url.topic)] := by
  simp [Named]

theorem named_capacityPairs : Named ["outboundCapacity"] url.capacityPairs := by
  unfold capacityPairs
  split
  · split <;> simp [Named]
  · simp [Named]

theorem named_replayPairs : Named ["replay"] url.replayPairs := by
  unfold replayPairs
  split <;> simp [Named]

theorem named_policyPairs : Named ["slowConsumerPolicy", "coalesceKey"] url.policyPairs := by
  unfold policyPairs
  split
  · cases url.slowConsumerPolicy <;> simp [Named, SlowConsumerPolicy.queryValue]
  · simp [Named]

theorem queryParam_topic : queryParam url.queryPairs "topic" = some (some url.topic) := by
  unfold queryPairs
  rw [queryParam_append_right url.named_policyPairs (by decide),
    queryParam_append_right url.named_replayPairs (by decide),
    queryParam_append_right url.named_capacityPairs (by decide)]
  simp [queryParam]

theorem queryParam_outboundCapacity :
    queryParam url.queryPairs "outboundCapacity" =
      queryParam url.capacityPairs "outboundCapacity" := by
  unfold queryPairs
  rw [queryParam_append_right url.named_policyPairs (by decide),
    queryParam_append_right url.named_replayPairs (by decide),
    queryParam_append_left url.named_topic (by decide)]

theorem queryParam_replay :
    queryParam url.queryPairs "replay" = queryParam url.replayPairs "replay" := by
  unfold queryPairs
  rw [queryParam_append_right url.named_policyPairs (by decide),
    queryParam_append_left (url.named_topic.append url.named_capacityPairs) (by decide)]

theorem queryParam_policy {name : String} (hname : name = "slowConsumerPolicy" ∨
    name = "coalesceKey") : queryParam url.queryPairs name = queryParam url.policyPairs name := by
  have hother : name ∉ ["topic"] ++ ["outboundCapacity"] ++ ["replay"] := by
    rcases hname with rfl | rfl <;> decide
  unfold queryPairs
  rw [queryParam_append_left ((url.named_topic.append url.named_capacityPairs).append
    url.named_replayPairs) hother]

/-- The capacity that is left out is the default. -/
theorem capacityPairs_decode : ∃ text capacity,
    queryParam url.capacityPairs "outboundCapacity" = some text ∧
    text.mapM parseUsize = some capacity ∧
    capacity.getD DEFAULT_OUTBOUND_CAPACITY = url.resolvedOutboundCapacity := by
  unfold capacityPairs resolvedOutboundCapacity
  rcases url.outboundCapacity with _ | c
  · exact ⟨none, none, rfl, rfl, rfl⟩
  · by_cases hc : c.toNat = DEFAULT_OUTBOUND_CAPACITY
    · exact ⟨none, none, by simp [hc, queryParam], rfl, by simp [hc]⟩
    · refine ⟨some (toString c.toNat), some c.toNat, by simp [hc, queryParam], ?_, rfl⟩
      rw [Option.mapM_some, parseUsize_toString c.toNat_lt]
      rfl

/-- The flag that is left out is `false`. -/
theorem replayPairs_decode : ∃ text replay,
    queryParam url.replayPairs "replay" = some text ∧ text.mapM parseBool = some replay ∧
    replay.getD false = url.replay := by
  unfold replayPairs
  cases url.replay
  · exact ⟨none, none, rfl, rfl, rfl⟩
  · exact ⟨some "true", some true, by simp [queryParam], rfl, rfl⟩

/-- The policy that is left out is `Disconnect`. -/
theorem policyPairs_decode : ∃ policy,
    queryParam url.policyPairs "slowConsumerPolicy" = some policy ∧
    policy.getD "disconnect" = url.slowConsumerPolicy.queryValue.1 ∧
    queryParam url.policyPairs "coalesceKey" = some url.slowConsumerPolicy.queryValue.2 := by
  unfold policyPairs
  cases url.slowConsumerPolicy with
  | disconnect => exact ⟨none, rfl, rfl, rfl⟩
  | backpressure =>
    exact ⟨some "backpressure", by simp [queryParam, SlowConsumerPolicy.queryValue], rfl,
      by simp [queryParam, SlowConsumerPolicy.queryValue]⟩
  | dropNewest =>
    exact ⟨some "drop-newest", by simp [queryParam, SlowConsumerPolicy.queryValue], rfl,
      by simp [queryParam, SlowConsumerPolicy.queryValue]⟩
  | coalesce path =>
    exact ⟨some "coalesce", by simp [queryParam, SlowConsumerPolicy.queryValue], rfl,
      by simp [queryParam, SlowConsumerPolicy.queryValue]⟩

/-- The parameters of a URL, decoded: the defaults restore what was left out. -/
theorem ofPairs_queryPairs : ∃ q, EventsQuery.ofPairs url.queryPairs = some q ∧
    q.topic = some url.topic ∧ q.replay = url.replay ∧
    q.outboundCapacity.getD DEFAULT_OUTBOUND_CAPACITY = url.resolvedOutboundCapacity ∧
    q.slowConsumerPolicy.getD "disconnect" = url.slowConsumerPolicy.queryValue.1 ∧
    q.coalesceKey = url.slowConsumerPolicy.queryValue.2 := by
  obtain ⟨text, capacity, htext, hparse, hcapacity⟩ := url.capacityPairs_decode
  obtain ⟨flag, replay, hflag, hbool, hreplay⟩ := url.replayPairs_decode
  obtain ⟨policy, hpolicy, hname, hkey⟩ := url.policyPairs_decode
  refine ⟨⟨some url.topic, capacity, replay.getD false, policy,
    url.slowConsumerPolicy.queryValue.2⟩, ?_, rfl, hreplay, hcapacity, hname, rfl⟩
  unfold EventsQuery.ofPairs
  rw [queryParam_topic, queryParam_outboundCapacity, htext, queryParam_replay, hflag,
    queryParam_policy url (.inl rfl), hpolicy, queryParam_policy url (.inr rfl), hkey]
  simp only [Option.bind_eq_bind, Option.bind_some, hparse, hbool]
  rfl

/-- The path of the URL has no `?`, whatever the name of the node. -/
theorem hrefQuery_relativeHref (serialize : List (String × String) → String) :
    hrefQuery (url.relativeHref serialize) = some (serialize url.queryPairs) := by
  have hpath : '?' ∉ ("/servers/" ++ Str.percentEncode url.node ++ "/events").toList := by
    have hnode := Str.question_not_mem_percentEncode url.node
    simp [hnode]
  have hcut : url.relativeHref serialize =
      "/servers/" ++ Str.percentEncode url.node ++ "/events" ++ "?" ++
        serialize url.queryPairs := by
    have hmark : "/events?" = "/events" ++ "?" := by decide
    unfold relativeHref
    rw [hmark]
    simp only [String.append_assoc]
  unfold hrefQuery
  rw [hcut, TopicPattern.splitSuffix_append hpath]

end SubscriptionUrl

/-- **A subscription URL decodes to what it was built from**, where the query is parsed to the
parameters that were serialized and the key path of a coalescing policy is one that parses.  And
whatever a policy was read from, it is read again from its own spelling. -/
theorem url_decodes (serialize : List (String × String) → String)
    (parseForm : String → List (String × String)) (url : SubscriptionUrl)
    (hform : parseForm (serialize url.queryPairs) = url.queryPairs)
    (hpolicy : url.slowConsumerPolicy.KeyParses) :
    (∃ query q opts, hrefQuery (url.relativeHref serialize) = some query ∧
      EventsQuery.ofPairs (parseForm query) = some q ∧ subscribeOptsFromQuery q = .ok opts ∧
      q.topic = some url.topic ∧ q.replay = url.replay ∧
      opts.resolvedOutboundCapacity = url.resolvedOutboundCapacity ∧
      opts.slowConsumerPolicy = url.slowConsumerPolicy) ∧
    ∀ (value : String) (key : Option String) (p : SlowConsumerPolicy),
      SlowConsumerPolicy.fromQuery value key = .ok p →
      SlowConsumerPolicy.fromQuery p.queryValue.1 p.queryValue.2 = .ok p := by
  -- the pairs read back as they were written, so the options do
  constructor
  · obtain ⟨q, hq, htopic, hreplay, hcapacity, hname, hkey⟩ := url.ofPairs_queryPairs
    have hread := SlowConsumerPolicy.fromQuery_queryValue hpolicy
    refine ⟨serialize url.queryPairs, q,
      { outboundCapacity := q.outboundCapacity, slowConsumerPolicy := url.slowConsumerPolicy },
      url.hrefQuery_relativeHref serialize, by rw [hform, hq], ?_, htopic, hreplay, hcapacity, rfl⟩
    unfold subscribeOptsFromQuery
    simp only [hname, hkey, hread]
  · intro value key p h
    exact SlowConsumerPolicy.fromQuery_queryValue (SlowConsumerPolicy.keyParses_of_fromQuery h)

/-! ### Form encoding of ASCII texts -/

/-- One byte of `form_urlencoded::byte_serialize`. -/
def formByte (b : UInt8) : List Char :=
  if b = 0x20 then ['+']
  else if b = 0x2A then ['*']
  else if b = 0x7E then ['%', '7', 'E']
  else Str.percentEncodeByte b

def formText (s : String) : String := String.ofList (s.toUTF8.data.toList.flatMap formByte)

/-- `form_urlencoded::Serializer`. -/
def formSerialize (pairs : List (String × String)) : String :=
  "&".intercalate (pairs.map fun kv => formText kv.1 ++ "=" ++ formText kv.2)

/-- The value of a hexadecimal digit. -/
def hexValue (c : Char) : ℕ := if c.isDigit then c.toNat - 48 else c.toUpper.toNat - 55

/-- A name or a value, read back; every byte stands for a character. -/
def formRead : List Char → List Char
  | '%' :: a :: b :: cs => Char.ofNat (16 * hexValue a + hexValue b) :: formRead cs
  | '+' :: cs => ' ' :: formRead cs
  | c :: cs => c :: formRead cs
  | [] => []

/-- `form_urlencoded::parse`. -/
def formParse (s : String) : List (String × String) :=
  ((Str.split '&' s).filter (· ≠ "")).map fun pair =>
    (.ofList (formRead (pair.toList.takeWhile (· ≠ '='))),
      .ofList (formRead ((pair.toList.dropWhile (· ≠ '=')).drop 1)))

/-- The progress of a job, coalesced by a key. -/
def progressUrl : SubscriptionUrl where
  node := "runner"
  topic := "runner/job/id&1/progress"
  outboundCapacity := some 16
  replay := true
  slowConsumerPolicy := .coalesce ⟨["data", "coalesceKey"]⟩

example : progressUrl.relativeHref formSerialize =
    "/servers/runner/events?topic=runner%2Fjob%2Fid%261%2Fprogress&outboundCapacity=16" ++
      "&replay=true&slowConsumerPolicy=coalesce&coalesceKey=data.coalesceKey" := by
  decide +kernel

theorem url_decodes_progress : ∃ query q opts,
    hrefQuery (progressUrl.relativeHref formSerialize) = some query ∧
    EventsQuery.ofPairs (formParse query) = some q ∧ subscribeOptsFromQuery q = .ok opts ∧
    q.topic = some "runner/job/id&1/progress" ∧ q.replay = true ∧
    opts.resolvedOutboundCapacity = 16 ∧
    opts.slowConsumerPolicy = .coalesce ⟨["data", "coalesceKey"]⟩ := by
  have hform : formParse (formSerialize progressUrl.queryPairs) = progressUrl.queryPairs := by
    unfold formParse formSerialize
    rw [show "&" = String.singleton '&' from rfl,
      Str.split_intercalate (by simp [SubscriptionUrl.queryPairs]) (by decide)]
    decide
  refine (url_decodes formSerialize formParse progressUrl hform ?_).1
  rintro path h
  cases h
  exact ⟨"data.coalesceKey", tryParse_eq_ok_iff.mpr (by decide)⟩

end Boardwalk
