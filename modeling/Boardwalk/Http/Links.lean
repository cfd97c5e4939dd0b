import Boardwalk.Http.EventsRequest

/-!
# Link builders

`links.rs`: the address of a resource, the topic of its streams, and the URL that subscribes to one
of them.  The topic is the text of a pattern for the server that the URL names.  The serializer of
the query is a parameter (`url::form_urlencoded`).
-/

namespace Boardwalk

/-- `ResourceRef`: the address of a resource. -/
structure ResourceRef where
  node : String
  kind : String
  resourceId : String
  deriving Repr, DecidableEq

/-- `ResourceRef::topic`. -/
def ResourceRef.topic (r : ResourceRef) (stream : String) : String :=
  r.node ++ "/" ++ r.kind ++ "/" ++ r.resourceId ++ "/" ++ stream

structure SubscriptionUrl where
  node : String
  topic : String
  outboundCapacity : Option UInt64
  replay : Bool
  slowConsumerPolicy : SlowConsumerPolicy
  deriving Repr, DecidableEq

namespace SubscriptionUrl

/-- `SubscriptionUrl::for_resource_ref`; the builder's other methods set one field each. -/
def forResourceRef (r : ResourceRef) (stream : String) : SubscriptionUrl where
  node := r.node
  topic := r.topic stream
  outboundCapacity := none
  replay := false
  slowConsumerPolicy := .disconnect

variable (url : SubscriptionUrl)

/-- The parameter of the capacity, which is left out when it is the default. -/
def capacityPairs : List (String × String) :=
  match url.outboundCapacity with
  | some capacity =>
    if capacity.toNat ≠ DEFAULT_OUTBOUND_CAPACITY then
      [("outboundCapacity", toString capacity.toNat)]
    else []
  | none => []

/-- The parameter of the replay flag. -/
def replayPairs : List (String × String) := if url.replay then [("replay", "true")] else []

/-- The parameters of the policy, which are left out for `Disconnect`. -/
def policyPairs : List (String × String) :=
  if url.slowConsumerPolicy ≠ .disconnect then
    ("slowConsumerPolicy", url.slowConsumerPolicy.queryValue.1) ::
      (url.slowConsumerPolicy.queryValue.2.map fun key => ("coalesceKey", key)).toList
  else []

/-- The parameters that `relative_href` appends to the query. -/
def queryPairs : List (String × String) :=
  [("topic", url.topic)] ++ url.capacityPairs ++ url.replayPairs ++ url.policyPairs

/-- `SubscriptionUrl::relative_href`. -/
def relativeHref (serialize : List (String × String) → String) : String :=
  "/servers/" ++ Str.percentEncode url.node ++ "/events?" ++ serialize url.queryPairs

end SubscriptionUrl

/-- The query of a relative reference: what follows its first `?`. -/
def hrefQuery (href : String) : Option String := (TopicPattern.splitSuffix href).2

end Boardwalk
