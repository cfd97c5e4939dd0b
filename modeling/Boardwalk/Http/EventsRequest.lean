import Boardwalk.Events.Topic
import Boardwalk.Http.EventsStream

/-!
# The request for an event stream

`server_events_stream` of `http/routes.rs` up to its `subscribe`, for the server's own name: the
query parameters are checked and become the arguments of the subscription.  With `replay=true` the
topic must name one stream, whose ring `EventsStream` reads after the subscribe.
-/

namespace Boardwalk

/-- `FieldPath::try_parse`. -/
def FieldPath.tryParse (s : String) : Except QueryError FieldPath :=
  if s = "" then .error (.invalidPath "empty path")
  else if (Str.split '.' s).any (·.isEmpty) then
    .error (.invalidPath ("empty segment in `" ++ s ++ "`"))
  else .ok ⟨Str.split '.' s⟩

/-! ### The slow-consumer policy of a query -/

inductive SlowConsumerPolicyQueryError where
  | unexpectedCoalesceKey
  | missingCoalesceKey
  | invalidCoalesceKey (key : String) (source : QueryError)
  | unknown (value : String)
  deriving Repr, DecidableEq

/-- The text of an error. -/
def SlowConsumerPolicyQueryError.display : SlowConsumerPolicyQueryError → String
  | unexpectedCoalesceKey => "coalesceKey requires slowConsumerPolicy=coalesce"
  | missingCoalesceKey => "slowConsumerPolicy=coalesce requires coalesceKey"
  | invalidCoalesceKey key source => "invalid coalesceKey `" ++ key ++ "`: " ++ source.display
  | unknown value => "unknown slowConsumerPolicy `" ++ value ++
      "`; expected disconnect, backpressure, drop-newest, or coalesce"

namespace SlowConsumerPolicy

/-- A policy that takes no key. -/
def withoutKey (policy : SlowConsumerPolicy) (coalesceKey : Option String) :
    Except SlowConsumerPolicyQueryError SlowConsumerPolicy :=
  if coalesceKey.isSome then .error .unexpectedCoalesceKey else .ok policy

/-- `SlowConsumerPolicy::from_query`. -/
def fromQuery (value : String) (coalesceKey : Option String) :
    Except SlowConsumerPolicyQueryError SlowConsumerPolicy :=
  let dashed := value.toList.map fun c => if c = '_' then '-' else c
  let normalized := Str.toAsciiLowercase (.ofList dashed)
  if normalized = "disconnect" then withoutKey .disconnect coalesceKey
  else if normalized = "backpressure" then withoutKey .backpressure coalesceKey
  else if normalized = "drop-newest" ∨ normalized = "dropnewest" then
    withoutKey .dropNewest coalesceKey
  else if normalized = "coalesce" then
    match coalesceKey with
    | none => .error .missingCoalesceKey
    | some key => match FieldPath.tryParse key with
      | .ok keyPath => .ok (.coalesce keyPath)
      | .error source => .error (.invalidCoalesceKey key source)
  else .error (.unknown value)

/-- `SlowConsumerPolicy::query_value`. -/
def queryValue : SlowConsumerPolicy → String × Option String
  | .disconnect => ("disconnect", none)
  | .backpressure => ("backpressure", none)
  | .dropNewest => ("drop-newest", none)
  | .coalesce keyPath => ("coalesce", some (".".intercalate keyPath.segments))

end SlowConsumerPolicy

/-! ### The query -/

/-- `usize::from_str` on a 64-bit target. -/
def parseUsize (s : String) : Option ℕ :=
  let digits := if s.toList.head? = some '+' then s.toList.tail else s.toList
  if digits ≠ [] ∧ digits.all Char.isDigit ∧ Nat.ofDigitChars 10 digits 0 < 2 ^ 64 then
    some (Nat.ofDigitChars 10 digits 0)
  else none

/-- `bool::from_str`. -/
def parseBool (s : String) : Option Bool :=
  if s = "true" then some true else if s = "false" then some false else none

structure EventsQuery where
  topic : Option String := none
  outboundCapacity : Option ℕ := none
  replay : Bool := false
  slowConsumerPolicy : Option String := none
  coalesceKey : Option String := none
  deriving Repr, DecidableEq

/-- The parameter of a name, if there is one; two of one name are an error. -/
def queryParam (pairs : List (String × String)) (name : String) : Option (Option String) :=
  match pairs.filter fun kv => kv.1 == name with
  | [] => some none
  | [kv] => some (some kv.2)
  | _ => none

/-- What serde derives for the parameters of a query; those with other names are ignored. -/
def EventsQuery.ofPairs (pairs : List (String × String)) : Option EventsQuery := do
  let topic ← queryParam pairs "topic"
  let capacity ← queryParam pairs "outboundCapacity"
  let outboundCapacity ← capacity.mapM parseUsize
  let flag ← queryParam pairs "replay"
  let replay ← flag.mapM parseBool
  let slowConsumerPolicy ← queryParam pairs "slowConsumerPolicy"
  let coalesceKey ← queryParam pairs "coalesceKey"
  return { topic, outboundCapacity, replay := replay.getD false, slowConsumerPolicy, coalesceKey }

/-- `stream_id_from_concrete_pattern`.  The kind must be a literal too, but the id does not have
it, and the filter is not looked at. -/
def streamIdFromConcretePattern {ρ : Type} (pattern : TopicPattern ρ) : Option StreamId :=
  match pattern.segments with
  | [.literal node, .literal kind, .literal resource, .literal stream] =>
    if node = "" ∨ kind = "" ∨ resource = "" ∨ stream = "" then none
    else some (.forResource ⟨node⟩ resource stream)
  | _ => none

/-- `subscribe_opts_from_query`. -/
def subscribeOptsFromQuery (query : EventsQuery) : Except String SubscribeOpts :=
  let policyName := query.slowConsumerPolicy.getD "disconnect"
  match SlowConsumerPolicy.fromQuery policyName query.coalesceKey with
  | .ok slowConsumerPolicy =>
    .ok { outboundCapacity := query.outboundCapacity, slowConsumerPolicy }
  | .error err => .error err.display

/-- The body of a `400 Bad Request`: plain text, or the fields of `problem_response`. -/
inductive BadRequest where
  | text (body : String)
  | problem (error message field : String)
  deriving Repr, DecidableEq

/-- What the handler subscribes with and reads from the cache. -/
structure EventsRequest (ρ : Type) where
  pattern : TopicPattern ρ
  replayStreamId : Option StreamId
  opts : SubscribeOpts

/-- The stream to replay, if the query asks for it. -/
def replayStreamIdFromQuery {ρ : Type} (q : EventsQuery) (pattern : TopicPattern ρ) :
    Except BadRequest (Option StreamId) :=
  if q.replay then
    match streamIdFromConcretePattern pattern with
    | some streamId => .ok (some streamId)
    | none => .error (.problem "invalid_replay_topic"
        "replay=true requires a concrete topic=node/kind/resource/stream" "topic")
  else .ok none

/-- `server_events_stream`, up to its `subscribe`. -/
def serverEventsStream {ρ : Type} (ops : TopicOps ρ) (q : EventsQuery) :
    Except BadRequest (EventsRequest ρ) :=
  match q.topic with
  | none => .error (.text "missing ?topic=")
  | some topic =>
    match TopicPattern.parse ops topic with
    | .error e => .error (.text ("topic: " ++ e.display))
    | .ok pattern =>
      match replayStreamIdFromQuery q pattern with
      | .error r => .error r
      | .ok replayStreamId =>
        match subscribeOptsFromQuery q with
        | .error message =>
          .error (.problem "invalid_slow_consumer_policy" message "slowConsumerPolicy")
        | .ok opts => .ok { pattern, replayStreamId, opts }

namespace EventsRequest

variable {ρ : Type} (req : EventsRequest ρ)

/-- The handler's `subscribe`. -/
def subscribe : StreamAction Json (TopicPattern ρ) :=
  .subscribe req.pattern req.opts.outboundCapacity req.opts.slowConsumerPolicy req.replayStreamId

/-- The actions of a run that serves the request: if the handler subscribes, it is with the
arguments of the request. -/
def Serves (a : StreamAction Json (TopicPattern ρ)) : Prop :=
  ∀ topic capacity policy id, a = .subscribe topic capacity policy id → a = req.subscribe

end EventsRequest

end Boardwalk
