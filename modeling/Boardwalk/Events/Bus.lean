import Boardwalk.Events.Coalesce
import Boardwalk.Events.Replay
import Boardwalk.Lib.Channel
import Boardwalk.Lib.Machine

/-!
# The event bus

`events/bus.rs` as a machine.  Its state is the bus (`subs`, the replay cache, the registry), the
channels that subscribers and publishers share with it, and the publish calls in progress.  A call
goes through the phases of the source: the size check, the replay record, the loop under the `subs`
mutex, and for the async `publish` one send and one commit per match.  One action is one atomic
operation: a critical section without inner shared state (`commit`, a guard's drop, `unsubscribe`),
one iteration of a loop that holds the mutex (`visit`), or one channel operation made outside the
mutex.  The loops visit the entries in any order, as the source's `HashMap` does.

The channel of a subscription is addressed by the subscription's id: the entry holds one sender, a
call that matched the entry holds a clone until it returns, and the consumer holds the receiver.

`hist` records what happened to each subscription (its options, the envelopes claimed for it, the
deliveries committed to it).  It is a history variable: no operation reads it.
-/

namespace Boardwalk

/-- What the bus calls in other modules: the topic matcher, the coalesce key and the serialised size
of an envelope (zero when it does not serialise). -/
structure BusOps (δ τ κ : Type) where
  matchesEvent : τ → String → δ → Bool
  extractKey : EventEnvelope δ → FieldPath → Option κ
  serializedSize : EventEnvelope δ → ℕ

/-- `REASON_SLOW_CONSUMER`. -/
def REASON_SLOW_CONSUMER : String := "slow_consumer"

/-- The largest capacity a bounded channel accepts (`usize::MAX >> 3` on a 64-bit target). -/
def MAX_PERMITS : ℕ := 0x1FFFFFFFFFFFFFFF

structure SlowConsumerNotice where
  streamId : Option StreamId
  lastDeliveredSequence : Option UInt64
  reason : String
  deriving Repr, DecidableEq

/-- Which kind of queue a subscription has. -/
inductive Outbound where
  | mpsc
  | coalesce
  deriving Repr, DecidableEq

/-- The queue `subscribe` builds for a policy. -/
def SlowConsumerPolicy.outbound : SlowConsumerPolicy → Outbound
  | .coalesce _ => .coalesce
  | _ => .mpsc

structure SubscriptionInner (τ : Type) where
  topic : τ
  outbound : Outbound
  remaining : Option ℕ
  slowConsumerPolicy : SlowConsumerPolicy
  inFlight : ℕ := 0
  lastDelivered : Option (StreamId × UInt64) := none
  /-- The one-shot sender has not been taken. -/
  slowConsumerNotify : Bool := true
  deriving Repr, DecidableEq

namespace SubscriptionInner

variable {τ : Type}

/-- The notice built from the last delivery. -/
def notice (sub : SubscriptionInner τ) : SlowConsumerNotice :=
  { streamId := sub.lastDelivered.map (·.1)
    lastDeliveredSequence := sub.lastDelivered.map (·.2)
    reason := REASON_SLOW_CONSUMER }

/-- Claims a delivery slot for an async publish; `none` when the quota is used up. -/
def claim (sub : SubscriptionInner τ) : Option (SubscriptionInner τ) :=
  match sub.remaining with
  | some 0 => none
  -- an unlimited subscription counts the claim too
  | rem => some { sub with remaining := rem.map (· - 1), inFlight := sub.inFlight + 1 }

/-- Gives a claimed slot back, as the `Dropped` commit and `ClaimGuard::drop` do. -/
def refund (sub : SubscriptionInner τ) : SubscriptionInner τ :=
  { sub with inFlight := sub.inFlight - 1, remaining := sub.remaining.map (· + 1) }

/-- The entry after the `Delivered` commit of an envelope at `pos`. -/
def deliver (sub : SubscriptionInner τ) (pos : StreamId × UInt64) : SubscriptionInner τ :=
  { sub with lastDelivered := some pos, inFlight := sub.inFlight - 1 }

/-- The quota is used up and no claim is outstanding. -/
def exhausted (sub : SubscriptionInner τ) : Bool :=
  sub.remaining == some 0 && sub.inFlight == 0

/-- The entry after a delivery made under the mutex, which decrements the quota itself. -/
def deliverNow (sub : SubscriptionInner τ) (pos : StreamId × UInt64) : SubscriptionInner τ :=
  { sub with lastDelivered := some pos, remaining := sub.remaining.map (· - 1) }

end SubscriptionInner

/-- A matched entry of an async publish, with the policy read under the mutex. -/
structure Match where
  id : SubscriptionId
  slowConsumerPolicy : SlowConsumerPolicy
  deriving Repr, DecidableEq

inductive SendResult where
  | delivered
  | dropped
  | disconnectSlowConsumer
  | closed
  deriving Repr, DecidableEq

inductive PublishApi where
  | publish
  | tryPublish
  deriving Repr, DecidableEq

/-- Where a publish call stands. -/
inductive Phase where
  /-- Before the size check. -/
  | check
  /-- Too large, before the registry entry is evicted. -/
  | reject (limit : ℕ)
  /-- Before the replay cache records the envelope. -/
  | record
  /-- The ring evicted this id, before the registry forgets it. -/
  | evict (id : EventId)
  /-- Before taking the `subs` mutex. -/
  | acquire
  /-- In the loop over the entries, holding the mutex. -/
  | fanout
  /-- Before `try_send` to the first match that is not committed. -/
  | send
  /-- Awaiting a permit of a full `Backpressure` queue. -/
  | await
  /-- The permit is granted, the send future not yet polled again. -/
  | granted
  /-- The outcome is known, before taking the mutex to commit it. -/
  | commit (outcome : SendResult)
  /-- The future was dropped; its active guards are dropped one by one. -/
  | unwind
  | returned (result : PublishResult)
  | rejected (err : PublishError)
  | cancelled
  /-- An `unreachable!` was hit. -/
  | panicked
  deriving Repr, DecidableEq

structure Call (δ : Type) where
  api : PublishApi
  envelope : EventEnvelope δ
  phase : Phase := .check
  /-- The entries the loop has still to visit. -/
  todo : List SubscriptionId := []
  toRemove : List SubscriptionId := []
  /-- All matches: the sender clones the call holds. -/
  matched : List Match := []
  /-- The matches whose claim guard is active, that is, not yet committed. -/
  guards : List Match := []
  result : PublishResult := {}
  deriving Repr, DecidableEq

/-- What happened to one subscription. -/
structure History (δ : Type) where
  opts : Option SubscribeOpts := none
  claimed : List (EventEnvelope δ) := []
  committed : ℕ := 0

structure Bus (δ τ : Type) where
  nextId : ℕ := 1
  subs : SubscriptionId → Option (SubscriptionInner τ) := fun _ => none
  registry : StreamRegistry := {}
  replayCache : StreamReplayCache δ := {}
  maxEventSize : ℕ := DEFAULT_MAX_EVENT_SIZE_BYTES
  /-- The call that holds the `subs` mutex in its loop. -/
  lock : Option ℕ := none
  mpsc : SubscriptionId → Mpsc (EventEnvelope δ) := fun _ => { capacity := 0 }
  coalesce : SubscriptionId → CoalesceState δ := fun _ => { capacity := 0, keyPath := ⟨[]⟩ }
  /-- The slow-consumer one-shot of each subscription. -/
  notify : SubscriptionId → Oneshot SlowConsumerNotice := fun _ => .pending
  calls : List (Call δ) := []
  hist : SubscriptionId → History δ := fun _ => {}

namespace Bus

variable {δ τ κ : Type} [DecidableEq κ]

/-! ### Entries and calls -/

def setSub (b : Bus δ τ) (i : SubscriptionId) (sub : SubscriptionInner τ) : Bus δ τ :=
  { b with subs := Function.update b.subs i (some sub) }

def setCall (b : Bus δ τ) (k : ℕ) (c : Call δ) : Bus δ τ := { b with calls := b.calls.set k c }

def setMpsc (b : Bus δ τ) (i : SubscriptionId) (q : Mpsc (EventEnvelope δ)) : Bus δ τ :=
  { b with mpsc := Function.update b.mpsc i q }

/-- The ids in the map. -/
def keys (b : Bus δ τ) : List SubscriptionId :=
  (List.range b.nextId).filter fun i => (b.subs i).isSome

/-- Removes an entry; dropping it drops its one-shot sender. -/
def remove (b : Bus δ τ) (i : SubscriptionId) : Bus δ τ :=
  match b.subs i with
  | none => b
  | some _ =>
    { b with
      subs := Function.update b.subs i none
      notify := Function.update b.notify i (b.notify i).dropSender }

/-- Removes an entry and closes its coalesce queue, as `unsubscribe` and both loops do. -/
def reap (b : Bus δ τ) (i : SubscriptionId) : Bus δ τ :=
  match b.subs i with
  | some { outbound := .coalesce, .. } =>
    { b.remove i with coalesce := Function.update b.coalesce i (b.coalesce i).close }
  | _ => b.remove i

/-- Fires the slow-consumer notice of an entry if it has not been fired. -/
def fireNotice (b : Bus δ τ) (i : SubscriptionId) (sub : SubscriptionInner τ) : Bus δ τ :=
  if sub.slowConsumerNotify then
    { b.setSub i { sub with slowConsumerNotify := false } with
      notify := Function.update b.notify i ((b.notify i).send sub.notice) }
  else b

def recordClaim (b : Bus δ τ) (i : SubscriptionId) (env : EventEnvelope δ) : Bus δ τ :=
  { b with
    hist := Function.update b.hist i { b.hist i with claimed := (b.hist i).claimed ++ [env] } }

def recordCommit (b : Bus δ τ) (i : SubscriptionId) : Bus δ τ :=
  { b with
    hist := Function.update b.hist i { b.hist i with committed := (b.hist i).committed + 1 } }

/-! ### `subscribe` and `unsubscribe` -/

/-- `EventBus::subscribe`.  Building a bounded channel with a capacity it does not accept panics
before the entry is inserted, after the id was taken. -/
def subscribe (b : Bus δ τ) (topic : τ) (opts : SubscribeOpts) : Bus δ τ :=
  let id := b.nextId
  let capacity := opts.resolvedOutboundCapacity
  let entry : SubscriptionInner τ :=
    { topic, outbound := opts.slowConsumerPolicy.outbound, remaining := opts.limit,
      slowConsumerPolicy := opts.slowConsumerPolicy }
  let b' : Bus δ τ :=
    { b.setSub id entry with
      nextId := id + 1
      notify := Function.update b.notify id .pending
      hist := Function.update b.hist id { opts := some opts } }
  match opts.slowConsumerPolicy with
  | .coalesce keyPath =>
    { b' with coalesce := Function.update b.coalesce id (CoalesceState.new capacity keyPath) }
  | _ =>
    -- `mpsc::channel` panics outside these bounds
    if 1 ≤ capacity ∧ capacity ≤ MAX_PERMITS then b'.setMpsc id { capacity }
    else { b with nextId := id + 1 }

/-- `EventBus::unsubscribe`. -/
def unsubscribe (b : Bus δ τ) (i : SubscriptionId) : Bus δ τ := b.reap i

/-! ### The loops under the mutex -/

/-- The `Coalesce` arm, the same in both loops. -/
def coalesceEntry (ops : BusOps δ τ κ) (b : Bus δ τ) (c : Call δ) (i : SubscriptionId)
    (sub : SubscriptionInner τ) : Bus δ τ × Call δ :=
  let (outcome, state) := (b.coalesce i).push ops.extractKey c.envelope
  let b := { b with coalesce := Function.update b.coalesce i state }
  match outcome with
  | .pushed =>
    let sub := sub.deliverNow c.envelope.position
    (b.setSub i sub,
      { c with
        result := { c.result with delivered := c.result.delivered + 1 }
        toRemove := if sub.remaining = some 0 then c.toRemove ++ [i] else c.toRemove })
  | .replaced => (b, { c with result := { c.result with coalesced := c.result.coalesced + 1 } })
  | .dropped => (b, { c with result := { c.result with dropped := c.result.dropped + 1 } })
  | .receiverGone => (b, { c with toRemove := c.toRemove ++ [i] })

/-- One iteration of the loop of `try_publish` over a matching entry with a bounded channel. -/
def tryPublishEntry (b : Bus δ τ) (c : Call δ) (i : SubscriptionId)
    (sub : SubscriptionInner τ) : Bus δ τ × Call δ :=
  match (b.mpsc i).trySend c.envelope with
  | .ok q =>
    -- the decrement saturates: a quota that other calls have claimed to zero stays at zero
    let sub := sub.deliverNow c.envelope.position
    (((b.setMpsc i q).setSub i sub).recordCommit i,
      { c with
        result := { c.result with delivered := c.result.delivered + 1 }
        toRemove := if sub.remaining = some 0 then c.toRemove ++ [i] else c.toRemove })
  | .error .full =>
    match sub.slowConsumerPolicy with
    | .disconnect =>
      -- `disconnect_slow_consumer`
      (b.fireNotice i sub,
        { c with
          toRemove := c.toRemove ++ [i]
          result := { c.result with
            disconnectedSlowConsumers := c.result.disconnectedSlowConsumers ++ [i] } })
    | .backpressure | .dropNewest =>
      -- this path cannot await, so it drops for both policies
      (b, { c with result := { c.result with dropped := c.result.dropped + 1 } })
    -- `unreachable!`: a `Coalesce` entry has no bounded channel
    | .coalesce _ => (b, { c with phase := .panicked })
  | .error .closed => (b, { c with toRemove := c.toRemove ++ [i] })

/-- One iteration of the claim loop of `publish` over a matching entry with a bounded channel. -/
def publishEntry (b : Bus δ τ) (c : Call δ) (i : SubscriptionId)
    (sub : SubscriptionInner τ) : Bus δ τ × Call δ :=
  match sub.claim with
  -- `continue`: nothing is sent, and the entry stays for the holders of its claims
  | none => (b, c)
  | some sub' =>
    let m : Match := { id := i, slowConsumerPolicy := sub.slowConsumerPolicy }
    ((b.setSub i sub').recordClaim i c.envelope,
      { c with matched := c.matched ++ [m], guards := c.guards ++ [m] })

/-- One iteration of either loop. -/
def visitEntry (ops : BusOps δ τ κ) (b : Bus δ τ) (c : Call δ) (i : SubscriptionId) :
    Bus δ τ × Call δ :=
  match b.subs i with
  | none => (b, c)
  | some sub =>
    if ops.matchesEvent sub.topic c.envelope.topic c.envelope.data then
      match sub.outbound, c.api with
      | .coalesce, _ => b.coalesceEntry ops c i sub
      | .mpsc, .tryPublish => b.tryPublishEntry c i sub
      | .mpsc, .publish => b.publishEntry c i sub
    else (b, c)

/-- The phase of a call with the matches `guards` still to be sent: the next send, or the return. -/
def afterMatch (c : Call δ) (guards : List Match) : Call δ :=
  match guards with
  | [] => { c with guards := [], matched := [], phase := .returned c.result }
  | m :: rest => { c with guards := m :: rest, phase := .send }

/-- The end of either loop: the entries in `to_remove` go and the mutex is released. -/
def finishLoop (b : Bus δ τ) (k : ℕ) (c : Call δ) : Bus δ τ :=
  let b := c.toRemove.foldl reap b
  { b with lock := none }.setCall k (afterMatch { c with toRemove := [] } c.guards)

/-! ### Sending and committing one match -/

/-- The fast path of the send loop: `try_send` first. -/
def sendMatch (b : Bus δ τ) (k : ℕ) (c : Call δ) (m : Match) : Bus δ τ :=
  match (b.mpsc m.id).trySend c.envelope with
  | .ok q => (b.setMpsc m.id q).setCall k { c with phase := .commit .delivered }
  | .error .closed => b.setCall k { c with phase := .commit .closed }
  | .error .full =>
    match m.slowConsumerPolicy with
    | .backpressure => b.setCall k { c with phase := .await }
    | .dropNewest => b.setCall k { c with phase := .commit .dropped }
    | .disconnect => b.setCall k { c with phase := .commit .disconnectSlowConsumer }
    | .coalesce _ => b.setCall k { c with phase := .panicked }

/-- The awaited send: a closed channel resolves it with an error, a free slot grants the permit. -/
def awaitPermit (b : Bus δ τ) (k : ℕ) (c : Call δ) (m : Match) : Option (Bus δ τ) :=
  if (b.mpsc m.id).rxAlive then
    (b.mpsc m.id).reserve.map fun q => (b.setMpsc m.id q).setCall k { c with phase := .granted }
  else some (b.setCall k { c with phase := .commit .closed })

/-- `Delivered`: the entry, if it is still there, records the position and loses one claim; an
exhausted entry is removed. -/
def commitDelivered (b : Bus δ τ) (i : SubscriptionId) (env : EventEnvelope δ) : Bus δ τ :=
  match b.subs i with
  | none => b
  | some sub =>
    let b := b.setSub i (sub.deliver env.position)
    if (sub.deliver env.position).exhausted then b.remove i else b

/-- The refund of a `Dropped` outcome and of a dropped guard. -/
def refundClaim (b : Bus δ τ) (i : SubscriptionId) : Bus δ τ :=
  match b.subs i with
  | none => b
  | some sub => b.setSub i sub.refund

/-- `DisconnectSlowConsumer`: fires the notice, then removes the entry. -/
def commitDisconnect (b : Bus δ τ) (i : SubscriptionId) : Bus δ τ :=
  match b.subs i with
  | none => b
  | some sub => (b.fireNotice i sub).remove i

/-- The commit of one outcome under the mutex, for the first active guard `m`. -/
def commitMatch (b : Bus δ τ) (k : ℕ) (c : Call δ) (m : Match) (rest : List Match) :
    SendResult → Bus δ τ
  | .delivered =>
    ((b.commitDelivered m.id c.envelope).recordCommit m.id).setCall k
      (afterMatch { c with result := { c.result with delivered := c.result.delivered + 1 } } rest)
  | .dropped =>
    (b.refundClaim m.id).setCall k
      (afterMatch { c with result := { c.result with dropped := c.result.dropped + 1 } } rest)
  | .disconnectSlowConsumer =>
    (b.commitDisconnect m.id).setCall k
      (afterMatch { c with
        result := { c.result with
          disconnectedSlowConsumers := c.result.disconnectedSlowConsumers ++ [m.id] } } rest)
  | .closed => (b.remove m.id).setCall k (afterMatch c rest)

/-! ### Steps -/

/-- The next operation of call `k`; `none` while it waits for the mutex or for a permit, during the
loop (whose iterations are `visit`s) and after its end. -/
def advance (ops : BusOps δ τ κ) (b : Bus δ τ) (k : ℕ) : Option (Bus δ τ) :=
  match b.calls[k]? with
  | none => none
  | some c =>
    match c.phase with
    | .check =>
      if b.maxEventSize < ops.serializedSize c.envelope then
        some (b.setCall k { c with phase := .reject b.maxEventSize })
      else some (b.setCall k { c with phase := .record })
    | .reject limit =>
      some ({ b with registry := b.registry.evict c.envelope.eventId }.setCall k
        { c with phase := .rejected (.tooLarge limit) })
    | .record =>
      let (cache, evicted) := b.replayCache.record c.envelope
      some ({ b with replayCache := cache }.setCall k
        { c with phase := match evicted with
          | some id => .evict id
          | none => .acquire })
    | .evict id =>
      some ({ b with registry := b.registry.evict id }.setCall k { c with phase := .acquire })
    | .acquire =>
      if b.lock.isNone then
        some ({ b with lock := some k }.setCall k { c with phase := .fanout, todo := b.keys })
      else none
    | .fanout => if c.todo.isEmpty then some (b.finishLoop k c) else none
    | .send =>
      match c.guards with
      | [] => none
      | m :: _ => some (b.sendMatch k c m)
    | .await =>
      match c.guards with
      | [] => none
      | m :: _ => b.awaitPermit k c m
    | .granted =>
      match c.guards with
      | [] => none
      | m :: _ =>
        -- a permit is good even if the consumer has gone since
        some ((b.setMpsc m.id ((b.mpsc m.id).pushReserved c.envelope)).setCall k
          { c with phase := .commit .delivered })
    | .commit outcome =>
      match c.guards with
      | [] => none
      | m :: rest => if b.lock.isNone then some (b.commitMatch k c m rest outcome) else none
    | .unwind =>
      match c.guards with
      | [] => some (b.setCall k { c with matched := [], phase := .cancelled })
      | m :: rest =>
        -- `ClaimGuard::drop` takes the mutex for each active guard
        if b.lock.isNone then some ((b.refundClaim m.id).setCall k { c with guards := rest })
        else none
    | .returned _ | .rejected _ | .cancelled | .panicked => none

/-- One iteration of the loop of call `k`, on the entry `i`. -/
def visit (ops : BusOps δ τ κ) (b : Bus δ τ) (k : ℕ) (i : SubscriptionId) : Option (Bus δ τ) :=
  match b.calls[k]? with
  | none => none
  | some c =>
    if c.phase = .fanout ∧ i ∈ c.todo then
      let (b, c) := b.visitEntry ops { c with todo := c.todo.erase i } i
      some (b.setCall k c)
    else none

/-- Drops the future of call `k` at its send await; a granted permit goes back. -/
def cancel (b : Bus δ τ) (k : ℕ) : Option (Bus δ τ) :=
  match b.calls[k]? with
  | none => none
  | some c =>
    match c.phase, c.guards with
    | .await, _ => some (b.setCall k { c with phase := .unwind })
    | .granted, m :: _ =>
      some ((b.setMpsc m.id (b.mpsc m.id).release).setCall k { c with phase := .unwind })
    | _, _ => none

/-- Some sender of the channel of `i` still exists: the entry's, or the clone of a call. -/
def senderAlive (b : Bus δ τ) (i : SubscriptionId) : Bool :=
  (b.subs i).isSome || b.calls.any fun c => c.matched.any fun m => m.id == i

/-- The consumer of `i` takes the oldest envelope of its queue. -/
def recv (b : Bus δ τ) (i : SubscriptionId) : Option (EventEnvelope δ × Bus δ τ) :=
  match ((b.hist i).opts.map fun opts => opts.slowConsumerPolicy.outbound : Option Outbound) with
  | none => none
  | some .mpsc => (b.mpsc i).recv.map fun (env, q) => (env, b.setMpsc i q)
  | some .coalesce =>
    (b.coalesce i).pop.map fun (env, state) =>
      (env, { b with coalesce := Function.update b.coalesce i state })

/-- The consumer of `i` drops its `SubscriptionRx`. -/
def dropRx (b : Bus δ τ) (i : SubscriptionId) : Bus δ τ :=
  { b.setMpsc i (b.mpsc i).dropRx with
    coalesce := Function.update b.coalesce i (b.coalesce i).markReceiverDropped }

end Bus

inductive BusAction (δ τ : Type) where
  | subscribe (topic : τ) (opts : SubscribeOpts)
  | unsubscribe (id : SubscriptionId)
  /-- A caller starts `publish`. -/
  | publish (env : EventEnvelope δ)
  /-- A caller starts `try_publish`. -/
  | tryPublish (env : EventEnvelope δ)
  | advance (k : ℕ)
  | visit (k : ℕ) (id : SubscriptionId)
  | cancel (k : ℕ)
  | recv (id : SubscriptionId)
  | dropRx (id : SubscriptionId)
  | withMaxEventSize (limit : ℕ)
  deriving Repr, DecidableEq

namespace Bus

variable {δ τ κ : Type} [DecidableEq κ]

def step (ops : BusOps δ τ κ) (b : Bus δ τ) : BusAction δ τ → Option (Bus δ τ)
  -- a bus does not live to see its `u64` of ids wrap around
  | .subscribe topic opts =>
    if b.lock.isNone && b.nextId < UInt64.size then some (b.subscribe topic opts) else none
  | .unsubscribe i => if b.lock.isNone then some (b.unsubscribe i) else none
  | .publish env => some { b with calls := b.calls ++ [{ api := .publish, envelope := env }] }
  | .tryPublish env =>
    some { b with calls := b.calls ++ [{ api := .tryPublish, envelope := env }] }
  | .advance k => b.advance ops k
  | .visit k i => b.visit ops k i
  | .cancel k => b.cancel k
  | .recv i => (b.recv i).map (·.2)
  | .dropRx i => some (b.dropRx i)
  | .withMaxEventSize limit => some { b with maxEventSize := limit }

/-- The bus as a machine, from `EventBus::with_registry_and_replay_capacity`. -/
def machine (ops : BusOps δ τ κ) (replayCapacity : ℕ) : Machine (Bus δ τ) (BusAction δ τ) where
  init := { replayCache := { capacityPerStream := replayCapacity } }
  step := step ops

end Bus

/-! ### A bus to replay schedules on -/

/-- Every subscription matches every event, and no envelope is too large. -/
def BusOps.matchAll : BusOps Unit Unit Unit where
  matchesEvent _ _ _ := true
  extractKey _ _ := none
  serializedSize _ := 0

/-- The `n`-th envelope of one stream. -/
def EventEnvelope.nth (n : UInt64) : EventEnvelope Unit where
  eventId := ⟨toString n⟩
  nodeId := ⟨"hub"⟩
  resourceId := "r1"
  resourceKind := "led"
  streamId := .forResource ⟨"hub"⟩ "r1" "state"
  stream := "state"
  sequence := n
  payloadKind := "state"
  data := ()

end Boardwalk
