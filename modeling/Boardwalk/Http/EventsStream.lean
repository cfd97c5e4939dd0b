import Boardwalk.Events.Bus

/-!
# The NDJSON event stream

`server_events_stream` of `http/routes.rs` from its `subscribe` on: the read of the replay cache,
the replayed lines, and the loop that selects between the slow-consumer notice and the queue.  As in
`Http.Ws`, each branch of the biased select is polled in a step of its own.

`handed` lists the envelopes yielded as lines, and `gap` the notice that was reported, with the
envelopes the bus had enqueued by then; both are history variables.
-/

namespace Boardwalk

/-- A line of the response body, without its newline. -/
inductive NdjsonLine (δ : Type) where
  | event (topic : String) (timestamp : ℤ) (data : δ) (eventId streamId : String)
      (sequence : UInt64) (nodeId resourceId resourceKind payloadKind : String)
      (payloadVersion : UInt32) (envelopeVersion : UInt8) (isoTimestamp : Option String)
      (stream : String)
  | streamGap (timestamp : ℤ) (streamId : Option String) (lastDeliveredSequence : Option UInt64)
      (reason : String) (terminated : Bool)
  deriving Repr, DecidableEq

/-- `ndjson_event_line`; writing a JSON value into a string does not fail. -/
def ndjsonEventLine {δ : Type} (rfc3339 : OffsetDateTime → Option String) (ev : EventEnvelope δ) :
    Option (NdjsonLine δ) :=
  some (.event ev.topic ev.timestampMs ev.data ev.eventId.raw ev.streamId.raw ev.sequence
    ev.nodeId.raw ev.resourceId ev.resourceKind ev.payloadKind ev.payloadVersion
    ev.envelopeVersion (rfc3339 ev.timestamp) ev.stream)

/-- Where the handler and its stream stand. -/
inductive StreamPhase (δ : Type) where
  /-- Before `subscribe_events`. -/
  | idle
  /-- Subscribed, before the read of the replay cache. -/
  | subscribed (replayStreamId : Option StreamId)
  | replaying (replay : List (EventEnvelope δ))
  /-- The select, at the notice. -/
  | notice
  /-- The select, at `rx.recv()`. -/
  | recv
  /-- The stream ended or was dropped; `UnsubOnDrop` runs. -/
  | unsubscribing
  /-- The receiver is dropped last. -/
  | dropping
  | done
  deriving Repr, DecidableEq

structure EventsStream (δ τ : Type) where
  bus : Bus δ τ := {}
  phase : StreamPhase δ := .idle
  sub : SubscriptionId := 0
  /-- The options from the query. -/
  opts : SubscribeOpts := {}
  /-- `replayed_event_ids`, a set. -/
  replayedEventIds : List EventId := []
  /-- The body was polled, and its `UnsubOnDrop` made. -/
  started : Bool := false
  /-- The lines of the body so far. -/
  body : List (NdjsonLine δ) := []
  handed : List (EventEnvelope δ) := []
  gap : Option (SlowConsumerNotice × List (EventEnvelope δ)) := none

inductive StreamAction (δ τ : Type) where
  /-- A publisher or another subscriber. -/
  | bus (a : BusAction δ τ)
  /-- The handler subscribes. -/
  | subscribe (topic : τ) (outboundCapacity : Option ℕ) (policy : SlowConsumerPolicy)
      (replayStreamId : Option StreamId)
  /-- The handler or the body is polled; `now` is the clock. -/
  | poll (now : ℤ)
  /-- The client goes away and the body is dropped. -/
  | disconnect
  deriving Repr, DecidableEq

namespace EventsStream

variable {δ τ κ : Type} [DecidableEq κ]

/-- Yields the line of an envelope, if it has one. -/
def yieldEvent (rfc3339 : OffsetDateTime → Option String) (t : EventsStream δ τ)
    (ev : EventEnvelope δ) : EventsStream δ τ :=
  match ndjsonEventLine rfc3339 ev with
  | some line => { t with body := t.body ++ [line], handed := t.handed ++ [ev] }
  | none => t

/-- The final `stream-gap` line. -/
def yieldGap (t : EventsStream δ τ) (now : ℤ) (n : SlowConsumerNotice) : EventsStream δ τ :=
  { t with
    body := t.body ++
      [.streamGap now (n.streamId.map (·.raw)) n.lastDeliveredSequence n.reason true]
    gap := some (n, (t.bus.mpsc t.sub).enqueued) }

/-- One poll of the handler or of its stream. -/
def poll (ops : BusOps δ τ κ) (rfc3339 : OffsetDateTime → Option String) (t : EventsStream δ τ)
    (now : ℤ) : Option (EventsStream δ τ) :=
  match t.phase with
  | .idle => none
  | .subscribed replayStreamId =>
    -- the cached events are read in one go, right after the subscribe
    let replay := (replayStreamId.map fun id => t.bus.replayCache.eventsAfter id 0).getD []
    some { t with phase := .replaying replay }
  -- no cached event is left: the guard was made when the replay began
  | .replaying [] => some { t with phase := .notice, started := true }
  | .replaying (ev :: rest) =>
    some ({ t with
      phase := .replaying rest
      started := true
      replayedEventIds := t.replayedEventIds.insert ev.eventId }.yieldEvent rfc3339 ev)
  | .notice =>
    -- `biased`: the notice is polled before the queue
    match t.bus.notify t.sub with
    | .pending => some { t with phase := .recv }
    | .sent n => some ({ t with phase := .unsubscribing }.yieldGap now n)
    | .dropped => some { t with phase := .unsubscribing }
  | .recv =>
    match t.bus.recv t.sub with
    | some (ev, bus) =>
      -- an event that was replayed is skipped once
      if ev.eventId ∈ t.replayedEventIds then
        some { t with
          bus, phase := .notice, replayedEventIds := t.replayedEventIds.erase ev.eventId }
      else some ({ t with bus, phase := .notice }.yieldEvent rfc3339 ev)
    | none =>
      -- `None` only when the entry is gone and the queue is empty
      if t.bus.senderAlive t.sub then some { t with phase := .notice }
      else some { t with phase := .unsubscribing }
  | .unsubscribing =>
    -- `UnsubOnDrop`
    (t.bus.step ops (.unsubscribe t.sub)).map fun bus => { t with bus, phase := .dropping }
  | .dropping => some { t with bus := t.bus.dropRx t.sub, phase := .done }
  | .done => none

/-- The stream has subscribed and holds the receiver. -/
def active (t : EventsStream δ τ) : Bool :=
  match t.phase with
  | .idle | .done => false
  | _ => true

/-- Only the stream holds the receiver of its subscription. -/
def othersMay (t : EventsStream δ τ) : BusAction δ τ → Bool
  | .recv j | .dropRx j => !t.active || decide (j ≠ t.sub)
  | _ => true

/-- Dropping the body ends the stream where it stands. -/
def disconnect (t : EventsStream δ τ) : Option (EventsStream δ τ) :=
  match t.phase with
  -- without its first poll there is no guard, and the entry stays on the bus
  | .replaying _ => some { t with phase := if t.started then .unsubscribing else .dropping }
  | .notice | .recv => some { t with phase := .unsubscribing }
  | _ => none

def step (ops : BusOps δ τ κ) (rfc3339 : OffsetDateTime → Option String) (t : EventsStream δ τ) :
    StreamAction δ τ → Option (EventsStream δ τ)
  | .bus a => if t.othersMay a then (t.bus.step ops a).map fun bus => { t with bus } else none
  | .subscribe topic outboundCapacity policy replayStreamId =>
    match t.phase with
    | .idle =>
      let opts : SubscribeOpts := { outboundCapacity, slowConsumerPolicy := policy }
      (t.bus.step ops (.subscribe topic opts)).map fun bus =>
        -- a capacity that the channel does not accept panics
        if (bus.subs t.bus.nextId).isSome then
          { t with bus, opts, sub := t.bus.nextId, phase := .subscribed replayStreamId }
        else { t with bus, opts, phase := .done }
    | _ => none
  | .poll now => t.poll ops rfc3339 now
  | .disconnect => t.disconnect

def machine (ops : BusOps δ τ κ) (rfc3339 : OffsetDateTime → Option String) (replayCapacity : ℕ) :
    Machine (EventsStream δ τ) (StreamAction δ τ) where
  init := { bus := (Bus.machine ops replayCapacity).init }
  step := step ops rfc3339

end EventsStream

end Boardwalk
