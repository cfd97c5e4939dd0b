import Boardwalk.Http.EventsRequest
import Boardwalk.Http.Spec.Teardown

/-!
# The capacities that clients ask for

A client gives a capacity in a `Subscribe` message or in the query of an event stream, and it goes
unchanged into the queue that `EventBus::subscribe` builds: a bounded channel, or for `coalesce` a
deque, where zero is raised to one.  Both panic on capacities that they do not take.

`admitted_iff` says for which inputs every such call gets a capacity that its queue takes.
-/

namespace Boardwalk

/-- `isize::MAX` on a 64-bit target. -/
def ISIZE_MAX : ℕ := 0x7FFFFFFFFFFFFFFF

/-- What `EventBus::subscribe` builds a queue with. -/
inductive QueueRequest where
  /-- `mpsc::channel` -/
  | channel (capacity : ℕ)
  /-- `VecDeque::with_capacity` -/
  | deque (capacity : ℕ)
  deriving Repr, DecidableEq

/-- The queue of a subscription. -/
def SubscribeOpts.queue (opts : SubscribeOpts) : QueueRequest :=
  match opts.slowConsumerPolicy with
  | .coalesce keyPath =>
    .deque (CoalesceState.new (δ := Unit) opts.resolvedOutboundCapacity keyPath).capacity
  | _ => .channel opts.resolvedOutboundCapacity

/-- The queue takes the capacity without a panic; `size` is that of an envelope in bytes. -/
def QueueRequest.Admitted (size : ℕ) : QueueRequest → Prop
  | channel capacity => 1 ≤ capacity ∧ capacity ≤ MAX_PERMITS
  | deque capacity => capacity * size ≤ ISIZE_MAX

/-- The request that an operation of the dispatcher is for. -/
def DispatchOp.request {ρ : Type} : DispatchOp ρ → Option (Subscribing ρ)
  | .peerContext r | .subscribePeer _ r | .subscribeLocal _ r => some r
  | _ => none

namespace Socket

variable {ρ κ : Type} [DecidableEq κ] {ops : SocketOps ρ κ} {s t : Socket ρ} {r : Subscribing ρ}

/-! ### The requests that the dispatcher has in hand -/

def requests (s : Socket ρ) : List (Subscribing ρ) := s.todo.filterMap DispatchOp.request

/-- The request is read off the text. -/
structure ReadOff (ops : SocketOps ρ κ) (text : String) (r : Subscribing ρ) : Prop where
  message : ops.parseInbound text = .ok (.subscribe r.topic r.limit r.outboundCapacity)
  parsed : TopicPattern.parse ops.topics r.topic = .ok r.pattern

omit [DecidableEq κ] in
theorem requests_accept (s : Socket ρ) (r : Subscribing ρ) :
    (s.accept r).requests = r :: s.requests := by
  unfold requests accept
  cases r.isPeerTopic <;> rfl

omit [DecidableEq κ] in
/-- What a text frame asks the bus for is what is read off the frame. -/
theorem requests_onText (hs : s.todo = []) {text : String}
    (hr : r ∈ (s.onText ops text).requests) : ReadOff ops text r := by
  unfold onText at hr
  split at hr
  · rename_i topic limit capacity hmessage
    unfold onSubscribe at hr
    split at hr
    · cases hr
    · dsimp only at hr
      split at hr
      · cases hr
      · rename_i pattern hparse
        split at hr
        · obtain rfl := List.mem_singleton.mp hr
          exact ⟨hmessage, hparse⟩
        · rw [requests_accept] at hr
          simp only [requests, hs, List.filterMap_nil, List.mem_singleton] at hr
          subst hr
          exact ⟨hmessage, hparse⟩
  all_goals cases hr

/-- An operation of the dispatcher asks the bus for at most what it names. -/
theorem requests_runOp {now : ℤ} {op : DispatchOp ρ} (h : s.runOp ops now op = some t)
    (hr : r ∈ t.requests) : r ∈ s.requests ∨ op.request = some r := by
  -- what is asked for next asks for nothing itself
  have hmore : ∀ {new : DispatchOp ρ}, new.request = none →
      { s with todo := new :: s.todo }.requests = s.requests := by
    intro new hnew
    simp [requests, hnew]
  cases op with
  | peerContext r' =>
    have hasked : r ∈ (s.accept r').requests → r ∈ s.requests ∨ some r' = some r := by
      rw [requests_accept, List.mem_cons]
      rintro (rfl | hr)
      · exact Or.inr rfl
      · exact Or.inl hr
    simp only [runOp] at h
    split at h
    · -- a peer that refuses, or one that is asked to subscribe
      split at h <;> obtain rfl := Option.some.inj h
      · exact hasked hr
      · rw [hmore rfl] at hr
        exact Or.inl hr
    · obtain rfl := Option.some.inj h
      exact hasked hr
  | subscribeLocal appId r' =>
    obtain ⟨bus, -, rfl⟩ := Option.map_eq_some_iff.mp h
    -- the dispatcher panics, and forgets the rest
    split at hr
    · exact Or.inl hr
    · cases hr
  | removeLocal appId =>
    simp only [runOp] at h
    split at h
    · obtain rfl := Option.some.inj h
      exact Or.inl hr
    · obtain ⟨bus, -, rfl⟩ := Option.map_eq_some_iff.mp h
      exact Or.inl hr
  | unsubscribePeer peer topic =>
    obtain rfl := Option.some.inj h
    exact Or.inl hr
  | reply r' | fallback msg | subscribePeer appId r' | removeFwd appId =>
    simp only [runOp] at h
    split at h <;> obtain rfl := Option.some.inj h
    all_goals exact Or.inl hr

/-- While the dispatcher has something in hand it takes no other request. -/
theorem requests_step {a : SocketAction ρ} (hs : s.todo ≠ []) (h : step ops s a = some t)
    (hr : r ∈ t.requests) : r ∈ s.requests := by
  have hkeep : t.todo = s.todo → r ∈ s.requests := by
    intro htodo
    rwa [requests, htodo] at hr
  -- while something is left to do, nothing new comes in
  have hbusy : s.todo.isEmpty = false := List.isEmpty_eq_false_iff.mpr hs
  cases a with
  | bus a =>
    simp only [step] at h
    split at h
    · obtain ⟨bus, -, rfl⟩ := Option.map_eq_some_iff.mp h
      exact hr
    · cases h
  | hub a =>
    obtain ⟨hub, -, rfl⟩ := Option.map_eq_some_iff.mp h
    exact hr
  | connected senders =>
    simp only [step] at h
    split at h
    · obtain rfl := Option.some.inj h
      exact hr
    · cases h
  | inbound m => simp [step, hbusy] at h
  | forwarderEvent => simp [step, hbusy] at h
  | dispatch now =>
    simp only [step, dispatch] at h
    split at h
    · rename_i op rest htodo
      have hreq : s.requests = (op :: rest).filterMap DispatchOp.request := by
        rw [requests, htodo]
      rw [hreq]
      obtain hrest | hop := requests_runOp h hr
      · obtain ⟨op', hop', hrequest⟩ := List.mem_filterMap.mp hrest
        exact List.mem_filterMap.mpr ⟨op', List.mem_cons_of_mem op hop', hrequest⟩
      · exact List.mem_filterMap.mpr ⟨op, List.mem_cons_self, hop⟩
    · rename_i htodo
      exact absurd htodo hs
  | drain appId => simp [step, drain, hbusy] at h
  | pollLocal k now => exact hkeep (frame_pollLocal h).2.2.1
  | pollPeer k now => exact hkeep (frame_pollPeer h).2.2.1
  | cancelPeer k =>
    simp only [step, cancelPeer] at h
    split at h
    · cases h
    · split at h
      · obtain rfl := Option.some.inj h
        exact hr
      · cases h
  | write sent => exact hkeep (frame_write h).2.2.2.1

/-! ### The calls of `subscribe` -/

/-- A server without a name, peers or events. -/
def alone (ρ : Type) : AppState ρ where
  name := ""
  bus := {}
  peerSenders := none
  peerStreams := {}

/-- A dispatcher has the text in hand: it has taken it and not yet done all that it asks for. -/
inductive Handles (ops : SocketOps ρ κ) (text : String) : Socket ρ → Prop where
  | take {app : AppState ρ} {s t : Socket ρ} : (machine ops app).Reachable s →
    step ops s (.inbound (.text text)) = some t → Handles ops text t
  | more {s t : Socket ρ} {a : SocketAction ρ} : Handles ops text s → s.todo ≠ [] →
    step ops s a = some t → Handles ops text t

theorem Handles.readOff {text : String} (h : Handles ops text s) (hr : r ∈ s.requests) :
    ReadOff ops text r := by
  induction h with
  | @take app s t _ hstep =>
    simp only [step] at hstep
    split at hstep
    · rename_i hidle
      obtain rfl := Option.some.inj hstep
      exact requests_onText (List.isEmpty_iff.mp hidle.2) hr
    · cases hstep
  | more _ htodo hstep ih => exact ih (requests_step htodo hstep hr)

/-- A message with a topic that parses is a subscription on a server without peers. -/
theorem exists_handles {text topic : String} {limit capacity : Option UInt64}
    {pattern : TopicPattern ρ}
    (hmessage : ops.parseInbound text = .ok (.subscribe topic limit capacity))
    (hparse : TopicPattern.parse ops.topics topic = .ok pattern) :
    ∃ s appId r rest, Handles ops text s ∧ s.todo = .subscribeLocal appId r :: rest ∧
      r.outboundCapacity = capacity := by
  obtain ⟨r, htext, hlocal, hcapacity⟩ : ∃ r : Subscribing ρ,
      (machine ops (alone ρ)).init.onText ops text = (machine ops (alone ρ)).init.accept r ∧
        r.isPeerTopic = false ∧ r.outboundCapacity = capacity := by
    have hcap : ¬ WS_MAX_SUBSCRIPTIONS_PER_CONN ≤
        (machine ops (alone ρ)).init.conn.subscriptions := Nat.not_succ_le_zero 63
    simp only [onText, hmessage, onSubscribe, hcap, if_false, hparse]
    simp only [machine, alone, Option.isSome_none, Bool.and_false, Bool.false_eq_true, if_false]
    exact ⟨_, rfl, rfl, rfl⟩
  have htake : step ops (machine ops (alone ρ)).init (.inbound (.text text)) =
      some ((machine ops (alone ρ)).init.accept r) := by
    rw [← htext]
    rfl
  have htaken := Handles.take ⟨[], rfl⟩ htake
  -- the ack goes out, and the subscription is next
  obtain ⟨t, hreply, htodo⟩ : ∃ t, step ops ((machine ops (alone ρ)).init.accept r) (.dispatch 0) =
      some t ∧ t.todo = [.subscribeLocal 1 r] := by
    refine ⟨_, rfl, ?_⟩
    simp [machine, hlocal]
  exact ⟨t, 1, r, [], Handles.more htaken (by simp [accept]) hreply, htodo, hcapacity⟩

end Socket

/-! ### Inputs -/

/-- What a client sends that asks for a subscription. -/
inductive ClientInput where
  /-- A text message of a connection. -/
  | message (text : String)
  /-- The query of an event stream. -/
  | query (q : EventsQuery)

/-- The options of an accepted query. -/
theorem opts_of_serverEventsStream {ρ : Type} {ops : TopicOps ρ} {q : EventsQuery}
    {req : EventsRequest ρ} (h : serverEventsStream ops q = .ok req) : ∃ policy,
      SlowConsumerPolicy.fromQuery (q.slowConsumerPolicy.getD "disconnect") q.coalesceKey =
          .ok policy ∧
        req.opts = { outboundCapacity := q.outboundCapacity, slowConsumerPolicy := policy } := by
  unfold serverEventsStream at h
  split at h
  · -- the query's options, as far as any check before them lets it come
    cases h
  split at h
  · cases h
  split at h
  · cases h
  split at h
  · cases h
  rename_i opts hopts
  cases h
  -- the capacity goes through as it is
  unfold subscribeOptsFromQuery at hopts
  dsimp only at hopts
  split at hopts
  · rename_i policy hpolicy
    cases hopts
    exact ⟨policy, hpolicy, rfl⟩
  · cases hopts

section

variable {ρ κ : Type} [DecidableEq κ] (ops : SocketOps ρ κ)

/-- The server comes to a call of `subscribe` with the options. -/
def ClientInput.Subscribes (opts : SubscribeOpts) : ClientInput → Prop
  | message text => ∃ s appId r rest, Socket.Handles ops text s ∧
      s.todo = .subscribeLocal appId r :: rest ∧ r.opts = opts
  | query q => ∃ req, serverEventsStream ops.topics q = .ok req ∧ req.opts = opts

/-- The capacity that the input gives, or the default, is one that the queue of its policy takes. -/
def ClientInput.Fits (size : ℕ) : ClientInput → Prop
  | message text => ∀ topic limit capacity pattern,
      ops.parseInbound text = .ok (.subscribe topic limit capacity) →
      TopicPattern.parse ops.topics topic = .ok pattern →
        1 ≤ (capacity.map (·.toNat)).getD DEFAULT_OUTBOUND_CAPACITY ∧
          (capacity.map (·.toNat)).getD DEFAULT_OUTBOUND_CAPACITY ≤ MAX_PERMITS
  | query q => ∀ policy,
      SlowConsumerPolicy.fromQuery (q.slowConsumerPolicy.getD "disconnect") q.coalesceKey =
        .ok policy → (∃ req, serverEventsStream ops.topics q = .ok req) →
          if policy.isMpsc then
            1 ≤ q.outboundCapacity.getD DEFAULT_OUTBOUND_CAPACITY ∧
              q.outboundCapacity.getD DEFAULT_OUTBOUND_CAPACITY ≤ MAX_PERMITS
          else max (q.outboundCapacity.getD DEFAULT_OUTBOUND_CAPACITY) 1 * size ≤ ISIZE_MAX

/-- **No input can make a subscribe panic** exactly when its capacity is in the range of the queue
that the server builds for it. -/
theorem admitted_iff (size : ℕ) (input : ClientInput) :
    (∀ opts, input.Subscribes ops opts → opts.queue.Admitted size) ↔ input.Fits ops size := by
  cases input with
  | message text =>
    constructor
    · intro h topic limit capacity pattern hmessage hparse
      -- a connection can be brought to subscribe with what the text asks for
      obtain ⟨s, appId, r, rest, hs, htodo, rfl⟩ := Socket.exists_handles hmessage hparse
      exact h r.opts ⟨s, appId, r, rest, hs, htodo, rfl⟩
    · rintro h opts ⟨s, appId, r, rest, hs, htodo, rfl⟩
      -- and nothing else can stand there
      have hread : Socket.ReadOff ops text r := hs.readOff (by simp [Socket.requests, htodo,
        DispatchOp.request])
      exact h _ _ _ _ hread.message hread.parsed
  | query q =>
    constructor
    · rintro h policy hpolicy ⟨req, hreq⟩
      have hadmitted := h req.opts ⟨req, hreq, rfl⟩
      obtain ⟨policy', hpolicy', hopts⟩ := opts_of_serverEventsStream hreq
      cases hpolicy.symm.trans hpolicy'
      rw [hopts] at hadmitted
      -- `coalesce` asks for a deque, the other policies for a channel
      cases policy <;> exact hadmitted
    · rintro h opts ⟨req, hreq, rfl⟩
      obtain ⟨policy, hpolicy, hopts⟩ := opts_of_serverEventsStream hreq
      have hfits := h policy hpolicy ⟨req, hreq⟩
      rw [hopts]
      cases policy <;> exact hfits

end

/-- A subscription with a queue of no capacity. -/
def zeroText : String :=
  "\x7b\"type\":\"subscribe\",\"topic\":\"hub/led/r1/state\",\"outboundCapacity\":0\x7d"

def zeroOps : SocketOps Empty Unit where
  topics := .plain
  extractKey _ _ := none
  serializedSize _ := 0
  parseInbound text :=
    if text = zeroText then .ok (.subscribe "hub/led/r1/state" none (some 0))
    else .error "expected value at line 1 column 1"
  rfc3339 _ := none

/-- A capacity of zero reaches the channel, and the dispatcher panics. -/
theorem not_admitted_zero :
    ¬ (∀ opts, (ClientInput.message zeroText).Subscribes zeroOps opts → opts.queue.Admitted 1024) ∧
      ∃ s, (Socket.machine zeroOps Socket.aloneHub).Reachable s ∧ s.stage = .panicked := by
  constructor
  · intro h
    have hmessage : zeroOps.parseInbound zeroText =
        .ok (.subscribe "hub/led/r1/state" none (some 0)) := by simp [zeroOps]
    have hok : (TopicPattern.parse zeroOps.topics "hub/led/r1/state").isOk = true := by
      decide
    cases hparse : TopicPattern.parse zeroOps.topics "hub/led/r1/state" with
    | error e =>
      rw [hparse] at hok
      cases hok
    | ok pattern =>
      obtain ⟨s, appId, r, rest, hs, htodo, hcapacity⟩ := Socket.exists_handles hmessage hparse
      -- a capacity of zero is handed to `mpsc::channel`
      have hadmitted := h r.opts ⟨s, appId, r, rest, hs, htodo, rfl⟩
      have hpos : 1 ≤ (r.outboundCapacity.map (·.toNat)).getD DEFAULT_OUTBOUND_CAPACITY :=
        hadmitted.1
      rw [hcapacity] at hpos
      cases hpos
  · have hrun : ((Socket.machine zeroOps Socket.aloneHub).run
        (Socket.machine zeroOps Socket.aloneHub).init
          [.inbound (.text zeroText), .dispatch 0, .dispatch 0]).any
        (fun s => decide (s.stage = .panicked)) = true := by
      decide
    obtain ⟨s, hs, hstage⟩ := (Option.any_eq_true _ _).mp hrun
    exact ⟨s, ⟨_, hs⟩, of_decide_eq_true hstage⟩

end Boardwalk
