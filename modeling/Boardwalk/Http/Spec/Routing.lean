import Boardwalk.Events.Spec.Offered
import Boardwalk.Http.Socket
import Boardwalk.Http.Spec.LocalForwarder

/-!
# Where a WebSocket subscription is served

The dispatcher decides by the text before the first slash of a topic whether a subscription is local
or forwarded to a peer, and acknowledges it before it knows whether there is such a peer.  A local
subscription is registered on the bus and is then offered what its pattern matches.

`served_iff` says which acknowledged subscriptions are registered on the bus: those whose topic
starts with the display name or with a slash, with a capacity that the queue accepts.  A topic that
starts with a wildcard, a regular expression or the node id is taken for a topic of a peer.
-/

namespace Boardwalk

/-- The text of a topic before its first slash. -/
def firstSegment (topic : String) : String := (Str.split '/' topic).headD ""

/-- The dispatcher read the request `r` off its topic. -/
structure Subscribing.Routed {ρ : Type} (topics : TopicOps ρ) (name : String) (peering : Bool)
    (r : Subscribing ρ) : Prop where
  parsed : TopicPattern.parse topics r.topic = .ok r.pattern
  first : r.first = firstSegment r.topic
  isPeerTopic : r.isPeerTopic = (r.first != name && !r.first.isEmpty && peering)

/-- The requests in the dispatcher's operations are read off their topics, and are served by what
they are taken for. -/
def DispatchOp.Routed {ρ : Type} (topics : TopicOps ρ) (name : String) (peering : Bool) :
    DispatchOp ρ → Prop
  | .peerContext r => r.Routed topics name peering
  | .subscribePeer _ r => r.Routed topics name peering ∧ r.isPeerTopic = true
  | .subscribeLocal _ r => r.Routed topics name peering ∧ r.isPeerTopic = false
  | _ => True

/-- The queue of a local subscription has a capacity that its channel accepts. -/
def Subscribing.CapacityAccepted {ρ : Type} (r : Subscribing ρ) : Prop :=
  1 ≤ r.opts.resolvedOutboundCapacity ∧ r.opts.resolvedOutboundCapacity ≤ MAX_PERMITS

/-- `subscribe` creates a bounded queue, or panics. -/
theorem Bus.isSome_subscribe {δ τ : Type} {b : Bus δ τ} {topic : τ} {opts : SubscribeOpts}
    (hu : b.subs b.nextId = none) (hpolicy : opts.slowConsumerPolicy = .disconnect) :
    ((b.subscribe topic opts).subs b.nextId).isSome = true ↔
      1 ≤ opts.resolvedOutboundCapacity ∧ opts.resolvedOutboundCapacity ≤ MAX_PERMITS := by
  unfold subscribe
  simp only [hpolicy]
  split
  · rename_i hcap
    simp [setMpsc, setSub, hcap]
  · rename_i hcap
    simp [hu, hcap]

namespace Socket

variable {ρ κ : Type} [DecidableEq κ] {ops : SocketOps ρ κ} {s t : Socket ρ}

/-! ### What a step does to the server and to the dispatcher's operations -/

def TodoRouted (topics : TopicOps ρ) (s : Socket ρ) : Prop :=
  ∀ op ∈ s.todo, op.Routed topics s.name s.peerSenders.isSome

/-- The name stays, the bus is used by its operations only, and the requests stay routed. -/
structure Moves (ops : SocketOps ρ κ) (s t : Socket ρ) : Prop where
  name : t.name = s.name
  peering : t.peerSenders.isSome = s.peerSenders.isSome
  bus : t.bus = s.bus ∨ ∃ act, s.bus.step ops.bus act = some t.bus
  routed : s.TodoRouted ops.topics → t.TodoRouted ops.topics

theorem Moves.of_todo (happ : t.toAppState = s.toAppState)
    (htodo : s.TodoRouted ops.topics → t.TodoRouted ops.topics) : Moves ops s t :=
  ⟨by rw [happ], by rw [happ], .inl (by rw [happ]), htodo⟩

theorem Moves.of_eq (happ : t.toAppState = s.toAppState) (htodo : t.todo = s.todo) :
    Moves ops s t :=
  .of_todo happ fun h => by rwa [TodoRouted, happ, htodo]

/-- A server state after an operation of the bus. -/
theorem Moves.of_bus {bus : Bus Json (TopicPattern ρ)} {act : BusAction Json (TopicPattern ρ)}
    (hbus : s.bus.step ops.bus act = some bus) (happ : t.toAppState = { s.toAppState with bus })
    (htodo : t.todo = s.todo ∨ t.todo = []) : Moves ops s t := by
  refine ⟨by rw [happ], by rw [happ], .inr ⟨act, by rw [happ]; exact hbus⟩, fun h op hop => ?_⟩
  rw [happ]
  rcases htodo with htodo | htodo
  · exact h op (by rwa [htodo] at hop)
  · rw [htodo] at hop
    cases hop

omit [DecidableEq κ] in
/-- Accepting a subscription leaves a list of work that is routed. -/
theorem routed_accept {r : Subscribing ρ}
    (hr : r.Routed ops.topics s.name s.peerSenders.isSome) (hs : s.TodoRouted ops.topics) :
    (s.accept r).TodoRouted ops.topics := by
  intro op hop
  simp only [accept, List.mem_cons] at hop
  rcases hop with rfl | rfl | hop
  · exact True.intro
  · split
    · rename_i hpeer
      exact ⟨hr, hpeer⟩
    · rename_i hpeer
      exact ⟨hr, by simpa using hpeer⟩
  · exact hs op hop

/-- A message of the client. -/
theorem moves_onText (hs : s.todo = []) (text : String) : Moves ops s (s.onText ops text) := by
  have hnil : s.TodoRouted ops.topics := by simp [TodoRouted, hs]
  unfold onText
  split
  · rename_i topic limit outboundCapacity _
    unfold onSubscribe
    split
    · exact .of_todo rfl fun _ => by simp [TodoRouted, DispatchOp.Routed]
    · dsimp only
      split
      · exact .of_todo rfl fun _ => by simp [TodoRouted, DispatchOp.Routed]
      · rename_i pattern hparse
        split
        · refine .of_todo rfl fun _ op hop => ?_
          obtain rfl := List.mem_singleton.mp hop
          exact ⟨hparse, rfl, rfl⟩
        · exact .of_todo rfl fun _ => routed_accept ⟨hparse, rfl, rfl⟩ hnil
  · exact .of_todo rfl fun _ => by simp [TodoRouted, DispatchOp.Routed]
  · exact .of_todo rfl fun _ => by simp [TodoRouted, DispatchOp.Routed]
  · exact .of_todo rfl fun _ => by simp [TodoRouted, DispatchOp.Routed]

/-- An operation of the dispatcher. -/
theorem moves_runOp {now : ℤ} {op : DispatchOp ρ}
    (hop : op.Routed ops.topics s.name s.peerSenders.isSome) (h : s.runOp ops now op = some t) :
    Moves ops s t := by
  -- a reply that is put back in front is routed as it stands
  have hcons : ∀ {new : DispatchOp ρ}, new.Routed ops.topics s.name s.peerSenders.isSome →
      Moves ops s { s with todo := new :: s.todo } :=
    fun hnew => .of_todo rfl fun hs => List.forall_mem_cons.mpr ⟨hnew, hs⟩
  -- an operation leaves the subscriptions of the bus alone unless it is about one
  cases op with
  | reply r =>
    simp only [runOp] at h
    split at h <;> obtain rfl := Option.some.inj h
    · exact .of_eq rfl rfl
    · exact hcons True.intro
    · exact .of_eq rfl rfl
  | fallback msg =>
    simp only [runOp] at h
    split at h <;> obtain rfl := Option.some.inj h <;> exact .of_eq rfl rfl
  | peerContext r =>
    simp only [runOp] at h
    split at h
    · split at h <;> obtain rfl := Option.some.inj h
      · exact .of_todo rfl fun hs => routed_accept hop hs
      · exact hcons True.intro
    · obtain rfl := Option.some.inj h
      exact .of_todo rfl fun hs => routed_accept hop hs
  | subscribePeer appId r =>
    simp only [runOp] at h
    split at h <;> obtain rfl := Option.some.inj h
    · exact hcons True.intro
    · exact ⟨rfl, rfl, .inl rfl, id⟩
  | subscribeLocal appId r =>
    -- the bus step is `subscribe`, and a refused one empties the list
    obtain ⟨bus, hbus, rfl⟩ := Option.map_eq_some_iff.mp h
    split
    · exact .of_bus hbus rfl (.inl rfl)
    · exact .of_bus hbus rfl (.inr rfl)
  | removeLocal appId =>
    simp only [runOp] at h
    split at h
    · obtain rfl := Option.some.inj h
      exact .of_eq rfl rfl
    · obtain ⟨bus, hbus, rfl⟩ := Option.map_eq_some_iff.mp h
      exact .of_bus hbus rfl (.inl rfl)
  | removeFwd appId =>
    simp only [runOp] at h
    split at h <;> obtain rfl := Option.some.inj h
    · exact .of_eq rfl rfl
    · exact .of_todo rfl fun hs => List.forall_mem_cons.mpr ⟨True.intro, hs⟩
  | unsubscribePeer peer topic =>
    obtain rfl := Option.some.inj h
    exact ⟨rfl, rfl, .inl rfl, id⟩

/-- A poll of a local forwarder takes from its queue, or drops its receiver. -/
theorem moves_pollLocal {k : ℕ} {now : ℤ} (h : s.pollLocal ops k now = some t) : Moves ops s t := by
  unfold pollLocal at h
  split at h
  · cases h
  · rename_i f hf
    obtain ⟨w, hw, rfl⟩ := Option.map_eq_some_iff.mp h
    -- a poll takes from the queue or drops the receiver, and nothing else
    have hbus : w.bus = s.bus ∨ ∃ act, s.bus.step ops.bus act = some w.bus := by
      cases WsConn.poll_effect hw with
      | wait _ hw => rw [hw]; exact .inl rfl
      | seen _ _ hw => rw [hw]; exact .inl rfl
      | take env bus _ hrecv hw =>
        have hrecv' : s.bus.recv f.sub = some (env, bus) := hrecv
        rw [hw]
        exact .inr ⟨.recv f.sub, by simp [Bus.step, hrecv', WsConn.setFwd]⟩
      | send _ _ _ _ hw => rw [hw]; exact .inl rfl
      | drop _ _ _ _ hw => rw [hw]; exact .inl rfl
      | gap now n _ _ _ hw =>
        rw [hw]
        unfold WsConn.emitGap
        dsimp only
        split <;> exact .inl rfl
      | hangup _ _ _ hw => rw [hw]; exact .inl rfl
      | finish _ _ _ hw => rw [hw]; exact .inl rfl
      | report _ hw => rw [hw]; exact .inl rfl
      | dropRx _ hw => rw [hw]; exact .inr ⟨.dropRx f.sub, rfl⟩
    exact ⟨rfl, rfl, hbus, id⟩

/-- A poll of a peer forwarder moves no work of the dispatcher. -/
theorem moves_pollPeer {k : ℕ} {now : ℤ} (h : s.pollPeer k now = some t) : Moves ops s t := by
  unfold pollPeer at h
  split at h
  · cases h
  · split at h
    · split at h
      · obtain rfl := Option.some.inj h; exact .of_eq rfl rfl
      · obtain rfl := Option.some.inj h; exact .of_eq rfl rfl
      · obtain rfl := Option.some.inj h; exact .of_eq rfl rfl
      · cases h
    · split at h <;> obtain rfl := Option.some.inj h <;> exact .of_eq rfl rfl
    · split at h <;> obtain rfl := Option.some.inj h <;> exact .of_eq rfl rfl
    · dsimp only at h
      split at h <;> obtain rfl := Option.some.inj h <;> exact .of_eq rfl rfl
    · obtain rfl := Option.some.inj h
      exact .of_eq rfl rfl
    · cases h

theorem moves_write {sent : Bool} (h : s.write sent = some t) : Moves ops s t := by
  unfold write at h
  split at h
  · split at h <;> obtain rfl := Option.some.inj h <;> exact .of_eq rfl rfl
  · split at h <;> obtain rfl := Option.some.inj h <;> exact .of_eq rfl rfl
  · split at h <;> obtain rfl := Option.some.inj h <;> exact .of_eq rfl rfl
  · obtain rfl := Option.some.inj h
    exact .of_eq rfl rfl
  · cases h

/-- **What a step of a connection does to the server.** -/
theorem moves_of_step {a : SocketAction ρ} (hs : s.TodoRouted ops.topics)
    (h : step ops s a = some t) : Moves ops s t := by
  cases a with
  | bus a =>
    simp only [step] at h
    split at h
    · obtain ⟨bus, hbus, rfl⟩ := Option.map_eq_some_iff.mp h
      exact .of_bus hbus rfl (.inl rfl)
    · cases h
  | hub a =>
    obtain ⟨hub, -, rfl⟩ := Option.map_eq_some_iff.mp h
    exact ⟨rfl, rfl, .inl rfl, id⟩
  | connected senders =>
    simp only [step] at h
    split at h
    · rename_i hsome
      obtain rfl := Option.some.inj h
      exact ⟨rfl, by simp [hsome], .inl rfl, by simp [TodoRouted, hsome]⟩
    · cases h
  | inbound m =>
    simp only [step] at h
    split at h
    · rename_i hidle
      split at h <;> obtain rfl := Option.some.inj h
      · exact moves_onText (List.isEmpty_iff.mp hidle.2) _
      · exact .of_eq rfl rfl
      · exact .of_eq rfl rfl
    · cases h
  | forwarderEvent =>
    simp only [step] at h
    split at h
    · split at h
      · cases h
      · rename_i ev rest _
        obtain rfl := Option.some.inj h
        cases ev <;> exact .of_todo rfl fun _ => by
          simp [onForwarderEvent, TodoRouted, DispatchOp.Routed]
    · cases h
  | dispatch now =>
    -- what is left of the list is routed as its whole was
    simp only [step, dispatch] at h
    split at h
    · rename_i op rest htodo
      have hop := hs op (by simp [htodo])
      have hrest : { s with todo := rest }.TodoRouted ops.topics :=
        fun op hop => hs op (by simp [htodo, hop])
      have hm := moves_runOp (s := { s with todo := rest }) hop h
      exact ⟨hm.name, hm.peering, hm.bus, fun _ => hm.routed hrest⟩
    · split at h
      · obtain rfl := Option.some.inj h
        exact .of_eq rfl rfl
      · split at h
        · obtain rfl := Option.some.inj h
          exact .of_eq rfl rfl
        · cases h
      · cases h
  | drain appId =>
    simp only [step, drain] at h
    split at h
    · split at h
      · obtain rfl := Option.some.inj h
        exact .of_todo rfl fun _ => by simp [TodoRouted, DispatchOp.Routed]
      · split at h
        · obtain rfl := Option.some.inj h
          exact .of_todo rfl fun _ => by simp [TodoRouted, DispatchOp.Routed]
        · cases h
    · cases h
  | pollLocal k now => exact moves_pollLocal h
  | pollPeer k now => exact moves_pollPeer h
  | cancelPeer k =>
    simp only [step, cancelPeer] at h
    split at h
    · cases h
    · split at h
      · obtain rfl := Option.some.inj h
        exact .of_eq rfl rfl
      · cases h
  | write sent => exact moves_write h

/-! ### Runs -/

/-- The server keeps its name and its bus is well formed. -/
structure RoutingInv (ops : SocketOps ρ κ) (app : AppState ρ) (s : Socket ρ) : Prop where
  name : s.name = app.name
  peering : s.peerSenders.isSome = app.peerSenders.isSome
  wellFormed : s.bus.WellFormed
  fresh : s.bus.FreshQueues
  routed : s.TodoRouted ops.topics

theorem RoutingInv.step {app : AppState ρ} {a : SocketAction ρ} (hi : RoutingInv ops app s)
    (h : step ops s a = some t) : RoutingInv ops app t := by
  have hm := moves_of_step hi.routed h
  refine ⟨hm.name.trans hi.name, hm.peering.trans hi.peering, ?_, ?_, hm.routed hi.routed⟩
  · rcases hm.bus with hbus | ⟨act, hbus⟩
    · rw [hbus]; exact hi.wellFormed
    · exact Bus.wellFormed_step hi.wellFormed hbus
  · rcases hm.bus with hbus | ⟨act, hbus⟩
    · rw [hbus]; exact hi.fresh
    · exact Bus.freshQueues_step hi.wellFormed hi.fresh hbus

/-- A server whose bus is in a state that a bus can be in. -/
def Running (ops : SocketOps ρ κ) (app : AppState ρ) : Prop :=
  ∃ replayCapacity, (Bus.machine ops.bus replayCapacity).Reachable app.bus

theorem routingInv_of_reachable {app : AppState ρ} (happ : Running ops app)
    (h : (machine ops app).Reachable s) : RoutingInv ops app s := by
  obtain ⟨replayCapacity, hbus⟩ := happ
  exact h.inv ⟨rfl, rfl, Bus.wellFormed_of_reachable hbus, Bus.freshQueues_of_reachable hbus,
    by simp [TodoRouted, machine]⟩ fun s a t hi hs => hi.step hs

/-- A subscription of the bus keeps its pattern along a run of the connection. -/
theorem onTopic_of_run {app : AppState ρ} {i : SubscriptionId} {p : TopicPattern ρ} :
    ∀ {as : List (SocketAction ρ)} {s t : Socket ρ}, RoutingInv ops app s →
      s.bus.OnTopic ops.bus i p → (machine ops app).run s as = some t →
        t.bus.OnTopic ops.bus i p := by
  intro as
  induction as with
  | nil =>
    intro s t _ h hrun
    obtain rfl : s = t := by simpa [Machine.run] using hrun
    exact h
  | cons a as ih =>
    intro s t hi h hrun
    obtain ⟨u, hu, hrun⟩ := Machine.run_cons.mp hrun
    have hu' : step ops s a = some u := hu
    refine ih (hi.step hu') ?_ hrun
    rcases (moves_of_step hi.routed hu').bus with hbus | ⟨act, hbus⟩
    · rwa [hbus]
    · exact h.step hbus

/-! ### Which subscriptions are served -/

/-- The subscription that the dispatcher has acknowledged and whose source it creates next. -/
def acknowledged (s : Socket ρ) : Option (UInt64 × Subscribing ρ) :=
  match s.todo with
  | .subscribePeer appId r :: _ => some (appId, r)
  | .subscribeLocal appId r :: _ => some (appId, r)
  | _ => none

omit [DecidableEq κ] in
/-- A subscription acknowledged is one that was routed. -/
theorem TodoRouted.acknowledged (h : s.TodoRouted ops.topics) {appId : UInt64} {r : Subscribing ρ}
    (hack : s.acknowledged = some (appId, r)) :
    r.Routed ops.topics s.name s.peerSenders.isSome := by
  unfold Socket.acknowledged at hack
  split at hack
  · rename_i htodo
    cases hack
    exact (h (.subscribePeer appId r) (by simp [htodo])).1
  · rename_i htodo
    cases hack
    exact (h (.subscribeLocal appId r) (by simp [htodo])).1
  · cases hack

/-- A peer of that name is connected. -/
def connectedTo (s : Socket ρ) (peer : String) : Bool :=
  s.peerSenders.any fun senders => (senders.sender peer).isSome

/-- The step from `s` to `t` registers the subscription `appId` with the pattern `p` on the bus, and
for as long as the entry is there, in every state of every run, it is offered what `p` matches. -/
structure ServedLocally (ops : SocketOps ρ κ) (app : AppState ρ) (s t : Socket ρ)
    (appId : UInt64) (p : TopicPattern ρ) : Prop where
  listed : t.conn.localSubs.lookup appId = some s.bus.nextId
  registered : (t.bus.subs s.bus.nextId).isSome = true
  offers : ∀ (as : List (SocketAction ρ)) (u : Socket ρ),
    (machine ops app).run t as = some u → (u.bus.subs s.bus.nextId).isSome = true →
      u.bus.Offers ops.bus s.bus.nextId p

theorem not_served_peer {app : AppState ρ} {now : ℤ} {appId : UInt64} {r : Subscribing ρ}
    {rest : List (DispatchOp ρ)} (hu : s.bus.subs s.bus.nextId = none)
    (h : { s with todo := rest }.runOp ops now (.subscribePeer appId r) = some t) :
    ¬ ServedLocally ops app s t appId r.pattern := by
  have hbus : t.bus = s.bus := by
    simp only [runOp] at h
    split at h <;> obtain rfl := Option.some.inj h <;> rfl
  intro hserved
  have hreg := hserved.registered
  rw [hbus, hu] at hreg
  cases hreg

/-- A local subscription is served as it was routed exactly when its capacity is accepted. -/
theorem served_local_iff {app : AppState ρ} {now : ℤ} {appId : UInt64} {r : Subscribing ρ}
    {rest : List (DispatchOp ρ)} (hi : RoutingInv ops app s)
    (hs : s.todo = .subscribeLocal appId r :: rest) (h : s.dispatch ops now = some t) :
    ServedLocally ops app s t appId r.pattern ↔ r.CapacityAccepted := by
  -- the bus gives its next id to the new subscription
  have hu := hi.wellFormed.untouched s.bus.nextId (Nat.le_refl _)
  have hit := hi.step (a := .dispatch now) h
  simp only [dispatch, hs] at h
  obtain ⟨bus, hbus, rfl⟩ := Option.map_eq_some_iff.mp h
  have hsome : (bus.subs s.bus.nextId).isSome = true ↔ r.CapacityAccepted := by
    rw [Bus.step_subscribe hbus]
    exact Bus.isSome_subscribe hu.subs rfl
  constructor
  · -- what is served is registered, so the capacity was accepted
    intro hserved
    refine hsome.mp ?_
    have hreg := hserved.registered
    split at hreg <;> exact hreg
  · intro hcap
    have hreg := hsome.mpr hcap
    rw [if_pos hreg] at hit ⊢
    -- from here on the bus offers to it whatever is on its pattern
    refine ⟨AList.lookup_insert _, hreg, fun as u hrun hthere => ?_⟩
    have honTopic : bus.OnTopic ops.bus s.bus.nextId r.pattern :=
      Bus.onTopic_subscribe hi.wellFormed hi.fresh hbus hreg
    exact (onTopic_of_run hit honTopic hrun).offers hthere

/-- **Which acknowledged subscriptions are served locally**, when no connected peer has the name:
those whose topic starts with the display name or with a slash, and whose queue can be built. -/
theorem served_iff (ops : SocketOps ρ κ) (app : AppState ρ)
    (hpeers : app.peerSenders.isSome = true) (happ : Running ops app)
    (hs : (machine ops app).Reachable s) {appId : UInt64} {r : Subscribing ρ}
    (hack : s.acknowledged = some (appId, r)) {now : ℤ} (ht : s.dispatch ops now = some t) :
    TopicPattern.parse ops.topics r.topic = .ok r.pattern ∧
      ((s.connectedTo (firstSegment r.topic) = false → ServedLocally ops app s t appId r.pattern) ↔
        s.connectedTo (firstSegment r.topic) = true ∨
          (firstSegment r.topic = "" ∨ firstSegment r.topic = app.name) ∧ r.CapacityAccepted) := by
  have hi := routingInv_of_reachable happ hs
  have hu := hi.wellFormed.untouched s.bus.nextId (Nat.le_refl _)
  unfold acknowledged at hack
  -- the list begins with the peer's subscription, or with a local one
  split at hack
  · rename_i appId' r' rest htodo
    cases hack
    obtain ⟨hr, hpeer⟩ := hi.routed (.subscribePeer appId r) (by simp [htodo])
    have hnot : ¬ ServedLocally ops app s t appId r.pattern := by
      simp only [dispatch, htodo] at ht
      exact not_served_peer hu.subs ht
    -- this one was routed to a peer, so its first segment is a peer's name
    have hroute := hr.isPeerTopic
    rw [hpeer, hi.name, hi.peering, hpeers, hr.first] at hroute
    have hne : ¬ (firstSegment r.topic = "" ∨ firstSegment r.topic = app.name) := by
      rintro (hempty | hname)
      · simp [hempty] at hroute
      · simp [hname] at hroute
    refine ⟨hr.parsed, fun h => .inl ?_, fun h hconn => ?_⟩
    · by_contra hconn
      exact hnot (h (by simpa using hconn))
    · rcases h with h | h
      · rw [hconn] at h; cases h
      · exact absurd h.1 hne
  · rename_i appId' r' rest htodo
    cases hack
    obtain ⟨hr, hpeer⟩ := hi.routed (.subscribeLocal appId r) (by simp [htodo])
    have hserved := served_local_iff hi htodo ht
    have hroute := hr.isPeerTopic
    rw [hpeer, hi.name, hi.peering, hpeers, hr.first] at hroute
    -- this one was routed here
    have hlocal : firstSegment r.topic = "" ∨ firstSegment r.topic = app.name := by
      by_cases hname : firstSegment r.topic = app.name
      · exact .inr hname
      · exact .inl (by simpa [hname] using hroute)
    refine ⟨hr.parsed, fun h => ?_, fun h hconn => ?_⟩
    · cases hconn : s.connectedTo (firstSegment r.topic) with
      | true => exact .inl rfl
      | false => exact .inr ⟨hlocal, hserved.mp (h hconn)⟩
    · rcases h with h | h
      · rw [hconn] at h; cases h
      · exact hserved.mpr h.2
  · cases hack

/-! ### A server with peers configured and none connected -/

/-- The text of a client's `Subscribe` message. -/
def subscribeText (topic : String) : String :=
  "\x7b\"type\":\"subscribe\",\"topic\":\"" ++ topic ++ "\"\x7d"

/-- A client that sends `Subscribe` messages for two topics. -/
def listenOps : SocketOps Empty Unit where
  topics := .plain
  extractKey _ _ := none
  serializedSize _ := 0
  parseInbound text :=
    if text = subscribeText "*/led/r1/state" then .ok (.subscribe "*/led/r1/state" none none)
    else if text = subscribeText "hub/led/r1/state" then
      .ok (.subscribe "hub/led/r1/state" none none)
    else .error "expected value at line 1 column 1"
  rfc3339 _ := none

def gateway : AppState Empty where
  name := "hub"
  bus := (Bus.machine listenOps.bus DEFAULT_REPLAY_CAPACITY).init
  peerSenders := some { peerContext := fun _ => none, sender := fun _ => none }
  peerStreams := {}

theorem running_gateway : Running listenOps gateway := ⟨DEFAULT_REPLAY_CAPACITY, [], rfl⟩

def ledState : EventEnvelope Json where
  eventId := ⟨"1"⟩
  nodeId := ⟨"hub"⟩
  resourceId := "r1"
  resourceKind := "led"
  streamId := .forResource ⟨"hub"⟩ "r1" "state"
  stream := "state"
  sequence := 1
  payloadKind := "state"
  data := .null

/-- The client subscribes, and the dispatcher runs `n` operations. -/
def subscribeRun (topic : String) (n : ℕ) : Option (Socket Empty) :=
  (machine listenOps gateway).run (machine listenOps gateway).init
    (.inbound (.text (subscribeText topic)) :: List.replicate n (.dispatch 0))

/-- **A topic that starts with a wildcard** is acknowledged and then taken for the topic of an
unknown peer: it is not registered on the bus, although it matches the server's own events. -/
theorem wildcard_topic_unserved : ∃ s t r, (machine listenOps gateway).Reachable s ∧
    s.acknowledged = some (1, r) ∧ r.topic = "*/led/r1/state" ∧
    TopicPattern.parse listenOps.topics r.topic = .ok r.pattern ∧
    listenOps.bus.Matches r.pattern ledState ∧
    s.connectedTo (firstSegment r.topic) = false ∧ s.dispatch listenOps 0 = some t ∧
    ¬ ServedLocally listenOps gateway s t 1 r.pattern := by
  -- the run is evaluated once, with everything the statement needs
  have hrun : (subscribeRun "*/led/r1/state" 2).any (fun s => s.acknowledged.any fun (appId, r) =>
      appId == 1 && r.topic == "*/led/r1/state" &&
      listenOps.bus.matchesEvent r.pattern ledState.topic ledState.data &&
      !s.connectedTo (firstSegment r.topic) &&
      (s.dispatch listenOps 0).any fun t => !(t.bus.subs s.bus.nextId).isSome) = true := by
    decide
  obtain ⟨s, hs, hack⟩ := (Option.any_eq_true _ _).mp hrun
  obtain ⟨⟨appId, r⟩, hack, hcheck⟩ := (Option.any_eq_true _ _).mp hack
  simp only [Bool.and_eq_true, beq_iff_eq, Bool.not_eq_true'] at hcheck
  obtain ⟨⟨⟨⟨rfl, htopic⟩, hmatch⟩, hconn⟩, hstep⟩ := hcheck
  obtain ⟨t, ht, hnone⟩ := (Option.any_eq_true _ _).mp hstep
  have hreach : (machine listenOps gateway).Reachable s := ⟨_, hs⟩
  have hi := routingInv_of_reachable running_gateway hreach
  refine ⟨s, t, r, hreach, hack, htopic, (hi.routed.acknowledged hack).parsed, hmatch, hconn, ht,
    fun hserved => ?_⟩
  rw [hserved.registered] at hnone
  cases hnone

/-- A gateway whose name is not its node id serves its own topic locally. -/
theorem served_display_name : ∃ s t r, (machine listenOps gateway).Reachable s ∧
    s.acknowledged = some (1, r) ∧ r.topic = "hub/led/r1/state" ∧
    listenOps.bus.Matches r.pattern ledState ∧ s.dispatch listenOps 0 = some t ∧
    ServedLocally listenOps gateway s t 1 r.pattern := by
  have hrun : (subscribeRun "hub/led/r1/state" 1).any (fun s => s.acknowledged.any fun (appId, r) =>
      appId == 1 && r.topic == "hub/led/r1/state" &&
      listenOps.bus.matchesEvent r.pattern ledState.topic ledState.data &&
      !s.connectedTo (firstSegment r.topic) && decide (r.opts.resolvedOutboundCapacity = 64) &&
      (s.dispatch listenOps 0).isSome) = true := by
    decide
  obtain ⟨s, hs, hack⟩ := (Option.any_eq_true _ _).mp hrun
  obtain ⟨⟨appId, r⟩, hack, hcheck⟩ := (Option.any_eq_true _ _).mp hack
  simp only [Bool.and_eq_true, beq_iff_eq, Bool.not_eq_true', decide_eq_true_eq] at hcheck
  obtain ⟨⟨⟨⟨⟨rfl, htopic⟩, hmatch⟩, hconn⟩, hcap⟩, hstep⟩ := hcheck
  obtain ⟨t, ht⟩ := Option.isSome_iff_exists.mp hstep
  have hreach : (machine listenOps gateway).Reachable s := ⟨_, hs⟩
  have hserved := served_iff listenOps gateway rfl running_gateway hreach hack ht
  refine ⟨s, t, r, hreach, hack, htopic, hmatch, ht, hserved.2.mpr (.inr ⟨.inr ?_, ?_⟩) hconn⟩
  · rw [htopic]; decide
  · rw [Subscribing.CapacityAccepted, hcap]; decide

end Socket

end Boardwalk
