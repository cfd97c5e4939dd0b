import Boardwalk.Events.Spec.Quota
import Boardwalk.Http.Spec.PeerRefcount
import Boardwalk.Http.Spec.Socket
import Boardwalk.Lib.Party

/-!
# The limit of a WebSocket subscription

A `Subscribe` message may carry a limit.  The dispatcher hands it to the bus with a local
subscription, which counts the envelopes it enqueues, and drops it for a forwarded one, where nobody
counts the frames.

`frames_le_limit` says for which runs no subscription is sent more event frames than its limit.
-/

namespace Boardwalk

/-- The reference names the subscription. -/
def SubscriptionRef.names (id : UInt64) : SubscriptionRef → Bool
  | single i => i == id
  | multiple ids => ids.contains id

/-- The message is an event frame of the subscription. -/
def OutboundMessage.isEventOf {δ : Type} (id : UInt64) : OutboundMessage δ → Bool
  | .event _ ref _ _ _ _ _ _ _ _ _ _ _ _ _ => ref.names id
  | _ => false

/-- The event frames of a subscription that were put into the queue. -/
def Mpsc.frames {δ : Type} (q : Mpsc (OutboundMessage δ)) (id : UInt64) : ℕ :=
  q.enqueued.countP fun msg => msg.isEventOf id

/-- What the forwarder has in hand is an event frame of no other subscription. -/
def PeerForwarder.Own (f : PeerForwarder) : Prop :=
  ∀ msg, f.phase = .send msg → ∀ id, msg.isEventOf id = true → id = f.appId

/-- The frames that the forwarder has in hand. -/
def PeerForwarder.inHand (f : PeerForwarder) : ℕ :=
  match f.phase with
  | .send _ => 1
  | _ => 0

/-- The id of the subscription that the operation opens. -/
def DispatchOp.newId {ρ : Type} : DispatchOp ρ → Option UInt64
  | .subscribePeer appId _ | .subscribeLocal appId _ => some appId
  | _ => none

namespace Socket

variable {ρ κ : Type} [DecidableEq κ] {ops : SocketOps ρ κ} {s t : Socket ρ}

/-- The event frames of a subscription that the connection has produced. -/
def frames (s : Socket ρ) (id : UInt64) : ℕ := s.out.frames id + s.terminal.frames id

/-- The subscriptions, by their ids, that a connection has opened a source for. -/
abbrev Opened (ρ : Type) := List (UInt64 × Subscribing ρ)

/-- The dispatcher opens the source of what it has acknowledged. -/
def opens (s : Socket ρ) (a : SocketAction ρ) (opened : Opened ρ) : Opened ρ :=
  match a with
  | .dispatch _ => opened ++ s.acknowledged.toList
  | _ => opened

/-- The peer forwarder finds a line in the stream of its peer. -/
def hasLine (s : Socket ρ) (f : PeerForwarder) : Bool :=
  match f.phase, (s.peerStreams.recv f.upstream f.next).1 with
  | .recv, .value _ => true
  | _, _ => false

/-- The subscription whose forwarder takes a line. -/
def takes (s : Socket ρ) : SocketAction ρ → Option UInt64
  | .pollPeer k _ => (s.peers[k]?.filter s.hasLine).map (·.appId)
  | _ => none

/-- What a connection was given: the subscriptions, and the lines of the peers for each of them. -/
structure Account (ρ : Type) where
  opened : Opened ρ := []
  lines : UInt64 → ℕ := fun _ => 0

def account (s : Socket ρ) (a : SocketAction ρ) (acc : Account ρ) : Account ρ where
  opened := s.opens a acc.opened
  lines id := acc.lines id + if s.takes a = some id then 1 else 0

/-- A connection and what it was given. -/
def subscriptions (ops : SocketOps ρ κ) (app : AppState ρ) :
    Machine (Socket ρ × Account ρ) (SocketAction ρ) :=
  (machine ops app).withHistory {} account

/-- The acknowledged subscriptions: of the last one the source may still be to be opened. -/
def acked (x : Socket ρ × Account ρ) : Opened ρ := x.2.opened ++ x.1.acknowledged.toList

/-- Each acknowledged subscription has at most as many event frames as its limit. -/
def LimitsKept (x : Socket ρ × Account ρ) : Prop :=
  ∀ p ∈ acked x, ∀ n, p.2.limit = some n → x.1.frames p.1 ≤ n.toNat

/-- The step goes past a limit: a `try_publish` enqueues to a local subscription with no quota left,
or a peer forwarder takes a line after as many as the limit. -/
def Exceeds (ops : SocketOps ρ κ) (x : Socket ρ × Account ρ) : SocketAction ρ → Prop
  | .bus act => ∃ f ∈ x.1.locals, Bus.Overdraws ops.bus f.sub x.1.bus act
  | .pollPeer k now => ∃ id ∈ x.1.takes (.pollPeer k now),
      ∃ p ∈ x.2.opened, p.1 = id ∧ ∃ n ∈ p.2.limit, n.toNat ≤ x.2.lines id
  | _ => False

/-- The counter of ids has not come to its end. -/
def NoWrap (s : Socket ρ) : Prop := s.conn.nextAppId.toNat + 1 < 2 ^ 64

instance (ops : SocketOps ρ κ) (x : Socket ρ × Account ρ) : ∀ a, Decidable (Exceeds ops x a)
  | .bus _ => inferInstanceAs (Decidable (∃ f ∈ x.1.locals, _))
  | .pollPeer k now => inferInstanceAs (Decidable (∃ id ∈ x.1.takes (.pollPeer k now), _))
  | .hub _ | .connected _ | .inbound _ | .forwarderEvent | .dispatch _ | .drain _ | .pollLocal _ _
  | .cancelPeer _ | .write _ => isFalse id

instance (s : Socket ρ) : Decidable s.NoWrap := inferInstanceAs (Decidable (_ < _))

/-! ### Frames -/

end Socket

section Frames

variable {δ : Type} {q q' : Mpsc (OutboundMessage δ)} {msg : OutboundMessage δ}

theorem frames_trySend (h : q.trySend msg = .ok q') (id : UInt64) :
    q'.frames id = q.frames id + if msg.isEventOf id then 1 else 0 := by
  rw [Mpsc.trySend_ok h, Mpsc.frames, Mpsc.frames, Mpsc.enqueued_push, List.countP_append,
    List.countP_singleton]

theorem frames_trySend_of_not_event (h : q.trySend msg = .ok q')
    (hmsg : ∀ id, msg.isEventOf id = false) (id : UInt64) : q'.frames id = q.frames id := by
  rw [frames_trySend h, hmsg id]
  rfl

theorem frames_recv (h : q.recv = some (msg, q')) (id : UInt64) : q'.frames id = q.frames id := by
  rw [Mpsc.frames, Mpsc.frames, Mpsc.enqueued_recv h]

theorem isEventOf_eq_false_of_isOwed (h : msg.isOwed = true) (id : UInt64) :
    msg.isEventOf id = false := by
  cases msg with
  | event => cases h
  | _ => rfl

theorem isEventOf_reply (r : Reply) (now : ℤ) (id : UInt64) :
    (r.message now : OutboundMessage δ).isEventOf id = false := by
  cases r <;> rfl

theorem isEventOf_renderEventForWs {rfc3339 : OffsetDateTime → Option String} {appId id : UInt64}
    {env : EventEnvelope δ} : (renderEventForWs rfc3339 appId env).isEventOf id = true ↔
      id = appId := by
  show (appId == id) = true ↔ _
  rw [beq_iff_eq, eq_comm]

theorem isEventOf_renderPeerEvent {now : ℤ} {appId id : UInt64} {topic : String} {v : Json} :
    (renderPeerEvent now appId topic v).isEventOf id = true ↔ id = appId := by
  show (appId == id) = true ↔ _
  rw [beq_iff_eq, eq_comm]

end Frames

/-- A consumer does not give back what it has taken. -/
theorem Bus.received_le_of_step {δ τ κ : Type} [DecidableEq κ] {ops : BusOps δ τ κ}
    {b b' : Bus δ τ} {a : BusAction δ τ} {i : SubscriptionId} (hi : i ≠ b.nextId)
    (hs : b.step ops a = some b') :
    (b.mpsc i).received.length ≤ (b'.mpsc i).received.length := by
  by_cases ha : a = .recv i
  · subst ha
    obtain ⟨env, hr⟩ := step_recv hs
    rcases recv_cases hr with ⟨q, hq, rfl⟩ | ⟨state, rfl⟩
    · simp [setMpsc, (Mpsc.recv_some hq).2.1]
    · exact Nat.le_refl _
  · rw [received_of_step hi ha hs]

theorem PeerForwarder.inHand_eq_zero {f : PeerForwarder} (h : ∀ msg, f.phase ≠ .send msg) :
    f.inHand = 0 := by
  unfold PeerForwarder.inHand
  split
  · rename_i msg hp
    exact absurd hp (h msg)
  · rfl

namespace Socket

variable {ρ κ : Type} [DecidableEq κ] {ops : SocketOps ρ κ} {s t : Socket ρ}

/-! ### What a step does to the subscriptions -/

/-- No frame is produced and no source is opened or polled. -/
structure Calm (ops : SocketOps ρ κ) (s t : Socket ρ) : Prop where
  frames : ∀ id, t.frames id = s.frames id
  locals : t.locals = s.locals
  peerIds : t.peers.map (·.appId) = s.peers.map (·.appId)
  peers : ∀ g ∈ t.peers, ∃ f ∈ s.peers, g.appId = f.appId ∧ g.phase = f.phase
  bus : t.bus = s.bus ∨ ∃ act, s.bus.step ops.bus act = some t.bus ∧
    ∀ f ∈ s.locals, ¬ Bus.Overdraws ops.bus f.sub s.bus act

/-- Neither the queues nor the forwarders change. -/
theorem Calm.of_eq (hout : ∀ id, t.out.frames id = s.out.frames id)
    (hterminal : ∀ id, t.terminal.frames id = s.terminal.frames id)
    (hlocals : t.locals = s.locals) (hpeers : t.peers = s.peers)
    (hbus : t.bus = s.bus ∨ ∃ act, s.bus.step ops.bus act = some t.bus ∧
      ∀ f ∈ s.locals, ¬ Bus.Overdraws ops.bus f.sub s.bus act) : Calm ops s t where
  frames id := by rw [Socket.frames, Socket.frames, hout, hterminal]
  locals := hlocals
  peerIds := by rw [hpeers]
  peers g hg := ⟨g, by rwa [hpeers] at hg, rfl, rfl⟩
  bus := hbus

/-- Local forwarder `k`, which was `f`, is polled and is then `f'`. -/
structure LocalPolled (ops : SocketOps ρ κ) (s t : Socket ρ) (k : ℕ)
    (f f' : LocalForwarder Json) : Prop where
  at_k : s.locals[k]? = some f
  locals : t.locals = s.locals.set k f'
  appId : f'.appId = f.appId
  sub : f'.sub = f.sub
  peers : t.peers = s.peers
  bus : t.bus = s.bus ∨ ∃ act, s.bus.step ops.bus act = some t.bus ∧
    ∀ i, ¬ Bus.Overdraws ops.bus i s.bus act
  taken : f'.sent.length + f'.inHand.length + (s.bus.mpsc f.sub).received.length ≤
    f.sent.length + f.inHand.length + (t.bus.mpsc f.sub).received.length
  frames : (∀ id, t.frames id = s.frames id) ∧ f'.sent = f.sent ∨
    (∀ id, t.frames id = s.frames id + if id = f.appId then 1 else 0) ∧
      f'.sent.length = f.sent.length + 1

/-- The final `stream-gap` is no event frame. -/
theorem frames_emitGap (w : WsConn Json (TopicPattern ρ)) (f : LocalForwarder Json) (now : ℤ)
    (n : SlowConsumerNotice) : (w.emitGap f now n).bus = w.bus ∧ (w.emitGap f now n).out = w.out ∧
      (∀ id, (w.emitGap f now n).terminal.frames id = w.terminal.frames id) ∧
      ∃ f', (w.emitGap f now n).fwd = some f' ∧ f'.appId = f.appId ∧ f'.sub = f.sub ∧
        f'.sent = f.sent ∧ f'.inHand = [] := by
  unfold WsConn.emitGap
  dsimp only
  split
  · rename_i terminal hsend
    exact ⟨rfl, rfl, fun id => frames_trySend_of_not_event hsend (fun _ => rfl) id, _, rfl, rfl,
      rfl, rfl, rfl⟩
  · exact ⟨rfl, rfl, fun _ => rfl, _, rfl, rfl, rfl, rfl, rfl⟩

theorem localPolled_of_pollLocal {k : ℕ} {now : ℤ}
    (hopts : ∀ f ∈ s.locals, ∃ opts, (s.bus.hist f.sub).opts = some opts ∧
      opts.slowConsumerPolicy.isMpsc = true)
    (h : s.pollLocal ops k now = some t) : ∃ f f', LocalPolled ops s t k f f' := by
  unfold pollLocal at h
  split at h
  · cases h
  rename_i f hk
  obtain ⟨opts, hf, hmpsc⟩ := hopts f (List.mem_of_getElem? hk)
  refine ⟨f, ?_⟩
  obtain ⟨w, hw, rfl⟩ := Option.map_eq_some_iff.mp h
  -- a poll that leaves the bus and the normal queue alone
  have hquiet : ∀ f', w.fwd = some f' → w.bus = s.bus → w.out = s.out →
      (∀ id, w.terminal.frames id = s.terminal.frames id) →
      f'.appId = f.appId → f'.sub = f.sub → f'.sent = f.sent →
      f'.inHand.length ≤ f.inHand.length →
      ∃ f', LocalPolled ops s
        { s with
          bus := w.bus
          out := w.out
          terminal := w.terminal
          fwdEvents := w.fwdEvents
          locals := s.locals.set k (w.fwd.getD f) } k f f' := by
    intro f' hfwd hbus hout hterminal hid hsub hsent hhand
    refine ⟨f', hk, by rw [hfwd]; rfl, hid, hsub, rfl, Or.inl hbus, ?_, Or.inl ⟨?_, hsent⟩⟩
    · show _ ≤ _ + (w.bus.mpsc f.sub).received.length
      rw [hbus, hsent]
      omega
    · intro id
      show w.out.frames id + w.terminal.frames id = _
      rw [hout, hterminal]
      rfl
  cases WsConn.poll_effect hw with
  | wait phase next hand _ =>
    subst next
    exact hquiet _ rfl rfl rfl (fun _ => rfl) rfl rfl rfl (by rw [hand])
  | seen hp _ next =>
    subst next
    exact hquiet _ rfl rfl rfl (fun _ => rfl) rfl rfl rfl (by simp [LocalForwarder.inHand, hp])
  | take env bus hp recv next =>
    subst next
    have hrecv : s.bus.recv f.sub = some (env, bus) := recv
    have hstep : s.bus.step ops.bus (.recv f.sub) = some bus := by simp [Bus.step, hrecv]
    refine ⟨{ f with phase := .innerNotice env }, hk, rfl, rfl, rfl, rfl,
      Or.inr ⟨.recv f.sub, hstep, fun _ h => h⟩, ?_, Or.inl ⟨fun _ => rfl, rfl⟩⟩
    obtain ⟨q, hq, rfl⟩ := Bus.recv_mpsc hf hmpsc hrecv
    have hreceived : ((s.bus.setMpsc f.sub q).mpsc f.sub).received.length =
        (s.bus.mpsc f.sub).received.length + 1 := by
      simp [Bus.setMpsc, (Mpsc.recv_some hq).2.1]
    have hhand : f.inHand = [] := by simp [LocalForwarder.inHand, hp]
    show f.sent.length + 1 + _ ≤ _ + ((s.bus.setMpsc f.sub q).mpsc f.sub).received.length
    rw [hreceived, hhand, List.length_nil]
    omega
  | send env out hp sent next =>
    subst next
    refine ⟨{ f with phase := .outerNotice, sent := f.sent ++ [env] }, hk, rfl, rfl, rfl, rfl,
      Or.inl rfl, ?_, Or.inr ⟨?_, by simp⟩⟩
    · have hhand : f.inHand = [env] := by simp [LocalForwarder.inHand, hp]
      rw [hhand]
      simp [LocalForwarder.inHand, WsConn.setFwd, toWsConn]
    · intro id
      show out.frames id + s.terminal.frames id = _
      rw [frames_trySend sent]
      simp only [isEventOf_renderEventForWs, Socket.frames, toWsConn]
      omega
  | drop env hp _ _ next =>
    subst next
    exact hquiet _ rfl rfl rfl (fun _ => rfl) rfl rfl rfl (by simp [LocalForwarder.inHand, hp])
  | gap now n _ _ _ next =>
    subst next
    obtain ⟨hbus, hout, hterminal, f', hfwd, hid, hsub, hsent, hhand⟩ :=
      frames_emitGap (s.toWsConn f) { f with lost := f.lost ++ f.inHand } now n
    exact hquiet f' hfwd hbus hout hterminal hid hsub hsent (by simp [hhand])
  | hangup env hp _ next =>
    subst next
    exact hquiet _ rfl rfl rfl (fun _ => rfl) rfl rfl rfl (by simp [LocalForwarder.inHand, hp])
  | finish hp _ _ next =>
    subst next
    exact hquiet _ rfl rfl rfl (fun _ => rfl) rfl rfl rfl (by simp [LocalForwarder.inHand, hp])
  | report hp next =>
    subst next
    exact hquiet _ rfl rfl rfl (fun _ => rfl) rfl rfl rfl (by simp [LocalForwarder.inHand, hp])
  | dropRx hp next =>
    subst next
    refine ⟨{ f with phase := .done }, hk, rfl, rfl, rfl, rfl,
      Or.inr ⟨.dropRx f.sub, rfl, fun _ h => h⟩, ?_, Or.inl ⟨fun _ => rfl, rfl⟩⟩
    simp [LocalForwarder.inHand, WsConn.setFwd, toWsConn, Bus.dropRx, Bus.setMpsc, Mpsc.dropRx]

/-- Peer forwarder `k`, which was `f`, is polled or cancelled and is then `f'`.  It took so many
lines. -/
structure PeerMoved (s t : Socket ρ) (k : ℕ) (f f' : PeerForwarder) (took : ℕ) : Prop where
  at_k : s.peers[k]? = some f
  peers : t.peers = s.peers.set k f'
  appId : f'.appId = f.appId
  own : f'.Own
  locals : t.locals = s.locals
  bus : t.bus = s.bus
  others : f.Own → ∀ id, id ≠ f.appId → t.frames id = s.frames id
  frames : t.frames f.appId + f'.inHand ≤ s.frames f.appId + f.inHand + took

omit [DecidableEq κ] in
/-- The forwarder moves on, and no frame is produced. -/
theorem peerMoved_quiet {k : ℕ} {f : PeerForwarder} (hk : s.peers[k]? = some f)
    {u : Socket ρ} (hpeers : u.peers = s.peers) (hlocals : u.locals = s.locals)
    (hbus : u.bus = s.bus) (hframes : ∀ id, u.frames id = s.frames id) {f' : PeerForwarder}
    {took : ℕ} (hid : f'.appId = f.appId) (hown : f'.Own) (htook : f'.inHand ≤ took) :
    PeerMoved s (u.setPeer k f') k f f' took where
  at_k := hk
  peers := by rw [← hpeers]; rfl
  appId := hid
  own := hown
  locals := hlocals
  bus := hbus
  others _ id _ := hframes id
  frames := by
    have hsame : (u.setPeer k f').frames f.appId = s.frames f.appId := hframes _
    omega

omit [DecidableEq κ] in
/-- A poll of a peer forwarder takes at most one line and sends at most one frame. -/
theorem peerMoved_of_pollPeer {k : ℕ} {now : ℤ} (h : s.pollPeer k now = some t) :
    ∃ f f', PeerMoved s t k f f' (s.hasLine f).toNat := by
  unfold pollPeer at h
  split at h
  · cases h
  rename_i f hk
  -- no frame is produced, and none is in hand
  have hidle : ∀ {u : Socket ρ}, u.peers = s.peers → u.locals = s.locals → u.bus = s.bus →
      (∀ id, u.frames id = s.frames id) → ∀ f' : PeerForwarder, f'.appId = f.appId →
      (∀ msg, f'.phase ≠ .send msg) → PeerMoved s (u.setPeer k f') k f f' (s.hasLine f).toNat := by
    intro u hpeers hlocals hbus hframes f' hid hphase
    refine peerMoved_quiet hk hpeers hlocals hbus hframes hid
      (fun msg hmsg => absurd hmsg (hphase msg)) ?_
    rw [PeerForwarder.inHand_eq_zero hphase]
    exact Nat.zero_le _
  have hstay : ∀ id, s.frames id = s.frames id := fun _ => rfl
  split at h
  · -- a line comes into its hand
    rename_i hp
    split at h
    · rename_i v next hrecv
      obtain rfl := Option.some.inj h
      have hline : s.hasLine f = true := by simp only [hasLine, hp, hrecv]
      refine ⟨f, _, peerMoved_quiet (u := s) hk rfl rfl rfl hstay rfl ?_ ?_⟩
      · intro msg hmsg id hid
        obtain rfl := PeerForwarderPhase.send.inj hmsg
        exact isEventOf_renderPeerEvent.mp hid
      · rw [hline]
        exact Nat.le_refl 1
    · obtain rfl := Option.some.inj h
      exact ⟨f, _, hidle rfl rfl rfl hstay _ rfl (by simp)⟩
    · obtain rfl := Option.some.inj h
      exact ⟨f, _, hidle rfl rfl rfl hstay _ rfl (by simp)⟩
    · cases h
  · -- the frame in hand is sent, or lost with the forwarder
    rename_i msg hp
    split at h
    · rename_i out hsend
      obtain rfl := Option.some.inj h
      have hsent : ∀ id, { s with out }.frames id =
          s.frames id + if msg.isEventOf id then 1 else 0 := by
        intro id
        show out.frames id + s.terminal.frames id = _
        rw [frames_trySend hsend, Socket.frames]
        omega
      refine ⟨f, { f with phase := .recv }, hk, rfl, rfl, by simp [PeerForwarder.Own], rfl, rfl,
        ?_, ?_⟩
      · intro hown id hid
        have hevent : ¬ msg.isEventOf id = true := fun hevent => hid (hown msg hp id hevent)
        exact (hsent id).trans (by rw [if_neg hevent, Nat.add_zero])
      · have hhand : f.inHand = 1 := by rw [PeerForwarder.inHand, hp]
        show { s with out }.frames f.appId + 0 ≤ _
        rw [hsent, hhand]
        split <;> omega
    · obtain rfl := Option.some.inj h
      exact ⟨f, _, hidle rfl rfl rfl hstay _ rfl (by simp)⟩
    · obtain rfl := Option.some.inj h
      exact ⟨f, _, hidle rfl rfl rfl hstay _ rfl (by simp)⟩
  · -- the terminal queue gets a `stream-gap`, which is no event
    split at h
    · rename_i terminal hsend
      obtain rfl := Option.some.inj h
      have hsame : ∀ id, { s with terminal }.frames id = s.frames id := by
        intro id
        show s.out.frames id + terminal.frames id = _
        rw [frames_trySend_of_not_event hsend fun _ => rfl, Socket.frames]
      exact ⟨f, _, hidle (u := { s with terminal }) rfl rfl rfl hsame _ rfl (by simp)⟩
    · obtain rfl := Option.some.inj h
      exact ⟨f, _, hidle rfl rfl rfl hstay _ rfl (by simp)⟩
  · dsimp only at h
    split at h
    · rename_i out hsend
      obtain rfl := Option.some.inj h
      have hsame : ∀ id, { s with out }.frames id = s.frames id := by
        intro id
        show out.frames id + s.terminal.frames id = _
        rw [frames_trySend_of_not_event hsend fun _ => rfl, Socket.frames]
      exact ⟨f, _, hidle (u := { s with out }) rfl rfl rfl hsame _ rfl (by simp)⟩
    · obtain rfl := Option.some.inj h
      exact ⟨f, _, hidle rfl rfl rfl hstay _ rfl (by simp)⟩
  · obtain rfl := Option.some.inj h
    let fwdEvents := s.fwdEvents ++ [ForwarderEvent.lagTerminated f.appId]
    exact ⟨f, _, hidle (u := { s with fwdEvents }) rfl rfl rfl (fun _ => rfl) _ rfl (by simp)⟩
  · cases h

omit [DecidableEq κ] in
theorem peerMoved_of_cancelPeer {k : ℕ} (h : s.cancelPeer k = some t) :
    ∃ f f', PeerMoved s t k f f' 0 := by
  unfold cancelPeer at h
  split at h
  · cases h
  rename_i f hk
  split at h
  · obtain rfl := Option.some.inj h
    have hown : { f with phase := .done }.Own := by simp [PeerForwarder.Own]
    exact ⟨f, _, peerMoved_quiet (u := s) hk rfl rfl rfl (fun _ => rfl) rfl hown (Nat.le_refl 0)⟩
  · cases h

/-! ### The operations of the dispatcher -/

/-- The ids that the dispatcher is about to open a source for. -/
def opening (s : Socket ρ) : List UInt64 := s.todo.filterMap DispatchOp.newId

/-- What becomes of the ids. -/
inductive IdsMove (s t : Socket ρ) : Prop where
  | keep (next : t.conn.nextAppId = s.conn.nextAppId) (opening : t.opening.Sublist s.opening)
  | new (next : t.conn.nextAppId = s.conn.nextAppId + 1)
      (opening : t.opening = s.conn.nextAppId :: s.opening)

omit [DecidableEq κ] in
theorem opening_accept (s : Socket ρ) (r : Subscribing ρ) :
    (s.accept r).opening = s.conn.nextAppId :: s.opening := by
  unfold opening accept
  cases r.isPeerTopic <;> rfl

/-- The step opens the source of a local subscription. -/
structure OpensLocal (ops : SocketOps ρ κ) (s t : Socket ρ) (appId : UInt64)
    (r : Subscribing ρ) : Prop where
  bus : s.bus.step ops.bus (.subscribe r.pattern r.opts) = some t.bus
  entered : (t.bus.subs s.bus.nextId).isSome = true
  locals : t.locals = s.locals ++ [{ appId, sub := s.bus.nextId }]
  peers : t.peers = s.peers
  frames : ∀ id, t.frames id = s.frames id

/-- The step opens the source of a forwarded subscription. -/
structure OpensPeer (s t : Socket ρ) (appId : UInt64) : Prop where
  peers : ∃ f, t.peers = s.peers ++ [f] ∧ f.appId = appId ∧ f.phase = .recv
  locals : t.locals = s.locals
  bus : t.bus = s.bus
  frames : ∀ id, t.frames id = s.frames id

/-- What one operation of the dispatcher does to the subscriptions. -/
inductive Operates (ops : SocketOps ρ κ) (s t : Socket ρ) (op : DispatchOp ρ) : Prop where
  | calm (calm : Calm ops s t) (ids : IdsMove s t)
  | opensLocal (appId : UInt64) (r : Subscribing ρ) (op_eq : op = .subscribeLocal appId r)
      (opens : OpensLocal ops s t appId r) (ids : IdsMove s t)
  | opensPeer (appId : UInt64) (r : Subscribing ρ) (op_eq : op = .subscribePeer appId r)
      (opens : OpensPeer s t appId) (ids : IdsMove s t)

/-- An operation that frames no event by itself only operates on the bus and the queues. -/
theorem operates_of_runOp {now : ℤ} {op : DispatchOp ρ}
    (hop : ∀ msg, op = .fallback msg → ∀ id, msg.isEventOf id = false)
    (h : s.runOp ops now op = some t) : Operates ops s t op := by
  -- the bus and the queues are as before, up to messages that are no event
  have hstay : ∀ {u : Socket ρ}, (∀ id, u.out.frames id = s.out.frames id) →
      (∀ id, u.terminal.frames id = s.terminal.frames id) → u.locals = s.locals →
      u.peers = s.peers → u.bus = s.bus → IdsMove s u → Operates ops s u op :=
    fun hout hterminal hlocals hpeers hbus hids =>
      .calm (Calm.of_eq hout hterminal hlocals hpeers (Or.inl hbus)) hids
  have hids : ∀ {u : Socket ρ}, u.conn.nextAppId = s.conn.nextAppId →
      u.opening.Sublist s.opening → IdsMove s u := .keep
  cases op with
  | reply r =>
    -- a reply is no event, whether it fits, waits or is refused
    simp only [runOp] at h
    split at h
    · rename_i out hsend
      obtain rfl := Option.some.inj h
      exact hstay (frames_trySend_of_not_event hsend (isEventOf_reply r now)) (fun _ => rfl) rfl rfl
        rfl (hids rfl (List.Sublist.refl _))
    · obtain rfl := Option.some.inj h
      exact hstay (fun _ => rfl) (fun _ => rfl) rfl rfl rfl (hids rfl (List.Sublist.refl _))
    · obtain rfl := Option.some.inj h
      exact hstay (fun _ => rfl) (fun _ => rfl) rfl rfl rfl (hids rfl (List.Sublist.refl _))
  | fallback msg =>
    simp only [runOp] at h
    split at h
    · rename_i terminal hsend
      obtain rfl := Option.some.inj h
      exact hstay (fun _ => rfl) (frames_trySend_of_not_event hsend (hop msg rfl)) rfl rfl rfl
        (hids rfl (List.Sublist.refl _))
    · obtain rfl := Option.some.inj h
      exact hstay (fun _ => rfl) (fun _ => rfl) rfl rfl rfl (hids rfl (List.Sublist.refl _))
  | peerContext r =>
    simp only [runOp] at h
    split at h
    · split at h <;> obtain rfl := Option.some.inj h
      · exact hstay (fun _ => rfl) (fun _ => rfl) rfl rfl rfl (.new rfl (opening_accept s r))
      · exact hstay (fun _ => rfl) (fun _ => rfl) rfl rfl rfl (hids rfl (List.Sublist.refl _))
    · obtain rfl := Option.some.inj h
      exact hstay (fun _ => rfl) (fun _ => rfl) rfl rfl rfl (.new rfl (opening_accept s r))
  | subscribePeer appId r =>
    simp only [runOp] at h
    split at h
    · obtain rfl := Option.some.inj h
      exact hstay (fun _ => rfl) (fun _ => rfl) rfl rfl rfl (hids rfl (List.Sublist.refl _))
    · obtain rfl := Option.some.inj h
      exact .opensPeer appId r rfl ⟨⟨_, rfl, rfl, rfl⟩, rfl, rfl, fun _ => rfl⟩
        (hids rfl (List.Sublist.refl _))
  | subscribeLocal appId r =>
    obtain ⟨bus, hbus, rfl⟩ := Option.map_eq_some_iff.mp h
    split
    · rename_i hentered
      exact .opensLocal appId r rfl ⟨hbus, hentered, rfl, rfl, fun _ => rfl⟩
        (hids rfl (List.Sublist.refl _))
    · refine .calm (.of_eq (fun _ => rfl) (fun _ => rfl) rfl rfl (Or.inr ⟨_, hbus, ?_⟩))
        (hids rfl (List.nil_sublist _))
      exact fun _ _ hno => hno
  | removeLocal appId =>
    simp only [runOp] at h
    split at h
    · obtain rfl := Option.some.inj h
      exact hstay (fun _ => rfl) (fun _ => rfl) rfl rfl rfl (hids rfl (List.Sublist.refl _))
    · obtain ⟨bus, hbus, rfl⟩ := Option.map_eq_some_iff.mp h
      refine .calm (.of_eq (fun _ => rfl) (fun _ => rfl) rfl rfl (Or.inr ⟨_, hbus, ?_⟩))
        (hids rfl (List.Sublist.refl _))
      exact fun _ _ hno => hno
  | removeFwd appId =>
    simp only [runOp] at h
    split at h
    · obtain rfl := Option.some.inj h
      exact hstay (fun _ => rfl) (fun _ => rfl) rfl rfl rfl (hids rfl (List.Sublist.refl _))
    · rename_i fwd _
      obtain rfl := Option.some.inj h
      -- the forwarder is aborted; which id it serves and what it holds do not change
      refine .calm ⟨fun _ => rfl, rfl, ?_, ?_, Or.inl rfl⟩ (hids rfl (List.Sublist.refl _))
      · apply List.ext_getElem?
        intro i
        simp only [abortPeer, List.getElem?_map, List.getElem?_modify]
        cases s.peers[i]? with
        | none => rfl
        | some f => by_cases hi : fwd.abort = i <;> simp [hi]
      · intro g hg
        rw [abortPeer, List.mem_iff_getElem?] at hg
        obtain ⟨i, hi⟩ := hg
        rw [List.getElem?_modify] at hi
        obtain ⟨f, hf, rfl⟩ := Option.map_eq_some_iff.mp hi
        refine ⟨f, List.mem_of_getElem? hf, ?_⟩
        split <;> exact ⟨rfl, rfl⟩
  | unsubscribePeer peer topic =>
    obtain rfl := Option.some.inj h
    exact hstay (fun _ => rfl) (fun _ => rfl) rfl rfl rfl (hids rfl (List.Sublist.refl _))

/-- A message of the client produces no frame and opens no source. -/
theorem calm_onText (text : String) :
    Calm ops s (s.onText ops text) ∧ IdsMove s (s.onText ops text) := by
  -- a list of operations that opens nothing changes neither frames nor ids
  have htodo : ∀ {todo : List (DispatchOp ρ)}, todo.filterMap DispatchOp.newId = [] →
      Calm ops s { s with todo } ∧ IdsMove s { s with todo } := by
    intro todo hnone
    refine ⟨.of_eq (fun _ => rfl) (fun _ => rfl) rfl rfl (Or.inl rfl), .keep rfl ?_⟩
    show (todo.filterMap DispatchOp.newId).Sublist _
    rw [hnone]
    exact List.nil_sublist _
  unfold onText
  split
  · unfold onSubscribe
    split
    · exact htodo rfl
    · dsimp only
      split
      · exact htodo rfl
      · split
        · exact htodo rfl
        · exact ⟨.of_eq (fun _ => rfl) (fun _ => rfl) rfl rfl (Or.inl rfl),
            .new rfl (opening_accept s _)⟩
  · exact htodo rfl
  · exact htodo rfl
  · exact htodo rfl

omit [DecidableEq κ] in
/-- The writer changes no count of frames. -/
theorem frames_write {sent : Bool} (h : s.write sent = some t) (id : UInt64) :
    t.out.frames id = s.out.frames id ∧ t.terminal.frames id = s.terminal.frames id := by
  unfold write at h
  split at h
  · split at h
    · rename_i msg terminal hrecv
      obtain rfl := Option.some.inj h
      exact ⟨rfl, frames_recv hrecv id⟩
    · obtain rfl := Option.some.inj h
      exact ⟨rfl, rfl⟩
  · split at h
    · rename_i msg out hrecv
      obtain rfl := Option.some.inj h
      exact ⟨frames_recv hrecv id, rfl⟩
    · obtain rfl := Option.some.inj h
      exact ⟨rfl, rfl⟩
  · split at h <;> obtain rfl := Option.some.inj h <;> exact ⟨rfl, rfl⟩
  · obtain rfl := Option.some.inj h
    exact ⟨rfl, rfl⟩
  · cases h

omit [DecidableEq κ] in
/-- The subscription that is acknowledged is the one whose source is opened next. -/
theorem map_acknowledged {op : DispatchOp ρ} {rest : List (DispatchOp ρ)}
    (htodo : s.todo = op :: rest) :
    s.acknowledged.toList.map Prod.fst = op.newId.toList ∧
      s.opening = op.newId.toList ++ rest.filterMap DispatchOp.newId := by
  unfold acknowledged opening
  rw [htodo]
  cases op <;> exact ⟨rfl, rfl⟩

/-! ### The invariant -/

/-- A local subscription within its limit: it is one that was opened, the bus has the limit and
keeps its account, and the forwarder sends what it takes from its queue. -/
structure LocalKept (s : Socket ρ) (opened : Opened ρ) (f : LocalForwarder Json) : Prop where
  opts : ∃ r, (f.appId, r) ∈ opened ∧ (s.bus.hist f.sub).opts = some r.opts
  conserved : ∀ L, s.bus.Limited f.sub L → Ledger.Conserved L (s.bus.ledger f.sub)
  taken : f.sent.length + f.inHand.length ≤ (s.bus.mpsc f.sub).received.length
  frames : s.frames f.appId ≤ f.sent.length

/-- A forwarded subscription within its limit: each frame is a line that the forwarder took. -/
structure PeerKept (s : Socket ρ) (acc : Account ρ) (f : PeerForwarder) : Prop where
  own : f.Own
  frames : s.frames f.appId + f.inHand ≤ acc.lines f.appId
  lines : ∀ r, (f.appId, r) ∈ acc.opened → ∀ n, r.limit = some n → acc.lines f.appId ≤ n.toNat

/-- The ids of the forwarders. -/
def served (s : Socket ρ) : List UInt64 := s.locals.map (·.appId) ++ s.peers.map (·.appId)

/-- The ids that have been given to a subscription. -/
def given (s : Socket ρ) (opened : Opened ρ) : List UInt64 := opened.map Prod.fst ++ s.opening

/-- What holds along a run whose steps do not go past a limit. -/
structure LimitInv (s : Socket ρ) (acc : Account ρ) : Prop where
  nodup : (s.given acc.opened).Nodup
  below : ∀ id ∈ s.given acc.opened, id < s.conn.nextAppId
  servedOnce : s.served.Nodup
  served : ∀ id ∈ s.served, id ∈ acc.opened.map Prod.fst
  unserved : ∀ id, id ∉ s.served → s.frames id = 0 ∧ acc.lines id = 0
  locals : ∀ f ∈ s.locals, s.LocalKept acc.opened f
  peers : ∀ f ∈ s.peers, s.PeerKept acc f

omit [DecidableEq κ] in
/-- A subscription is served under the id that it was opened with, and under one limit. -/
theorem LimitInv.request_unique {acc : Account ρ} (h : s.LimitInv acc) {id : UInt64}
    {r r' : Subscribing ρ} (hr : (id, r) ∈ acc.opened) (hr' : (id, r') ∈ acc.opened) : r = r' := by
  have hnodup : (acc.opened.map Prod.fst).Nodup := h.nodup.of_append_left
  have heq := List.inj_on_of_nodup_map hnodup hr hr' rfl
  exact (Prod.mk.inj heq).2

omit [DecidableEq κ] in
theorem LocalKept.isMpsc {opened : Opened ρ} {f : LocalForwarder Json} (h : s.LocalKept opened f) :
    ∃ opts, (s.bus.hist f.sub).opts = some opts ∧ opts.slowConsumerPolicy.isMpsc = true := by
  obtain ⟨r, -, hopts⟩ := h.opts
  exact ⟨r.opts, hopts, rfl⟩

omit [DecidableEq κ] in
/-- **The bus keeps the limit of a local subscription.** -/
theorem LocalKept.frames_le {opened : Opened ρ} {f : LocalForwarder Json}
    (h : s.LocalKept opened f) : ∃ r, (f.appId, r) ∈ opened ∧
      ∀ n, r.limit = some n → s.frames f.appId ≤ n.toNat := by
  obtain ⟨r, hr, hopts⟩ := h.opts
  refine ⟨r, hr, fun n hn => ?_⟩
  have hlimited : s.bus.Limited f.sub n.toNat := ⟨r.opts, hopts, rfl, by simp [Subscribing.opts, hn]⟩
  calc s.frames f.appId ≤ f.sent.length := h.frames
    _ ≤ (s.bus.mpsc f.sub).received.length := by have := h.taken; omega
    _ ≤ (s.bus.mpsc f.sub).enqueued.length := by simp [Mpsc.enqueued]
    _ ≤ n.toNat := (h.conserved n.toNat hlimited).total_le

omit [DecidableEq κ] in
/-- **The invariant keeps the limits.** -/
theorem LimitInv.limitsKept {acc : Account ρ} (h : s.LimitInv acc) : LimitsKept (s, acc) := by
  rintro ⟨id, r⟩ hp n hn
  -- an id that no forwarder serves has had no frame
  have hnone : id ∉ s.served → s.frames id ≤ n.toNat := by
    intro hid
    rw [(h.unserved id hid).1]
    exact Nat.zero_le _
  rcases List.mem_append.mp hp with hopened | hack
  · by_cases hid : id ∈ s.served
    · rcases List.mem_append.mp hid with hlocal | hpeer
      · obtain ⟨f, hf, rfl⟩ := List.mem_map.mp hlocal
        obtain ⟨r', hr', hle⟩ := (h.locals f hf).frames_le
        obtain rfl := h.request_unique hopened hr'
        exact hle n hn
      · obtain ⟨f, hf, rfl⟩ := List.mem_map.mp hpeer
        have hkept := h.peers f hf
        exact (Nat.le_of_add_right_le hkept.frames).trans (hkept.lines r hopened n hn)
    · exact hnone hid
  · -- the source of the last one is still to be opened
    apply hnone
    intro hid
    have hopening : id ∈ s.opening := by
      cases htodo : s.todo with
      | nil => simp [acknowledged, htodo] at hack
      | cons op rest =>
        obtain ⟨hids, hopening⟩ := map_acknowledged htodo
        rw [hopening, ← hids]
        exact List.mem_append_left _ (List.mem_map.mpr ⟨_, hack, rfl⟩)
    exact (List.disjoint_of_nodup_append h.nodup) (h.served id hid) hopening

omit [DecidableEq κ] in
/-- A subscription that is still to be opened is not served. -/
theorem LimitInv.not_served {acc : Account ρ} (h : s.LimitInv acc) {id : UInt64}
    (hid : id ∈ s.opening) : id ∉ s.served :=
  fun hserved => List.disjoint_of_nodup_append h.nodup (h.served id hserved) hid

/-! ### One step -/

/-- What becomes of the ids that were given. -/
structure Gives (s t : Socket ρ) (opened opened' : Opened ρ) : Prop where
  opened : ∃ new, opened' = opened ++ new ∧ ∀ p ∈ new, p.1 ∈ s.opening
  nodup : (t.given opened').Nodup
  below : ∀ id ∈ t.given opened', id < t.conn.nextAppId

omit [DecidableEq κ] in
/-- The given ids stay apart when a new one is below the counter. -/
theorem gives_of_idsMove {acc : Account ρ} {new : Opened ρ} (h : s.LimitInv acc) (hwrap : s.NoWrap)
    {u : Socket ρ} (hu : u.conn.nextAppId = s.conn.nextAppId)
    (hnew : s.opening = new.map Prod.fst ++ u.opening) (hids : IdsMove u t) :
    Gives s t acc.opened (acc.opened ++ new) := by
  -- the ids in use before, seen from the list that is about to be opened
  have hgiven : s.given acc.opened = (acc.opened ++ new).map Prod.fst ++ u.opening := by
    rw [given, hnew, List.map_append, List.append_assoc]
  have hopened : ∃ new', acc.opened ++ new = acc.opened ++ new' ∧ ∀ p ∈ new', p.1 ∈ s.opening := by
    refine ⟨new, rfl, fun p hp => ?_⟩
    rw [hnew]
    exact List.mem_append_left _ (List.mem_map_of_mem hp)
  cases hids with
  | keep hnext hopening =>
    have hsub : (t.given (acc.opened ++ new)).Sublist (s.given acc.opened) := by
      rw [hgiven]
      exact (List.Sublist.refl _).append hopening
    refine ⟨hopened, h.nodup.sublist hsub, fun id hid => ?_⟩
    rw [hnext, hu]
    exact h.below id (hsub.subset hid)
  | new hnext hopening =>
    -- the new id is the counter itself, which no id in use has reached
    have hperm : (t.given (acc.opened ++ new)).Perm (s.conn.nextAppId :: s.given acc.opened) := by
      rw [hgiven, given, hopening, hu]
      exact List.perm_middle
    have hfresh : s.conn.nextAppId ∉ s.given acc.opened :=
      fun hmem => UInt64.lt_irrefl _ (h.below _ hmem)
    refine ⟨hopened, hperm.nodup_iff.mpr (List.nodup_cons.mpr ⟨hfresh, h.nodup⟩), ?_⟩
    intro id hid
    have hlt := lt_succ_of_noWrap hwrap
    rw [hnext, hu]
    rcases List.mem_cons.mp (hperm.subset hid) with rfl | hid
    · exact hlt
    · exact UInt64.lt_trans (h.below id hid) hlt

/-- What the bus keeps for a local subscription, and what the forwarder takes. -/
theorem LocalKept.next {opened opened' : Opened ρ} {f f' : LocalForwarder Json}
    (h : s.LocalKept opened f) (hb : s.bus.WellFormed)
    (hbus : t.bus = s.bus ∨ ∃ act, s.bus.step ops.bus act = some t.bus ∧
      ¬ Bus.Overdraws ops.bus f.sub s.bus act)
    (hopened : ∀ p ∈ opened, p ∈ opened') (hid : f'.appId = f.appId) (hsub : f'.sub = f.sub)
    (htaken : f'.sent.length + f'.inHand.length + (s.bus.mpsc f.sub).received.length ≤
      f.sent.length + f.inHand.length + (t.bus.mpsc f.sub).received.length)
    (hframes : t.frames f.appId ≤ f'.sent.length) : t.LocalKept opened' f' := by
  obtain ⟨r, hr, hopts⟩ := h.opts
  -- what the step took from the queue is all it added
  have htaken' : f'.sent.length + f'.inHand.length ≤ (t.bus.mpsc f.sub).received.length := by
    have := h.taken
    omega
  refine ⟨⟨r, by rw [hid]; exact hopened _ hr, ?_⟩, ?_, by rwa [hsub], by rwa [hid]⟩
  · rw [hsub]
    rcases hbus with hbus | ⟨act, hact, -⟩
    · rwa [hbus]
    · -- a run of the bus that does not overdraw keeps the count within the limit
      exact hb.opts_step hopts hact
  · rw [hsub]
    rcases hbus with hbus | ⟨act, hact, hno⟩
    · rw [hbus]
      exact h.conserved
    · exact Bus.conserved_step hb hno hact h.conserved

/-- A local forwarder that is not polled. -/
theorem LocalKept.keep {opened opened' : Opened ρ} {f : LocalForwarder Json}
    (h : s.LocalKept opened f) (hb : s.bus.WellFormed)
    (hbus : t.bus = s.bus ∨ ∃ act, s.bus.step ops.bus act = some t.bus ∧
      ¬ Bus.Overdraws ops.bus f.sub s.bus act)
    (hopened : ∀ p ∈ opened, p ∈ opened') (hframes : t.frames f.appId = s.frames f.appId) :
    t.LocalKept opened' f := by
  have hreceived : (s.bus.mpsc f.sub).received.length ≤ (t.bus.mpsc f.sub).received.length := by
    rcases hbus with hbus | ⟨act, hact, -⟩
    · rw [hbus]
    · obtain ⟨opts, hopts, -⟩ := h.isMpsc
      exact Bus.received_le_of_step (hb.lt_nextId_of_opts hopts).ne hact
  exact h.next hb hbus hopened rfl rfl (by omega) (hframes ▸ h.frames)

omit [DecidableEq κ] in
/-- A local forwarder on a bus that does not change. -/
theorem LocalKept.frame {opened opened' : Opened ρ} {f : LocalForwarder Json}
    (h : s.LocalKept opened f) (hbus : t.bus = s.bus) (hopened : ∀ p ∈ opened, p ∈ opened')
    (hframes : t.frames f.appId = s.frames f.appId) : t.LocalKept opened' f := by
  obtain ⟨⟨r, hr, hopts⟩, hconserved, htaken, hsent⟩ := h
  exact ⟨⟨r, hopened _ hr, hbus ▸ hopts⟩, hbus ▸ hconserved, hbus ▸ htaken, hframes.symm ▸ hsent⟩

omit [DecidableEq κ] in
theorem Gives.subset {opened opened' : Opened ρ} (h : Gives s t opened opened') :
    ∀ p ∈ opened, p ∈ opened' := by
  obtain ⟨new, rfl, -⟩ := h.opened
  exact fun p hp => List.mem_append_left _ hp

omit [DecidableEq κ] in
/-- What is served was opened before. -/
theorem LimitInv.opened_before {acc : Account ρ} {opened' : Opened ρ} (h : s.LimitInv acc)
    (hg : Gives s t acc.opened opened') {id : UInt64} (hid : id ∈ s.served) {r : Subscribing ρ}
    (hr : (id, r) ∈ opened') : (id, r) ∈ acc.opened := by
  obtain ⟨new, rfl, hnew⟩ := hg.opened
  rcases List.mem_append.mp hr with hr | hr
  · exact hr
  · exact absurd (hnew _ hr) (List.disjoint_of_nodup_append h.nodup (h.served id hid))

omit [DecidableEq κ] in
theorem LimitInv.served_mono {acc : Account ρ} {opened' : Opened ρ} (h : s.LimitInv acc)
    (hg : Gives s t acc.opened opened') (hserved : t.served = s.served) :
    t.served.Nodup ∧ ∀ id ∈ t.served, id ∈ opened'.map Prod.fst := by
  rw [hserved]
  refine ⟨h.servedOnce, fun id hid => ?_⟩
  obtain ⟨p, hp, rfl⟩ := List.mem_map.mp (h.served id hid)
  exact List.mem_map_of_mem (hg.subset p hp)

/-- The forwarded subscriptions, when no forwarder is polled. -/
theorem PeerKept.keep {acc : Account ρ} {opened' : Opened ρ} {f g : PeerForwarder}
    (h : s.PeerKept acc f) (hinv : s.LimitInv acc) (hg : Gives s t acc.opened opened')
    (hf : f ∈ s.peers) (hid : g.appId = f.appId) (hphase : g.phase = f.phase)
    (hframes : t.frames f.appId = s.frames f.appId) : t.PeerKept ⟨opened', acc.lines⟩ g := by
  have hin : f.appId ∈ s.served := List.mem_append_right _ (List.mem_map_of_mem hf)
  refine ⟨fun msg hmsg id hevent => ?_, ?_, fun r hr n hn => ?_⟩
  · rw [hid]
    exact h.own msg (hphase ▸ hmsg) id hevent
  · rw [hid, hframes, PeerForwarder.inHand, hphase]
    exact h.frames
  · rw [hid] at hr ⊢
    exact h.lines r (hinv.opened_before hg hin hr) n hn

/-- A step that frames nothing keeps the counts within the limits, whatever is opened. -/
theorem LimitInv.calm {acc : Account ρ} {opened' : Opened ρ} (h : s.LimitInv acc)
    (hb : s.bus.WellFormed) (hg : Gives s t acc.opened opened') (hc : Calm ops s t) :
    t.LimitInv ⟨opened', acc.lines⟩ := by
  have hserved : t.served = s.served := by rw [Socket.served, Socket.served, hc.locals, hc.peerIds]
  obtain ⟨hnodup, hopened⟩ := h.served_mono hg hserved
  refine ⟨hg.nodup, hg.below, hnodup, hopened, ?_, ?_, ?_⟩
  · intro id hid
    rw [hc.frames id]
    exact h.unserved id (hserved ▸ hid)
  · intro f hf
    rw [hc.locals] at hf
    have hbus : t.bus = s.bus ∨ ∃ act, s.bus.step ops.bus act = some t.bus ∧
        ¬ Bus.Overdraws ops.bus f.sub s.bus act :=
      hc.bus.imp_right fun ⟨act, hact, hno⟩ => ⟨act, hact, hno f hf⟩
    exact (h.locals f hf).keep hb hbus hg.subset (hc.frames _)
  · intro g hg'
    obtain ⟨f, hf, hid, hphase⟩ := hc.peers g hg'
    exact (h.peers f hf).keep h hg hf hid hphase (hc.frames _)

omit [DecidableEq κ] in
/-- A subscription that is opened is served from then on. -/
theorem LimitInv.opens {acc : Account ρ} {opened' : Opened ρ} {appId : UInt64} {r : Subscribing ρ}
    (h : s.LimitInv acc) (hg : Gives s t acc.opened opened') (hnew : appId ∈ s.opening)
    (hin : (appId, r) ∈ opened') (hperm : t.served.Perm (appId :: s.served))
    (hframes : ∀ id, t.frames id = s.frames id)
    (hlocals : ∀ f ∈ t.locals, t.LocalKept opened' f)
    (hpeers : ∀ f ∈ t.peers, t.PeerKept ⟨opened', acc.lines⟩ f) :
    t.LimitInv ⟨opened', acc.lines⟩ := by
  have honce : (appId :: s.served).Nodup := List.nodup_cons.mpr ⟨h.not_served hnew, h.servedOnce⟩
  refine ⟨hg.nodup, hg.below, hperm.nodup_iff.mpr honce, ?_, ?_, hlocals, hpeers⟩
  · intro id hid
    rcases List.mem_cons.mp (hperm.subset hid) with rfl | hid
    · exact List.mem_map.mpr ⟨_, hin, rfl⟩
    · obtain ⟨p, hp, rfl⟩ := List.mem_map.mp (h.served id hid)
      exact List.mem_map_of_mem (hg.subset p hp)
  · intro id hid
    rw [hframes]
    exact h.unserved id fun hmem => hid (hperm.symm.subset (List.mem_cons_of_mem _ hmem))

/-- A local subscription is opened, with a fresh account. -/
theorem LimitInv.opensLocal {acc : Account ρ} {opened' : Opened ρ} {appId : UInt64}
    {r : Subscribing ρ} (h : s.LimitInv acc) (hb : s.bus.WellFormed)
    (hg : Gives s t acc.opened opened') (hnew : appId ∈ s.opening) (hin : (appId, r) ∈ opened')
    (ho : OpensLocal ops s t appId r) : t.LimitInv ⟨opened', acc.lines⟩ := by
  have hperm : t.served.Perm (appId :: s.served) := by
    rw [Socket.served, Socket.served, ho.locals, ho.peers, List.map_append, List.append_assoc]
    exact List.perm_middle
  -- the other forwarders see a bus step that does not touch their queues
  have hkeep : ∀ f ∈ s.locals, t.LocalKept opened' f := fun f hf =>
    (h.locals f hf).keep hb (Or.inr ⟨_, ho.bus, id⟩) hg.subset (ho.frames _)
  refine h.opens hg hnew hin hperm ho.frames ?_ ?_
  · intro f hf
    rw [ho.locals] at hf
    rcases List.mem_append.mp hf with hf | hf
    · exact hkeep f hf
    · -- the new forwarder: the bus enters it with its options, and has enqueued nothing to it
      obtain rfl := List.mem_singleton.mp hf
      have hu := hb.untouched s.bus.nextId (Nat.le_refl _)
      refine ⟨⟨r, hin, ?_⟩, ?_, Nat.zero_le _, ?_⟩
      · have hbus := Bus.step_subscribe ho.bus
        rcases Bus.subscribe_cases s.bus r.pattern r.opts hu with hu' | ⟨_, -, -, hhist, -⟩
        · have hentered := ho.entered
          rw [hbus, hu'.subs] at hentered
          cases hentered
        · show (t.bus.hist s.bus.nextId).opts = some r.opts
          rw [hbus, hhist]
      · refine Bus.conserved_step hb id ho.bus ?_
        rintro L ⟨opts, hopts, -⟩
        -- a fresh subscription has no limit to overdraw
        rw [hu.hist] at hopts
        cases hopts
      · show t.frames appId ≤ 0
        rw [ho.frames, (h.unserved appId (h.not_served hnew)).1]
  · intro f hf
    rw [ho.peers] at hf
    exact (h.peers f hf).keep h hg hf rfl rfl (ho.frames _)

omit [DecidableEq κ] in
/-- A forwarded subscription is opened, and nobody keeps its limit. -/
theorem LimitInv.opensPeer {acc : Account ρ} {opened' : Opened ρ} {appId : UInt64}
    {r : Subscribing ρ} (h : s.LimitInv acc) (hg : Gives s t acc.opened opened')
    (hnew : appId ∈ s.opening) (hin : (appId, r) ∈ opened') (ho : OpensPeer s t appId) :
    t.LimitInv ⟨opened', acc.lines⟩ := by
  obtain ⟨f, hpeers, rfl, hrecv⟩ := ho.peers
  -- the new forwarder stands last among the peers
  have hperm : t.served.Perm (f.appId :: s.served) := by
    rw [Socket.served, Socket.served, ho.locals, hpeers, List.map_append, ← List.append_assoc]
    exact List.perm_append_singleton _ _
  refine h.opens hg hnew hin hperm ho.frames ?_ ?_
  · intro g hg'
    rw [ho.locals] at hg'
    exact (h.locals g hg').frame ho.bus hg.subset (ho.frames _)
  · intro g hg'
    rw [hpeers] at hg'
    rcases List.mem_append.mp hg' with hg' | hg'
    · exact (h.peers g hg').keep h hg hg' rfl rfl (ho.frames _)
    · -- whatever the limit, the new forwarder has taken no line
      obtain rfl := List.mem_singleton.mp hg'
      obtain ⟨hframes, hlines⟩ := h.unserved g.appId (h.not_served hnew)
      refine ⟨fun msg hmsg => ?_, ?_, fun r' _ n _ => ?_⟩
      · rw [hrecv] at hmsg
        cases hmsg
      · rw [ho.frames, hframes, PeerForwarder.inHand, hrecv]
        exact Nat.zero_le _
      · show acc.lines g.appId ≤ n.toNat
        rw [hlines]
        exact Nat.zero_le _

omit [DecidableEq κ] in
/-- A poll concerns one subscription, which is served. -/
theorem LimitInv.unserved_of {acc : Account ρ} {lines : UInt64 → ℕ} {a : UInt64}
    (h : s.LimitInv acc) (ha : a ∈ s.served) (hserved : t.served = s.served)
    (hframes : ∀ id, id ≠ a → t.frames id = s.frames id)
    (hlines : ∀ id, id ≠ a → lines id = acc.lines id) :
    ∀ id, id ∉ t.served → t.frames id = 0 ∧ lines id = 0 := by
  intro id hid
  rw [hserved] at hid
  have hne : id ≠ a := by
    rintro rfl
    exact hid ha
  rw [hframes id hne, hlines id hne]
  exact h.unserved id hid

/-- A local forwarder is polled: it sends a frame of what it took from its queue. -/
theorem LimitInv.pollLocal {acc : Account ρ} {k : ℕ} {f f' : LocalForwarder Json}
    (h : s.LimitInv acc) (hb : s.bus.WellFormed) (hg : Gives s t acc.opened acc.opened)
    (hp : LocalPolled ops s t k f f') : t.LimitInv acc := by
  have hf : f ∈ s.locals := List.mem_of_getElem? hp.at_k
  have hserved : t.served = s.served := by
    rw [Socket.served, Socket.served, hp.locals, hp.peers, Party.map_set_of_eq hp.at_k hp.appId]
  have hin : f.appId ∈ s.served := List.mem_append_left _ (List.mem_map_of_mem hf)
  -- only the polled forwarder's id can have one frame more
  have hframes : ∀ id, id ≠ f.appId → t.frames id = s.frames id := by
    intro id hid
    rcases hp.frames with ⟨hsame, -⟩ | ⟨hone, -⟩
    · exact hsame id
    · rw [hone, if_neg hid, Nat.add_zero]
  obtain ⟨hnodup, hopened⟩ := h.served_mono hg hserved
  have hunserved := h.unserved_of hin hserved hframes fun _ _ => rfl
  refine ⟨hg.nodup, hg.below, hnodup, hopened, hunserved, ?_, ?_⟩
  · have hbus : ∀ i, t.bus = s.bus ∨ ∃ act, s.bus.step ops.bus act = some t.bus ∧
        ¬ Bus.Overdraws ops.bus i s.bus act :=
      fun i => hp.bus.imp_right fun ⟨act, hact, hno⟩ => ⟨act, hact, hno i⟩
    have hpolled : t.LocalKept acc.opened f' := by
      refine (h.locals f hf).next hb (hbus _) (fun _ => id) hp.appId hp.sub hp.taken ?_
      have hle := (h.locals f hf).frames
      rcases hp.frames with ⟨hsame, hsent⟩ | ⟨hone, hsent⟩
      · rw [hsame, hsent]
        exact hle
      · rw [hone, if_pos rfl, hsent]
        omega
    intro g hg'
    rw [hp.locals] at hg'
    have honce : (s.locals.map (·.appId)).Nodup := h.servedOnce.of_append_left
    -- each id is served once, so the others keep their frames
    rcases Party.mem_set_cases hp.at_k hp.appId honce hg' with rfl | ⟨hg', hid⟩
    · exact hpolled
    · exact (h.locals g hg').keep hb (hbus _) (fun _ => id) (hframes _ hid)
  · intro g hg'
    rw [hp.peers] at hg'
    -- a peer forwarder has another id
    have hid : g.appId ≠ f.appId := fun heq =>
      List.disjoint_of_nodup_append h.servedOnce (List.mem_map_of_mem hf)
        (heq ▸ List.mem_map_of_mem hg')
    exact (h.peers g hg').keep h hg hg' rfl rfl (hframes _ hid)

omit [DecidableEq κ] in
/-- A peer forwarder is polled: it takes a line, unless it took as many as the limit, or sends the
frame of the line that it took. -/
theorem LimitInv.pollPeer {acc : Account ρ} {lines : UInt64 → ℕ} {k took : ℕ}
    {f f' : PeerForwarder} (h : s.LimitInv acc) (hg : Gives s t acc.opened acc.opened)
    (hp : PeerMoved s t k f f' took)
    (hlines : ∀ id, lines id = acc.lines id + if id = f.appId then took else 0)
    (hroom : ∀ r, (f.appId, r) ∈ acc.opened → ∀ n, r.limit = some n →
      acc.lines f.appId ≤ n.toNat → acc.lines f.appId + took ≤ n.toNat) :
    t.LimitInv ⟨acc.opened, lines⟩ := by
  have hf : f ∈ s.peers := List.mem_of_getElem? hp.at_k
  have hkept := h.peers f hf
  have hserved : t.served = s.served := by
    rw [Socket.served, Socket.served, hp.locals, hp.peers, Party.map_set_of_eq hp.at_k hp.appId]
  have hin : f.appId ∈ s.served := List.mem_append_right _ (List.mem_map_of_mem hf)
  have hframes := hp.others hkept.own
  -- the account of the other ids is as before
  have hsame : ∀ id, id ≠ f.appId → lines id = acc.lines id := by
    intro id hid
    rw [hlines, if_neg hid, Nat.add_zero]
  obtain ⟨hnodup, hopened⟩ := h.served_mono hg hserved
  have hunserved := h.unserved_of hin hserved hframes hsame
  refine ⟨hg.nodup, hg.below, hnodup, hopened, hunserved, ?_, ?_⟩
  · intro g hg'
    rw [hp.locals] at hg'
    -- a local forwarder has another id
    have hid : g.appId ≠ f.appId := fun heq =>
      List.disjoint_of_nodup_append h.servedOnce (List.mem_map_of_mem hg')
        (heq ▸ List.mem_map_of_mem hf)
    exact (h.locals g hg').frame hp.bus (fun _ => id) (hframes _ hid)
  · have hmoved : t.PeerKept ⟨acc.opened, lines⟩ f' := by
      refine ⟨hp.own, ?_, fun r hr n hn => ?_⟩
      · have hle := hkept.frames
        have hstep := hp.frames
        show t.frames f'.appId + f'.inHand ≤ lines f'.appId
        rw [hp.appId, hlines, if_pos rfl]
        omega
      · show lines f'.appId ≤ n.toNat
        rw [hp.appId] at hr ⊢
        rw [hlines, if_pos rfl]
        exact hroom r hr n hn (hkept.lines r hr n hn)
    intro g hg'
    rw [hp.peers] at hg'
    have honce : (s.peers.map (·.appId)).Nodup := h.servedOnce.of_append_right
    rcases Party.mem_set_cases hp.at_k hp.appId honce hg' with rfl | ⟨hg', hid⟩
    · exact hmoved
    · obtain ⟨hown, hle, hlimit⟩ := h.peers g hg'
      refine ⟨hown, ?_, ?_⟩
      · show t.frames g.appId + g.inHand ≤ lines g.appId
        rwa [hframes _ hid, hsame _ hid]
      · show ∀ r, (g.appId, r) ∈ acc.opened → ∀ n, r.limit = some n → lines g.appId ≤ n.toNat
        rwa [hsame _ hid]

/-- An operation of the dispatcher. -/
theorem LimitInv.dispatch {acc : Account ρ} {now : ℤ} (h : s.LimitInv acc)
    (hb : s.bus.WellFormed) (hi : s.Inv) (hwrap : s.NoWrap) (hs : s.dispatch ops now = some t) :
    t.LimitInv ⟨acc.opened ++ s.acknowledged.toList, acc.lines⟩ := by
  unfold Socket.dispatch at hs
  split at hs
  · rename_i op rest htodo
    -- a fallback message is one the socket owes, so no event
    have hop : ∀ msg, op = .fallback msg → ∀ id, msg.isEventOf id = false := by
      rintro msg rfl
      have howed : msg.isOwed = true := by
        rcases hi.todo with hplain | ⟨msg', rest', hcons, howed, -⟩
        · exact (hplain (.fallback msg) (by rw [htodo]; exact List.mem_cons_self)).elim
        · rw [htodo] at hcons
          cases hcons
          exact howed
      exact isEventOf_eq_false_of_isOwed howed
    obtain ⟨hids, hopening⟩ := map_acknowledged htodo
    -- the operation at the head accounts for the ids it opens
    have hgives : IdsMove { s with todo := rest } t →
        Gives s t acc.opened (acc.opened ++ s.acknowledged.toList) := by
      intro hmove
      refine gives_of_idsMove (u := { s with todo := rest }) h hwrap rfl ?_ hmove
      rw [hopening, hids]
      rfl
    -- what is acknowledged was still to be opened, and is listed
    have hnew : ∀ appId r, s.acknowledged = some (appId, r) →
        appId ∈ s.opening ∧ (appId, r) ∈ acc.opened ++ s.acknowledged.toList := by
      intro appId r hack
      have hmem : (appId, r) ∈ s.acknowledged.toList := by rw [hack]; exact List.mem_cons_self
      constructor
      · rw [hopening, ← hids]
        exact List.mem_append_left _ (List.mem_map_of_mem hmem)
      · exact List.mem_append_right _ hmem
    cases operates_of_runOp hop hs with
    | calm hc hmove =>
      exact h.calm hb (hgives hmove) ⟨hc.frames, hc.locals, hc.peerIds, hc.peers, hc.bus⟩
    | opensLocal appId r hop ho hmove =>
      subst hop
      obtain ⟨hopening, hin⟩ := hnew appId r (by rw [acknowledged, htodo])
      exact h.opensLocal hb (hgives hmove) hopening hin
        ⟨ho.bus, ho.entered, ho.locals, ho.peers, ho.frames⟩
    | opensPeer appId r hop ho hmove =>
      subst hop
      obtain ⟨hopening, hin⟩ := hnew appId r (by rw [acknowledged, htodo])
      exact h.opensPeer (hgives hmove) hopening hin ⟨ho.peers, ho.locals, ho.bus, ho.frames⟩
  · rename_i htodo
    have hack : s.acknowledged.toList = [] := by rw [acknowledged, htodo]; rfl
    rw [hack]
    -- with nothing left to run only the stage can change
    have hstage : ∀ stage, { s with stage }.LimitInv ⟨acc.opened ++ [], acc.lines⟩ := by
      intro stage
      have hids : IdsMove s { s with stage } := .keep rfl (List.Sublist.refl _)
      have hc : Calm ops s { s with stage } :=
        .of_eq (fun _ => rfl) (fun _ => rfl) rfl rfl (Or.inl rfl)
      exact h.calm hb (gives_of_idsMove h hwrap rfl rfl hids) hc
    split at hs
    · obtain rfl := Option.some.inj hs
      exact hstage _
    · split at hs
      · obtain rfl := Option.some.inj hs
        exact hstage _
      · cases hs
    · cases hs

/-- **One step that does not go past a limit keeps the limits.** -/
theorem LimitInv.step {acc : Account ρ} {a : SocketAction ρ} (h : s.LimitInv acc)
    (hb : s.bus.WellFormed) (hi : s.Inv) (hwrap : s.NoWrap) (hno : ¬ Exceeds ops (s, acc) a)
    (hs : step ops s a = some t) : t.LimitInv (s.account a acc) := by
  -- the ids of a step that opens nothing
  have hgives : IdsMove s t → Gives s t acc.opened acc.opened := by
    intro hids
    have hg : Gives s t acc.opened (acc.opened ++ []) := gives_of_idsMove h hwrap rfl rfl hids
    rwa [List.append_nil] at hg
  have hkeep : t.conn = s.conn → t.todo = s.todo → Gives s t acc.opened acc.opened := by
    intro hconn htodo
    refine hgives (.keep (by rw [hconn]) ?_)
    rw [opening, opening, htodo]
  have hcalm : t.locals = s.locals → t.peers = s.peers →
      (∀ id, t.out.frames id = s.out.frames id) →
      (∀ id, t.terminal.frames id = s.terminal.frames id) → t.bus = s.bus → Calm ops s t :=
    fun hlocals hpeers hout hterminal hbus =>
      .of_eq hout hterminal hlocals hpeers (Or.inl hbus)
  cases a with
  | bus act =>
    simp only [Socket.step] at hs
    split at hs
    · obtain ⟨bus, hbus, rfl⟩ := Option.map_eq_some_iff.mp hs
      refine h.calm hb (hkeep rfl rfl) (.of_eq (fun _ => rfl) (fun _ => rfl) rfl rfl
        (Or.inr ⟨act, hbus, fun f hf hover => ?_⟩))
      exact hno ⟨f, hf, hover⟩
    · cases hs
  | hub act =>
    obtain ⟨hub, -, rfl⟩ := Option.map_eq_some_iff.mp hs
    exact h.calm hb (hkeep rfl rfl) (hcalm rfl rfl (fun _ => rfl) (fun _ => rfl) rfl)
  | connected senders =>
    simp only [Socket.step] at hs
    split at hs
    · obtain rfl := Option.some.inj hs
      exact h.calm hb (hkeep rfl rfl) (hcalm rfl rfl (fun _ => rfl) (fun _ => rfl) rfl)
    · cases hs
  | inbound m =>
    simp only [Socket.step] at hs
    split at hs
    · split at hs <;> obtain rfl := Option.some.inj hs
      · rename_i text
        have hc : Calm ops s (s.onText ops text) := (calm_onText text).1
        exact h.calm hb (hgives (calm_onText text).2) hc
      · exact h.calm hb (hkeep rfl rfl) (hcalm rfl rfl (fun _ => rfl) (fun _ => rfl) rfl)
      · exact h.calm hb (hkeep rfl rfl) (hcalm rfl rfl (fun _ => rfl) (fun _ => rfl) rfl)
    · cases hs
  | forwarderEvent =>
    simp only [Socket.step] at hs
    split at hs
    · split at hs
      · cases hs
      · rename_i ev rest _
        obtain rfl := Option.some.inj hs
        cases ev <;>
        · have hids := hgives (.keep rfl (List.nil_sublist _))
          exact h.calm hb hids (hcalm rfl rfl (fun _ => rfl) (fun _ => rfl) rfl)
    · cases hs
  | dispatch now => exact h.dispatch hb hi hwrap hs
  | drain appId =>
    -- a drain queues removals, which open nothing
    simp only [Socket.step, drain] at hs
    split at hs
    · split at hs
      · obtain rfl := Option.some.inj hs
        have hids := hgives (.keep rfl (List.nil_sublist _))
        exact h.calm hb hids (hcalm rfl rfl (fun _ => rfl) (fun _ => rfl) rfl)
      · split at hs
        · obtain rfl := Option.some.inj hs
          have hids := hgives (.keep rfl (List.nil_sublist _))
          exact h.calm hb hids (hcalm rfl rfl (fun _ => rfl) (fun _ => rfl) rfl)
        · cases hs
    · cases hs
  | pollLocal k now =>
    obtain ⟨f, f', hp⟩ := localPolled_of_pollLocal (fun f hf => (h.locals f hf).isMpsc) hs
    obtain ⟨hconn, -, htodo, -⟩ := frame_pollLocal hs
    exact h.pollLocal hb (hkeep hconn htodo) hp
  | pollPeer k now =>
    obtain ⟨f, f', hp⟩ := peerMoved_of_pollPeer hs
    obtain ⟨hconn, -, htodo, -⟩ := frame_pollPeer hs
    have htakes : s.takes (.pollPeer k now) = if s.hasLine f then some f.appId else none := by
      rw [takes, hp.at_k, Option.filter_some]
      split <;> rfl
    -- a line that is taken is within the limit, since the step does not exceed it
    refine h.pollPeer (hkeep hconn htodo) hp (fun id => ?_) fun r hr n hn hle => ?_
    · rw [htakes]
      cases s.hasLine f <;> simp [eq_comm]
    · cases hline : s.hasLine f with
      | false => exact hle
      | true =>
        by_contra hlt
        rw [hline, if_pos rfl] at htakes
        exact hno ⟨f.appId, htakes, _, hr, rfl, n, hn, Nat.le_of_lt_succ (Nat.lt_of_not_le hlt)⟩
  | cancelPeer k =>
    obtain ⟨f, f', hp⟩ := peerMoved_of_cancelPeer hs
    obtain ⟨g, -, -, rfl⟩ := cancelPeer_cases hs
    exact h.pollPeer (hkeep rfl rfl) hp (fun id => by simp [takes]) fun r hr n hn hle => hle
  | write sent =>
    obtain ⟨happ, hconn, -, htodo, hlocals, hpeers⟩ := frame_write hs
    have hframes := frames_write hs
    exact h.calm hb (hkeep hconn htodo) (hcalm hlocals hpeers (fun id => (hframes id).1)
      (fun id => (hframes id).2) (by rw [happ]))

/-! ### Runs -/

theorem limitInv_init (app : AppState ρ) : ({ app with } : Socket ρ).LimitInv {} where
  nodup := List.nodup_nil
  below _ h := absurd h List.not_mem_nil
  servedOnce := List.nodup_nil
  served _ h := absurd h List.not_mem_nil
  unserved _ _ := ⟨rfl, rfl⟩
  locals _ h := absurd h List.not_mem_nil
  peers _ h := absurd h List.not_mem_nil

/-- **A limit is a limit** in every run in which no `try_publish` enqueues to a local subscription
without quota, no peer forwarder takes a line after as many as the limit of its subscription, and
the ids do not wrap around. -/
theorem frames_le_limit (ops : SocketOps ρ κ) (app : AppState ρ) (happ : Running ops app)
    (as : List (SocketAction ρ))
    (hsteps : (subscriptions ops app).StepsMeet (fun x a => ¬ Exceeds ops x a ∧ x.1.NoWrap)
      (subscriptions ops app).init as) :
    (subscriptions ops app).StatesMeet LimitsKept (subscriptions ops app).init as := by
  have hall : (subscriptions ops app).StatesMeet
      (fun x => RoutingInv ops app x.1 ∧ x.1.Inv ∧ x.1.LimitInv x.2)
      (subscriptions ops app).init as := by
    refine Machine.statesMeet_of_stepsMeet ?_ ?_ hsteps
    · rintro ⟨s, acc⟩ a ⟨t, acc'⟩ ⟨hr, hi, hl⟩ ⟨hno, hwrap⟩ hs
      obtain ⟨hstep, rfl⟩ := Machine.step_withHistory.mp hs
      exact ⟨hr.step hstep, (step_carries hi hstep).inv,
        hl.step hr.wellFormed hi hwrap hno hstep⟩
    · exact ⟨routingInv_of_reachable happ ⟨[], rfl⟩, inv_init ops app, limitInv_init app⟩
  exact hall.mono fun x hx => hx.2.2.limitsKept

/-- The text of a client's `Subscribe` message with a limit. -/
def limitText (topic limit : String) : String :=
  "\x7b\"type\":\"subscribe\",\"topic\":\"" ++ topic ++ "\",\"limit\":" ++ limit ++ "\x7d"

/-- A client that subscribes with limits. -/
def limitOps : SocketOps Empty Unit where
  topics := .plain
  extractKey _ _ := none
  serializedSize _ := 0
  parseInbound text :=
    if text = limitText "hub/led/r1/state" "0" then .ok (.subscribe "hub/led/r1/state" (some 0) none)
    else if text = limitText "hub/led/r1/state" "1" then
      .ok (.subscribe "hub/led/r1/state" (some 1) none)
    else if text = limitText "attic/led" "1" then .ok (.subscribe "attic/led" (some 1) none)
    else .error "expected value at line 1 column 1"
  rfc3339 _ := none

/-- A server with the peer `attic` connected. -/
def hubWithAttic : AppState Empty where
  name := "hub"
  bus := (Bus.machine limitOps.bus DEFAULT_REPLAY_CAPACITY).init
  peerSenders := some
    { peerContext := fun _ => none, sender := fun name => if name = "attic" then some 0 else none }
  peerStreams := {}

/-- The client subscribes to its server with the limit, an event is published, and the forwarder is
polled until it has sent what it took. -/
def publishes (limit : String) : List (SocketAction Empty) :=
  [.inbound (.text (limitText "hub/led/r1/state" limit)), .dispatch 0, .dispatch 0,
    .bus (.tryPublish ledState), .bus (.advance 0), .bus (.advance 0), .bus (.advance 0),
    .bus (.visit 0 1), .bus (.advance 0)] ++ List.replicate 5 (.pollLocal 0 0)

/-- One event published to a subscription with a limit: its one frame is within the limit. -/
theorem frames_le_limit_published :
    (∃ x, (subscriptions limitOps hubWithAttic).run (subscriptions limitOps hubWithAttic).init
      (publishes "1") = some x ∧ ∃ p ∈ acked x, x.1.frames p.1 = 1) ∧
    (subscriptions limitOps hubWithAttic).StatesMeet LimitsKept
      (subscriptions limitOps hubWithAttic).init (publishes "1") := by
  have hrun : ((subscriptions limitOps hubWithAttic).run
      (subscriptions limitOps hubWithAttic).init (publishes "1")).any
      (fun x => (acked x).any fun p => decide (x.1.frames p.1 = 1)) = true := by decide
  have hsteps : (subscriptions limitOps hubWithAttic).StepsMeet
      (fun x a => ¬ Exceeds limitOps x a ∧ x.1.NoWrap)
      (subscriptions limitOps hubWithAttic).init (publishes "1") := by decide
  obtain ⟨x, hx, hframes⟩ := (Option.any_eq_true _ _).mp hrun
  obtain ⟨p, hp, hone⟩ := List.any_eq_true.mp hframes
  exact ⟨⟨x, hx, p, hp, of_decide_eq_true hone⟩, frames_le_limit limitOps hubWithAttic
    ⟨DEFAULT_REPLAY_CAPACITY, [], rfl⟩ (publishes "1") hsteps⟩

/-- The client subscribes to the peer with a limit of one, and the peer sends two lines. -/
def forwards : List (SocketAction Empty) :=
  [.inbound (.text (limitText "attic/led" "1")), .dispatch 0, .dispatch 0, .dispatch 0,
    .hub (.line 0 .null), .hub (.line 0 .null)] ++ List.replicate 4 (.pollPeer 0 0)

/-- **A limit is exceeded** by a forwarded subscription, which has no limit, and by a local one with
a limit of zero, which a `try_publish` gives one event. -/
theorem limits_exceeded :
    (∃ x, (subscriptions limitOps hubWithAttic).Reachable x ∧ ¬ LimitsKept x ∧
      ∃ p ∈ acked x, p.2.limit = some 1 ∧ x.1.frames p.1 = 2) ∧
    ∃ x, (subscriptions limitOps hubWithAttic).Reachable x ∧ ¬ LimitsKept x ∧
      ∃ p ∈ acked x, p.2.limit = some 0 ∧ x.1.frames p.1 = 1 := by
  have hexceeds : ∀ (as : List (SocketAction Empty)) {limit : UInt64} {n : ℕ}, limit.toNat < n →
      ((subscriptions limitOps hubWithAttic).run (subscriptions limitOps hubWithAttic).init
        as).any (fun x => (acked x).any fun p =>
          decide (p.2.limit = some limit ∧ x.1.frames p.1 = n)) = true →
      ∃ x, (subscriptions limitOps hubWithAttic).Reachable x ∧ ¬ LimitsKept x ∧
        ∃ p ∈ acked x, p.2.limit = some limit ∧ x.1.frames p.1 = n := by
    intro as limit n hlt hrun
    obtain ⟨x, hx, hframes⟩ := (Option.any_eq_true _ _).mp hrun
    obtain ⟨p, hp, hexceed⟩ := List.any_eq_true.mp hframes
    obtain ⟨hlimit, hn⟩ := of_decide_eq_true hexceed
    refine ⟨x, ⟨as, hx⟩, fun hkept => ?_, p, hp, hlimit, hn⟩
    have hle := hkept p hp limit hlimit
    omega
  constructor
  · exact hexceeds forwards (by decide) (by decide)
  · exact hexceeds (publishes "0") (by decide) (by decide)

end Socket

end Boardwalk
