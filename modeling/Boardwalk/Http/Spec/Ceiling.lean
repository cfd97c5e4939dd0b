import Boardwalk.Http.Forward
import Boardwalk.Peer.Spec.Step

/-!
# The capability ceiling of forwarded requests

A request is checked against the admission that `peer_context` returns and goes over the connection
that `sender` returns.  `ceilingEnforced_of_usesChecked` says that the ceiling of the connection is
respected, and stamped, in every run in which the two are the same connection each time a sender is
read.  A reconnect between the reads makes them differ (`ceiling_of_replaced_connection`).
-/

namespace Boardwalk

/-! ### What has been checked -/

/-- The request asks for no more than connection `r.conn` negotiated, and carries that ceiling. -/
def SentRequest.WithinCeiling (s : PeerAcceptors) (r : SentRequest) : Prop :=
  ∃ admitted, s.Admitted r.conn admitted ∧
    admitted.negotiatedCapabilities.contains r.required = true ∧
    ∀ attestation ∈ r.attestation,
      attestation.renderCapabilities = admitted.negotiatedCapabilities

/-- The context is an admission of the gateway that contains the required capability. -/
def ReadContext.Allows (s : PeerAcceptors) (required : PeerCapabilities) (k : ReadContext) : Prop :=
  s.Admitted k.conn k.admitted ∧ k.admitted.negotiatedCapabilities.contains required = true

/-- What the phases of a forwarded request promise, once its sender is that of the connection it was
checked against. -/
def ForwardRequest.Checked (s : PeerAcceptors) (q : ForwardRequest) : Prop :=
  match q.phase with
  | .checked context => ∀ intent ∈ q.intent, context.Allows s intent.requiredCapability
  | .sending context sender =>
    sender = context.conn ∧ ∀ intent ∈ q.intent, context.Allows s intent.requiredCapability
  | .resolved | .replied _ => True

/-- What the phases of a subscribe promise. -/
def PeerSubscribe.Checked (s : PeerAcceptors) (w : PeerSubscribe) : Prop :=
  match w.phase with
  | .subscribing context | .connecting context =>
    ∀ k ∈ context, k.Allows s .streamSubscribeCapability
  | .spawned sender => ∃ k : ReadContext, k.conn = sender ∧ k.Allows s .streamSubscribeCapability
  | _ => True

section Monotone

variable {ops : HttpOps} {s s' : PeerAcceptors} {a : AcceptorAction}

theorem SentRequest.WithinCeiling.step {r : SentRequest} (h : r.WithinCeiling s)
    (hs : s.step ops a = some s') : r.WithinCeiling s' := by
  obtain ⟨admitted, hadm, hrest⟩ := h
  exact ⟨admitted, hadm.step hs, hrest⟩

theorem ReadContext.Allows.step {required : PeerCapabilities} {k : ReadContext}
    (h : k.Allows s required) (hs : s.step ops a = some s') : k.Allows s' required :=
  ⟨h.1.step hs, h.2⟩

/-- A request checked against its peer's ceiling stays so over every step. -/
theorem ForwardRequest.Checked.step {q : ForwardRequest} (h : q.Checked s)
    (hs : s.step ops a = some s') : q.Checked s' := by
  unfold Checked at h ⊢
  split
  · intro intent hi
    rename_i hphase
    simp only [hphase] at h
    exact (h intent hi).step hs
  · rename_i hphase
    simp only [hphase] at h
    exact ⟨h.1, fun intent hi => (h.2 intent hi).step hs⟩
  · trivial
  · trivial

/-- A subscription checked against its peer's ceiling stays so over every step. -/
theorem PeerSubscribe.Checked.step {w : PeerSubscribe} (h : w.Checked s)
    (hs : s.step ops a = some s') : w.Checked s' := by
  unfold Checked at h ⊢
  split
  · rename_i hphase
    simp only [hphase] at h
    exact fun k hk => (h k hk).step hs
  · rename_i hphase
    simp only [hphase] at h
    exact fun k hk => (h k hk).step hs
  · rename_i hphase
    simp only [hphase] at h
    obtain ⟨k, hk, hallows⟩ := h
    exact ⟨k, hk, hallows.step hs⟩
  · trivial

end Monotone

namespace Gateway

variable {ops : HttpOps} {name : String} {g g' : Gateway}

/-- Everything that was sent respects the ceiling of the connection it was sent over. -/
def CeilingEnforced (g : Gateway) : Prop := ∀ r ∈ g.sent, r.WithinCeiling g.acceptors

/-- When a request or a subscribe reads a sender, it is that of the connection whose context it has
read. -/
def UsesChecked (g : Gateway) : GatewayAction → Prop
  | .forward i _ => ∀ q ∈ g.requests.get? i,
      match q.phase with
      | .checked context => ∀ c ∈ g.acceptors.sender q.targetName, c = context.conn
      | _ => True
  | .subscribe i => ∀ w ∈ g.subscribes.get? i,
      match w.phase with
      | .connecting context => ∀ c ∈ g.acceptors.sender w.peer, context.map (·.conn) = some c
      | _ => True
  | _ => True

instance : ∀ (g : Gateway) (a : GatewayAction), Decidable (g.UsesChecked a)
  | g, .forward i _ =>
    have : ∀ q : ForwardRequest, Decidable (match q.phase with
        | .checked context => ∀ c ∈ g.acceptors.sender q.targetName, c = context.conn
        | _ => True) := fun q => by cases q.phase <;> infer_instance
    inferInstanceAs (Decidable (∀ q ∈ g.requests.get? i, _))
  | g, .subscribe i =>
    have : ∀ w : PeerSubscribe, Decidable (match w.phase with
        | .connecting context => ∀ c ∈ g.acceptors.sender w.peer, context.map (·.conn) = some c
        | _ => True) := fun w => by cases w.phase <;> infer_instance
    inferInstanceAs (Decidable (∀ w ∈ g.subscribes.get? i, _))
  | _, .acceptor _ | _, .receive _ _ _ _ | _, .peerTopic _ _ _ | _, .unsubscribe _ _ =>
    isTrue True.intro

/-! ### The steps -/

/-- Everything checked so far stays checked. -/
structure CeilingInv (g : Gateway) : Prop where
  requests : g.requests.All (·.Checked g.acceptors)
  subscribes : g.subscribes.All (·.Checked g.acceptors)
  sent : CeilingEnforced g

theorem admitted_of_readContext {s : PeerAcceptors} {r : String} {k : ReadContext}
    (h : s.readContext r = some k) : s.Admitted k.conn k.admitted := by
  obtain ⟨c, -, hk⟩ := Option.bind_eq_some_iff.mp h
  obtain ⟨p, hp, rfl⟩ := Option.map_eq_some_iff.mp hk
  exact ⟨p, hp, rfl⟩

/-- A request is answered at the gates, or its intent is among the capabilities of the context that
it read. -/
theorem gate_cases (name : String) (s : PeerAcceptors) (q : ForwardRequest) :
    (∃ reply, gate name s q = .replied reply) ∨
      ∃ intent k, q.intent = some intent ∧ s.readContext q.targetName = some k ∧
        k.admitted.negotiatedCapabilities.contains intent.requiredCapability = true ∧
        gate name s q = .checked k := by
  unfold gate
  split
  · exact .inl ⟨_, rfl⟩
  · split
    · exact .inl ⟨_, rfl⟩
    · rename_i intent hintent
      split
      · exact .inl ⟨_, rfl⟩
      · split
        · exact .inl ⟨_, rfl⟩
        · rename_i k hk
          split
          · rename_i hcontains
            exact .inr ⟨intent, k, hintent, hk, hcontains, rfl⟩
          · exact .inl ⟨_, rfl⟩

theorem checked_gate (name : String) (s : PeerAcceptors) (q : ForwardRequest) :
    { q with phase := gate name s q }.Checked s := by
  rcases gate_cases name s q with ⟨reply, hgate⟩ | ⟨intent, k, hintent, hk, hcontains, hgate⟩
  · rw [hgate]
    trivial
  · rw [hgate]
    intro intent' hi
    obtain rfl := Option.some.inj (hintent.symm.trans hi)
    exact ⟨admitted_of_readContext hk, hcontains⟩

theorem CeilingInv.setRequest (h : CeilingInv g) {i : ℕ} {q : ForwardRequest} {phase : ForwardPhase}
    (hq : { q with phase }.Checked g.acceptors) : CeilingInv (g.setRequest i q phase) :=
  ⟨h.requests.insert hq, h.subscribes, h.sent⟩

theorem CeilingInv.setSubscribe (h : CeilingInv g) {i : ℕ} {w : PeerSubscribe}
    {phase : PeerSubscribePhase} (hw : { w with phase }.Checked g.acceptors) :
    CeilingInv (g.setSubscribe i w phase) :=
  ⟨h.requests, h.subscribes.insert hw, h.sent⟩

theorem CeilingInv.withStreams (h : CeilingInv g)
    (streams : Table (String × String) PeerStreamEntry) (streamsGuard : Option ℕ) :
    CeilingInv { g with streams, streamsGuard } :=
  ⟨h.requests, h.subscribes, h.sent⟩

theorem CeilingInv.sendRequest (h : CeilingInv g) {r : SentRequest}
    (hr : r.WithinCeiling g.acceptors) : CeilingInv (g.sendRequest r) := by
  refine ⟨h.requests, h.subscribes, fun r' hr' => ?_⟩
  rcases List.mem_append.mp hr' with hr' | hr'
  · exact h.sent r' hr'
  · obtain rfl := List.mem_singleton.mp hr'
    exact hr

/-- A forward that uses the sender it checked keeps the ceiling invariant. -/
theorem ceilingInv_forward (h : CeilingInv g) {i : ℕ} {q : ForwardRequest} {built : Bool}
    (hq : g.requests.get? i = some q) (hG : g.UsesChecked (.forward i built))
    (hs : maybeForwardOr404 name g i q built = some g') : CeilingInv g' := by
  have hchecked := h.requests i q hq
  have huses := hG q hq
  unfold ForwardRequest.Checked at hchecked
  unfold maybeForwardOr404 at hs
  split at hs
  case h_1 =>
    obtain rfl := Option.some.inj hs
    exact h.setRequest (checked_gate name g.acceptors q)
  case h_2 context hphase =>
    -- the sender is read under another lock than the context
    simp only [hphase] at hchecked huses
    split at hs
    · obtain rfl := Option.some.inj hs
      refine h.setRequest ?_
      split
      · trivial
      · rename_i sender hsender
        exact ⟨huses sender hsender, hchecked⟩
    · cases hs
  case h_3 context sender hphase =>
    simp only [hphase] at hchecked
    obtain ⟨intent, hintent, rfl⟩ := Option.map_eq_some_iff.mp hs
    obtain ⟨rfl, hallows⟩ := hchecked
    obtain ⟨hadm, hcontains⟩ := hallows intent hintent
    split
    · refine (h.sendRequest ⟨context.admitted, hadm, hcontains, ?_⟩).setRequest True.intro
      rintro attestation ⟨⟩
      rfl
    · exact h.setRequest True.intro
  case h_4 => cases hs

/-- A peer subscription that uses the sender it checked keeps the ceiling invariant. -/
theorem ceilingInv_subscribe (h : CeilingInv g) {i : ℕ} {w : PeerSubscribe}
    (hw : g.subscribes.get? i = some w) (hG : g.UsesChecked (.subscribe i))
    (hs : g.peerSubscribe i w = some g') : CeilingInv g' := by
  have hchecked := h.subscribes i w hw
  have huses := hG w hw
  unfold PeerSubscribe.Checked at hchecked
  unfold peerSubscribe at hs
  split at hs
  -- the context, the upstream stream, the sender, and the request
  case h_1 =>
    obtain rfl := Option.some.inj hs
    refine h.setSubscribe ?_
    split
    · trivial
    · -- without a context there is nothing to allow, and the check passes
      rename_i hallowed
      intro k hk
      have hk' : g.acceptors.readContext w.peer = some k := hk
      refine ⟨admitted_of_readContext hk', ?_⟩
      simpa [hk'] using hallowed
  case h_2 context hphase =>
    simp only [hphase] at hchecked
    split at hs
    · split at hs
      · -- the stream is open already, and nothing is sent for this subscriber
        obtain rfl := Option.some.inj hs
        refine CeilingInv.setSubscribe (h.withStreams _ _) ?_
        trivial
      · obtain rfl := Option.some.inj hs
        refine CeilingInv.setSubscribe (h.withStreams _ _) ?_
        exact hchecked
    · cases hs
  -- whatever sender is read, the condition makes it that of the context
  case h_3 context hphase =>
    simp only [hphase] at hchecked huses
    split at hs
    · split at hs
      · obtain rfl := Option.some.inj hs
        refine CeilingInv.setSubscribe (h.withStreams _ _) ?_
        trivial
      · rename_i sender hsender
        obtain rfl := Option.some.inj hs
        -- so there was a context, and its capabilities were checked
        obtain ⟨k, hk, hconn⟩ := Option.map_eq_some_iff.mp (huses sender hsender)
        refine CeilingInv.setSubscribe (h.withStreams _ _) ?_
        exact ⟨k, hconn, hchecked k hk⟩
    · cases hs
  case h_4 sender hphase =>
    simp only [hphase] at hchecked
    obtain rfl := Option.some.inj hs
    obtain ⟨k, rfl, hadm, hcontains⟩ := hchecked
    exact (h.sendRequest ⟨k.admitted, hadm, hcontains, fun _ ha => by cases ha⟩).setSubscribe
      True.intro
  all_goals cases hs

/-- An unsubscribe at the peer keeps the ceiling invariant. -/
theorem ceilingInv_unsubscribe (h : CeilingInv g) {peer topic : String}
    (hs : g.peerUnsubscribe peer topic = some g') : CeilingInv g' := by
  unfold peerUnsubscribe at hs
  split at hs
  · split at hs
    · obtain rfl := Option.some.inj hs
      exact h
    · split at hs
      · obtain rfl := Option.some.inj hs
        unfold abortStream
        split
        · split
          · refine CeilingInv.setSubscribe (h.withStreams _ _) ?_
            trivial
          · exact h.withStreams _ _
        · exact h.withStreams _ _
      · obtain rfl := Option.some.inj hs
        exact h.withStreams _ _
  · cases hs

/-- Every action that uses the sender it checked keeps the ceiling invariant. -/
theorem ceilingInv_step (h : CeilingInv g) {a : GatewayAction} (hG : g.UsesChecked a)
    (hs : step ops name g a = some g') : CeilingInv g' := by
  cases a with
  | acceptor a =>
    -- an admission stays when the acceptors go on
    obtain ⟨s, hstep, rfl⟩ := Option.map_eq_some_iff.mp hs
    exact ⟨h.requests.mono fun _ hq => hq.step hstep, h.subscribes.mono fun _ hw => hw.step hstep,
      fun r hr => (h.sent r hr).step hstep⟩
  | receive i targetName intent caller =>
    simp only [step] at hs
    split at hs
    · obtain rfl := Option.some.inj hs
      exact ⟨h.requests.insert True.intro, h.subscribes, h.sent⟩
    · cases hs
  | forward i built =>
    obtain ⟨q, hq, hs⟩ := Option.bind_eq_some_iff.mp hs
    exact ceilingInv_forward h hq hG hs
  | peerTopic i peer topic =>
    simp only [step] at hs
    split at hs
    · obtain rfl := Option.some.inj hs
      exact ⟨h.requests, h.subscribes.insert True.intro, h.sent⟩
    · cases hs
  | subscribe i =>
    obtain ⟨w, hw, hs⟩ := Option.bind_eq_some_iff.mp hs
    exact ceilingInv_subscribe h hw hG hs
  | unsubscribe peer topic => exact ceilingInv_unsubscribe h hs

/-- **The ceiling is enforced on the connection actually used** in every run in which each sender
that a request or a subscribe reads belongs to the connection whose context it has read: what is
sent over a connection requires only what the connection negotiated, and a forwarded request carries
the connection's own ceiling. -/
theorem ceilingEnforced_of_usesChecked (ops : HttpOps) (name : String) (as : List GatewayAction)
    (h : (machine ops name).StepsMeet UsesChecked (machine ops name).init as) :
    (machine ops name).StatesMeet CeilingEnforced (machine ops name).init as := by
  have hall : (machine ops name).StatesMeet CeilingInv (machine ops name).init as := by
    refine Machine.statesMeet_of_stepsMeet ?_ ?_ h
    · intro g a t hI hG hs
      exact ceilingInv_step hI hG hs
    · exact ⟨fun _ _ h => (by cases h), fun _ _ h => (by cases h), fun r hr => (by cases hr)⟩
  exact hall.mono fun _ h => h.sent

/-- Connection `c` of the hub negotiates `caps`, is confirmed and registered. -/
def connects (c : ConnId) (caps : PeerCapabilities) : List GatewayAction :=
  .acceptor (.dial c (.tokenBound "hub" "token" 0 "node" none caps caps)) ::
    (List.replicate 4 (.acceptor (.request c true)) ++ List.replicate 7 (.acceptor (.task c true)))

/-- The connection ends and is cleaned up. -/
def disconnects (c : ConnId) : List GatewayAction := List.replicate 3 (.acceptor (.conn c))

/-- A transition is invoked and a stream is subscribed to over one connection. -/
def usesOneConnection : List GatewayAction :=
  connects 0 ⟨0xC⟩ ++ .receive 0 "hub" (some .invoke) none :: List.replicate 3 (.forward 0 true) ++
    .peerTopic 0 "hub" "hub/lamp/1/state" :: List.replicate 4 (.subscribe 0)

theorem ceilingEnforced_usesOneConnection :
    (∃ g, (machine lenientOps "gateway").run (machine lenientOps "gateway").init
      usesOneConnection = some g ∧
      g.sent.map (·.conn) = [0, 0]) ∧
    (machine lenientOps "gateway").StatesMeet CeilingEnforced
      (machine lenientOps "gateway").init usesOneConnection :=
  ⟨⟨_, rfl, rfl⟩, ceilingEnforced_of_usesChecked lenientOps "gateway" usesOneConnection (by decide)⟩

/-- The hub reconnects between the two reads of a forwarded request, with fewer capabilities. -/
def reconnectsBetweenReads : List GatewayAction :=
  connects 0 ⟨0xF⟩ ++ [.receive 0 "hub" (some .invoke) none, .forward 0 true] ++ disconnects 0 ++
    connects 1 .resourceRead ++ [.forward 0 true, .forward 0 true]

/-- The hub's connection ends after its confirmation, and its sender is registered afterwards. -/
def subscribesWithoutContext : List GatewayAction :=
  (connects 0 .resourceRead).take 8 ++ disconnects 0 ++ [.acceptor (.task 0 true)] ++
    .peerTopic 0 "hub" "hub/lamp/1/state" :: List.replicate 4 (.subscribe 0)

/-- **The ceiling of a replaced connection is used**: the transition goes over a connection that
negotiated reads only, stamped with the ceiling of the one before it; and a stream is opened over a
connection without `stream.subscribe` when no context is recorded. -/
theorem ceiling_of_replaced_connection :
    (∃ g, (machine lenientOps "gateway").run (machine lenientOps "gateway").init
      reconnectsBetweenReads = some g ∧
      g.sent = [⟨1, .transitionInvoke, some ⟨"gateway", ⟨0xF⟩, none⟩⟩] ∧ ¬ g.CeilingEnforced) ∧
    ∃ g, (machine lenientOps "gateway").run (machine lenientOps "gateway").init
      subscribesWithoutContext = some g ∧
      g.sent = [⟨0, .streamSubscribeCapability, none⟩] ∧ ¬ g.CeilingEnforced := by
  constructor
  · refine ⟨_, rfl, rfl, fun h => ?_⟩
    obtain ⟨admitted, ⟨p, hp, rfl⟩, hcontains, -⟩ := h _ (List.mem_singleton.mpr rfl)
    obtain rfl := Option.some.inj hp
    cases hcontains
  · refine ⟨_, rfl, rfl, fun h => ?_⟩
    obtain ⟨admitted, ⟨p, hp, rfl⟩, hcontains, -⟩ := h _ (List.mem_singleton.mpr rfl)
    obtain rfl := Option.some.inj hp
    cases hcontains

end Gateway

end Boardwalk
