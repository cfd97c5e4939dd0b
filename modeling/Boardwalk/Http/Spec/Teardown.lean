import Boardwalk.Http.Spec.PeerForwarder
import Boardwalk.Http.Spec.PeerStreams
import Boardwalk.Http.Spec.Routing

/-!
# The teardown of a WebSocket connection

After its loop the dispatcher waits for the writer before it gives its subscriptions up.  The writer
ends when the last sender of the outbound channel is gone, and every forwarder holds one.  A
forwarder that waits for its subscription ends only when the subscription does: the three wait for
each other (`Stuck`), until somebody publishes.

A connection does not get stuck when its last subscriptions are on their way out as it leaves the
loop (`not_stuck_of_clearExit`).
-/

namespace Boardwalk

/-! ### Waiting and leaving -/

/-- The forwarder is in the outer select. -/
def LocalForwarder.selecting {δ : Type} (f : LocalForwarder δ) : Bool :=
  match f.phase with
  | .outerNotice | .outerRecv => true
  | _ => false

def LocalForwarder.isDone {δ : Type} (f : LocalForwarder δ) : Bool :=
  match f.phase with
  | .done => true
  | _ => false

/-- Both branches of the outer select are pending: no notice, nothing queued, and a sender left. -/
def LocalForwarder.Waits {δ τ : Type} (f : LocalForwarder δ) (bus : Bus δ τ) : Prop :=
  f.selecting = true ∧ (f.slowTerminated = true ∨ bus.notify f.sub = .pending) ∧
    (bus.recv f.sub).isNone = true ∧ bus.senderAlive f.sub = true

/-- The forwarder is past its loop, or it finds its notice or the end of its queue there. -/
def LocalForwarder.Leaves {δ τ : Type} (f : LocalForwarder δ) (bus : Bus δ τ) : Prop :=
  f.Ended ∨ f.slowTerminated = false ∧ (bus.notify f.sub).get?.isSome = true ∨
    bus.senderAlive f.sub = false

/-- The forwarder is in its receive loop. -/
def PeerForwarder.looping (f : PeerForwarder) : Bool :=
  match f.phase with
  | .recv | .send _ => true
  | _ => false

def PeerForwarder.isDone (f : PeerForwarder) : Bool :=
  match f.phase with
  | .done => true
  | _ => false

/-- The receive is pending, and the task is not aborted. -/
def PeerForwarder.waits (f : PeerForwarder) (hub : PeerStreamHub) : Bool :=
  match f.phase, hub.recv f.upstream f.next with
  | .recv, (.pending, _) => !f.aborted
  | _, _ => false

/-- The receiver has fallen behind. -/
def PeerForwarder.lagAhead (f : PeerForwarder) (hub : PeerStreamHub) : Bool :=
  hub.upstreams[f.upstream]?.any fun u =>
    decide (f.next < u.channel.sent.length - u.channel.capacity)

/-- The task is past its receive loop, is aborted, or finds that it has fallen behind. -/
def PeerForwarder.Leaves (f : PeerForwarder) (hub : PeerStreamHub) : Prop :=
  f.looping = false ∨ f.aborted = true ∨ f.lagAhead hub = true

namespace Socket

variable {ρ κ : Type} [DecidableEq κ] {ops : SocketOps ρ κ} {s t : Socket ρ}

/-- A subscription of the connection is still on the bus, or a reference in the hub. -/
def Registered (s : Socket ρ) : Prop :=
  (∃ e ∈ s.conn.localSubs.entries, (s.bus.subs e.2).isSome = true) ∨
    s.conn.fwdSubs.entries.isEmpty = false

/-- The writer is in its select. -/
def writing (s : Socket ρ) : Bool :=
  match s.writer with
  | .terminal | .out => true
  | _ => false

/-- The writer is past its loop. -/
def writerLeaves (s : Socket ρ) : Bool :=
  match s.writer with
  | .closing | .ended => true
  | _ => false

/-- **The dispatcher waits for the writer, the writer for the forwarders, and each forwarder for its
subscription**, which only the dispatcher would end. -/
structure Stuck (s : Socket ρ) : Prop where
  dispatcher : s.stage = .awaitWriter ∧ s.todo.isEmpty = true
  writer : s.writing = true
  terminal : s.terminal.buf.isEmpty = true
  out : s.out.buf.isEmpty = true
  held : s.outSenderAlive = true
  locals : ∀ f ∈ s.locals, f.isDone = true ∨ f.Waits s.bus
  peers : ∀ f ∈ s.peers, f.isDone = true ∨ f.waits s.peerStreams = true
  registered : s.Registered

/-- All forwarders leave. -/
def AllLeave (s : Socket ρ) : Prop :=
  (∀ f ∈ s.locals, f.Leaves s.bus) ∧ ∀ f ∈ s.peers, f.Leaves s.peerStreams

/-- The connection can end without the help of a publisher. -/
def Clear (s : Socket ρ) : Prop := s.writerLeaves = true ∨ ¬ s.Registered ∨ s.AllLeave

/-- If the dispatcher leaves its loop, the connection is clear. -/
def ClearExit (s : Socket ρ) : SocketAction ρ → Prop
  | .inbound .close => s.Clear
  | _ => True

end Socket

/-! Whether a state is stuck, and whether a step meets the condition, can be computed. -/

section Decide

variable {δ τ : Type}

instance (f : LocalForwarder δ) : Decidable f.Ended :=
  match hp : f.phase with
  | .exiting | .reported | .done => isTrue (by simp [LocalForwarder.Ended, hp])
  | .outerNotice | .outerRecv | .innerNotice _ | .innerSend _ =>
    isFalse (by simp [LocalForwarder.Ended, hp])

instance (f : LocalForwarder δ) (bus : Bus δ τ) : Decidable (f.Waits bus) :=
  inferInstanceAs (Decidable (_ ∧ _))

instance (f : LocalForwarder δ) (bus : Bus δ τ) : Decidable (f.Leaves bus) :=
  inferInstanceAs (Decidable (_ ∨ _))

instance (f : PeerForwarder) (hub : PeerStreamHub) : Decidable (f.Leaves hub) :=
  inferInstanceAs (Decidable (_ ∨ _))

variable {ρ : Type}

instance (s : Socket ρ) : Decidable s.Registered := inferInstanceAs (Decidable (_ ∨ _))

instance (s : Socket ρ) : Decidable s.AllLeave := inferInstanceAs (Decidable (_ ∧ _))

instance (s : Socket ρ) : Decidable s.Clear := inferInstanceAs (Decidable (_ ∨ _))

instance (s : Socket ρ) : ∀ a, Decidable (s.ClearExit a)
  | .inbound .close => inferInstanceAs (Decidable s.Clear)
  | .inbound (.text _) | .inbound .other | .bus _ | .hub _ | .connected _ | .forwarderEvent
  | .dispatch _ | .drain _ | .pollLocal _ _ | .pollPeer _ _ | .cancelPeer _ | .write _ =>
    isTrue True.intro

instance (s : Socket ρ) : Decidable s.Stuck :=
  decidable_of_iff ((s.stage = .awaitWriter ∧ s.todo.isEmpty = true) ∧ s.writing = true ∧
      s.terminal.buf.isEmpty = true ∧ s.out.buf.isEmpty = true ∧ s.outSenderAlive = true ∧
      (∀ f ∈ s.locals, f.isDone = true ∨ f.Waits s.bus) ∧
      (∀ f ∈ s.peers, f.isDone = true ∨ f.waits s.peerStreams = true) ∧ s.Registered)
    ⟨fun ⟨h₁, h₂, h₃, h₄, h₅, h₆, h₇, h₈⟩ => ⟨h₁, h₂, h₃, h₄, h₅, h₆, h₇, h₈⟩,
      fun ⟨h₁, h₂, h₃, h₄, h₅, h₆, h₇, h₈⟩ => ⟨h₁, h₂, h₃, h₄, h₅, h₆, h₇, h₈⟩⟩

end Decide

/-! ### A forwarder that leaves goes on leaving -/

section Leaving

variable {δ τ κ : Type} [DecidableEq κ] {ops : BusOps δ τ κ} {f : LocalForwarder δ}

/-- Neither a fired notice nor the end of a queue is taken back. -/
theorem LocalForwarder.Leaves.bus_step {bus bus' : Bus δ τ} {a : BusAction δ τ}
    (h : f.Leaves bus) (hb : bus.WellFormed) (hsub : f.sub < bus.nextId)
    (hs : bus.step ops a = some bus') : f.Leaves bus' := by
  have heff := Bus.effect_of_step (fun _ _ _ => Nat.ne_of_lt hsub) hs
  rcases h with hended | ⟨hopen, hfired⟩ | hgone
  · exact .inl hended
  · obtain ⟨n, hn⟩ := Option.isSome_iff_exists.mp hfired
    have hsent := Bus.notify_sent_of_effect heff (Oneshot.get?_eq_some.mp hn)
    exact .inr (.inl ⟨hopen, by simp [hsent, Oneshot.get?]⟩)
  · exact .inr (.inr (hb.senderGone heff hgone).1)

theorem LocalForwarder.Leaves.phase {bus : Bus δ τ} (h : f.Leaves bus) (hrun : ¬ f.Ended)
    {f' : LocalForwarder δ} (hsub : f'.sub = f.sub) (hslow : f'.slowTerminated = f.slowTerminated) :
    f'.Leaves bus := by
  rcases h with hended | hfired | hgone
  · exact absurd hended hrun
  · exact .inr (.inl (by rwa [hsub, hslow]))
  · exact .inr (.inr (by rwa [hsub]))

/-- A dropped one-shot never fires, so the queue has no sender. -/
theorem LocalForwarder.Leaves.dropped {bus : Bus δ τ} (h : f.Leaves bus) (hrun : ¬ f.Ended)
    (hdropped : bus.notify f.sub = .dropped) : bus.senderAlive f.sub = false := by
  rcases h with hended | ⟨-, hfired⟩ | hgone
  · exact absurd hended hrun
  · rw [hdropped] at hfired
    cases hfired
  · exact hgone

/-- A forwarder that can leave can still leave after a poll. -/
theorem LocalForwarder.Leaves.poll {rfc3339 : OffsetDateTime → Option String} {now : ℤ}
    {w w' : WsConn δ τ} (h : f.Leaves w.bus) (hb : w.bus.WellFormed)
    (hsub : f.sub < w.bus.nextId) (ops : BusOps δ τ κ) (hs : w.poll rfc3339 f now = some w') :
    ∃ f', w'.fwd = some f' ∧ f'.sub = f.sub ∧ f'.Leaves w'.bus := by
  -- a poll that is not a dropped receiver leaves the subscription as it was
  cases WsConn.poll_effect hs with
  | wait phase next _ running =>
    subst next
    exact ⟨_, rfl, rfl, h.phase running.1 rfl rfl⟩
  | seen hp dropped next =>
    subst next
    have hgone := h.dropped (by simp [LocalForwarder.Ended, hp]) dropped
    exact ⟨_, rfl, rfl, .inr (.inr hgone)⟩
  | take env bus hp recv next =>
    subst next
    have hrun : ¬ f.Ended := by simp [LocalForwarder.Ended, hp]
    have hstep : w.bus.step ops (.recv f.sub) = some bus := by simp [Bus.step, recv]
    exact ⟨_, rfl, rfl, (h.bus_step hb hsub hstep).phase hrun rfl rfl⟩
  | send env out hp _ next =>
    subst next
    exact ⟨_, rfl, rfl, h.phase (by simp [LocalForwarder.Ended, hp]) rfl rfl⟩
  | drop env hp _ dropped next =>
    subst next
    have hgone := h.dropped (by simp [LocalForwarder.Ended, hp]) dropped
    exact ⟨_, rfl, rfl, .inr (.inr hgone)⟩
  | gap now n _ _ _ next =>
    subst next
    unfold WsConn.emitGap
    dsimp only
    split
    · exact ⟨_, rfl, rfl, .inl True.intro⟩
    · exact ⟨_, rfl, rfl, .inl True.intro⟩
  | hangup env _ _ next => subst next; exact ⟨_, rfl, rfl, .inl True.intro⟩
  | finish _ _ _ next => subst next; exact ⟨_, rfl, rfl, .inl True.intro⟩
  | report _ next => subst next; exact ⟨_, rfl, rfl, .inl True.intro⟩
  | dropRx _ next => subst next; exact ⟨_, rfl, rfl, .inl True.intro⟩

/-- A receiver that has fallen behind stays behind. -/
theorem PeerForwarder.Leaves.grows {f : PeerForwarder} {hub hub' : PeerStreamHub}
    (h : f.Leaves hub) (hgrows : hub.Grows hub') : f.Leaves hub' := by
  rcases h with hphase | haborted | hlag
  · exact .inl hphase
  · exact .inr (.inl haborted)
  · refine .inr (.inr ?_)
    obtain ⟨u, hu, hbehind⟩ := (Option.any_eq_true _ _).mp hlag
    obtain ⟨u', hu', hcap, hsent⟩ := hgrows f.upstream u hu
    have hlen := hsent.length_le
    rw [decide_eq_true_eq] at hbehind
    refine (Option.any_eq_true _ _).mpr ⟨u', hu', decide_eq_true ?_⟩
    omega

/-- A receiver that has fallen behind is told so. -/
theorem PeerForwarder.lagged_of_lagAhead {f : PeerForwarder} {hub : PeerStreamHub}
    (h : f.lagAhead hub = true) :
    ∃ skipped next, hub.recv f.upstream f.next = (.lagged skipped, next) := by
  obtain ⟨u, hu, hbehind⟩ := (Option.any_eq_true _ _).mp h
  rw [decide_eq_true_eq] at hbehind
  exact ⟨_, _, by simp only [PeerStreamHub.recv, hu, Broadcast.recv, hbehind, if_true]; rfl⟩

end Leaving

namespace Socket

variable {ρ κ : Type} [DecidableEq κ] {ops : SocketOps ρ κ} {s t : Socket ρ}

omit [DecidableEq κ] in
theorem leaves_of_mem_set {peers : List PeerForwarder} {hub : PeerStreamHub} {k : ℕ}
    {f : PeerForwarder} (hpeers : ∀ g ∈ peers, g.Leaves hub) (hf : f.Leaves hub) :
    ∀ g ∈ peers.set k f, g.Leaves hub := by
  intro g hg
  rcases List.mem_or_eq_of_mem_set hg with hg | rfl
  · exact hpeers g hg
  · exact hf

omit [DecidableEq κ] in
/-- A poll of one peer forwarder lets all of them leave. -/
theorem leaves_pollPeer {k : ℕ} {now : ℤ} (hpeers : ∀ f ∈ s.peers, f.Leaves s.peerStreams)
    (h : s.pollPeer k now = some t) : ∀ f ∈ t.peers, f.Leaves t.peerStreams := by
  obtain ⟨f, hk, hpolled⟩ := peerPolled_of_pollPeer h
  have hf := hpeers f (List.mem_of_getElem? hk)
  -- in the loop, a forwarder leaves for what happened to its task or its channel
  have hloop : ∀ {f' : PeerForwarder}, (f.phase = .recv ∨ ∃ msg, f.phase = .send msg) →
      f'.upstream = f.upstream → f'.next = f.next → f'.aborted = f.aborted →
      f'.Leaves s.peerStreams := by
    intro f' hp hup hnext hab
    rcases hf with hphase | haborted | hlag
    · rcases hp with hp | ⟨msg, hp⟩ <;> simp [PeerForwarder.looping, hp] at hphase
    · exact .inr (.inl (by rwa [hab]))
    · exact .inr (.inr (by rwa [PeerForwarder.lagAhead, hup, hnext]))
  cases hpolled with
  | value v next hp hr heq =>
    subst heq
    refine leaves_of_mem_set hpeers ?_
    rcases hf with hphase | haborted | hlag
    · simp [PeerForwarder.looping, hp] at hphase
    · exact .inr (.inl haborted)
    · obtain ⟨skipped, next', hlagged⟩ := PeerForwarder.lagged_of_lagAhead hlag
      rw [hr] at hlagged
      cases hlagged
  | lagged _ _ _ _ heq => subst heq; exact leaves_of_mem_set hpeers (.inl rfl)
  | closed _ heq => subst heq; exact leaves_of_mem_set hpeers (.inl rfl)
  | sent msg out hp _ heq =>
    subst heq
    exact leaves_of_mem_set hpeers (hloop (.inr ⟨msg, hp⟩) rfl rfl rfl)
  | full _ _ _ heq => subst heq; exact leaves_of_mem_set hpeers (.inl rfl)
  | hangup _ _ _ heq => subst heq; exact leaves_of_mem_set hpeers (.inl rfl)
  | gap _ _ _ heq => subst heq; exact leaves_of_mem_set hpeers (.inl rfl)
  | error _ _ heq => subst heq; exact leaves_of_mem_set hpeers (.inl rfl)
  | report _ heq => subst heq; exact leaves_of_mem_set hpeers (.inl rfl)

/-- A poll of one local forwarder lets all of them leave. -/
theorem leaves_pollLocal {k : ℕ} {now : ℤ} (hb : s.bus.WellFormed)
    (hsub : ∀ f ∈ s.locals, f.sub < s.bus.nextId) (hlocals : ∀ f ∈ s.locals, f.Leaves s.bus)
    (h : s.pollLocal ops k now = some t) : ∀ f ∈ t.locals, f.Leaves t.bus := by
  have hmoves := moves_pollLocal h
  unfold pollLocal at h
  split at h
  · cases h
  rename_i f hk
  have hf := List.mem_of_getElem? hk
  obtain ⟨w, hw, rfl⟩ := Option.map_eq_some_iff.mp h
  obtain ⟨f', hfwd, -, hleaves⟩ :=
    LocalForwarder.Leaves.poll (w := s.toWsConn f) (hlocals f hf) hb (hsub f hf) ops.bus hw
  -- the poll moves the bus under the other forwarders too
  have hothers : ∀ g ∈ s.locals, g.Leaves w.bus := by
    intro g hg
    rcases hmoves.bus with hbus | ⟨act, hbus⟩
    · rw [show w.bus = s.bus from hbus]
      exact hlocals g hg
    · exact (hlocals g hg).bus_step hb (hsub g hg) hbus
  intro g hg
  rcases List.mem_or_eq_of_mem_set hg with hg | rfl
  · exact hothers g hg
  · rw [hfwd]
    exact hleaves

/-! ### The connection stays clear -/

/-- The ids of the connection's subscriptions were handed out by the bus. -/
structure IdsKnown (s : Socket ρ) : Prop where
  locals : ∀ f ∈ s.locals, f.sub < s.bus.nextId
  subs : ∀ appId, ∀ id ∈ s.conn.localSubs.lookup appId, id < s.bus.nextId

theorem nextId_le_of_moves (h : Moves ops s t) : s.bus.nextId ≤ t.bus.nextId := by
  rcases h.bus with hbus | ⟨act, hbus⟩
  · rw [hbus]
  · rcases Bus.nextId_of_step hbus with heq | ⟨topic, opts, -, heq⟩
    · rw [heq]
    · rw [heq, Bus.nextId_subscribe]
      exact Nat.le_succ _

/-- Nothing is added to the forwarders and the subscriptions. -/
theorem IdsKnown.mono (h : s.IdsKnown) (hle : s.bus.nextId ≤ t.bus.nextId)
    (hlocals : ∀ f ∈ t.locals, ∃ g ∈ s.locals, f.sub = g.sub)
    (hsubs : ∀ appId, ∀ id ∈ t.conn.localSubs.lookup appId, id ∈ s.conn.localSubs.lookup appId) :
    t.IdsKnown where
  locals f hf := by
    obtain ⟨g, hg, heq⟩ := hlocals f hf
    rw [heq]
    exact (h.locals g hg).trans_le hle
  subs appId id hid := (h.subs appId id (hsubs appId id hid)).trans_le hle

theorem IdsKnown.keep (h : s.IdsKnown) (hle : s.bus.nextId ≤ t.bus.nextId)
    (hlocals : t.locals = s.locals) (hconn : t.conn.localSubs = s.conn.localSubs) : t.IdsKnown :=
  h.mono hle (fun f hf => ⟨f, hlocals ▸ hf, rfl⟩) fun appId id hid => by rwa [hconn] at hid

/-- The operations of the dispatcher. -/
theorem IdsKnown.runOp {now : ℤ} {op : DispatchOp ρ} (h : s.IdsKnown)
    (hle : s.bus.nextId ≤ t.bus.nextId) (hs : s.runOp ops now op = some t) : t.IdsKnown := by
  cases op with
  | reply r =>
    simp only [Socket.runOp] at hs
    split at hs <;> obtain rfl := Option.some.inj hs <;> exact h.keep hle rfl rfl
  | fallback msg =>
    simp only [Socket.runOp] at hs
    split at hs <;> obtain rfl := Option.some.inj hs <;> exact h.keep hle rfl rfl
  | peerContext r =>
    simp only [Socket.runOp] at hs
    split at hs
    · split at hs <;> obtain rfl := Option.some.inj hs <;> exact h.keep hle rfl rfl
    · obtain rfl := Option.some.inj hs
      exact h.keep hle rfl rfl
  | subscribePeer appId r =>
    simp only [Socket.runOp] at hs
    split at hs <;> obtain rfl := Option.some.inj hs <;> exact h.keep hle rfl rfl
  | subscribeLocal appId r =>
    obtain ⟨bus, hbus, rfl⟩ := Option.map_eq_some_iff.mp hs
    -- the bus counts on, so the new id is below it
    have hnext : s.bus.nextId < bus.nextId := by
      obtain rfl := Bus.step_subscribe hbus
      rw [Bus.nextId_subscribe]
      exact Nat.lt_succ_self _
    split
    · refine ⟨fun f hf => ?_, fun appId' id hid => ?_⟩
      · rcases List.mem_append.mp hf with hf | hf
        · exact (h.locals f hf).trans hnext
        · obtain rfl := List.mem_singleton.mp hf
          exact hnext
      · have hid : id ∈ (s.conn.localSubs.insert appId s.bus.nextId).lookup appId' := hid
        by_cases heq : appId' = appId
        · subst heq
          rw [AList.lookup_insert] at hid
          obtain rfl := Option.some.inj hid
          exact hnext
        · rw [AList.lookup_insert_ne heq] at hid
          exact (h.subs appId' id hid).trans hnext
    · exact h.keep hnext.le rfl rfl
  | removeLocal appId =>
    simp only [Socket.runOp] at hs
    split at hs
    · obtain rfl := Option.some.inj hs
      exact h.keep hle rfl rfl
    · obtain ⟨bus, hbus, rfl⟩ := Option.map_eq_some_iff.mp hs
      refine h.mono hle (fun f hf => ⟨f, hf, rfl⟩) fun appId' id hid => ?_
      have hid : id ∈ (s.conn.localSubs.erase appId).lookup appId' := hid
      by_cases heq : appId' = appId
      · rw [heq, AList.lookup_erase] at hid
        cases hid
      · rwa [AList.lookup_erase_ne heq] at hid
  | removeFwd appId =>
    simp only [Socket.runOp] at hs
    split at hs <;> obtain rfl := Option.some.inj hs <;> exact h.keep hle rfl rfl
  | unsubscribePeer peer topic =>
    obtain rfl := Option.some.inj hs
    exact h.keep hle rfl rfl

omit [DecidableEq κ] in
/-- A writer that leaves goes on leaving. -/
theorem writerLeaves_write {sent : Bool} (hleaves : s.writerLeaves = true)
    (h : s.write sent = some t) : t.writerLeaves = true := by
  unfold writerLeaves at hleaves
  unfold write at h
  split at hleaves
  · rename_i hw
    rw [hw] at h
    obtain rfl := Option.some.inj h
    rfl
  · rename_i hw
    rw [hw] at h
    cases h
  · cases hleaves

omit [DecidableEq κ] in
theorem frame_write {sent : Bool} (h : s.write sent = some t) : t.toAppState = s.toAppState ∧
    t.conn = s.conn ∧ t.stage = s.stage ∧ t.todo = s.todo ∧ t.locals = s.locals ∧
      t.peers = s.peers := by
  unfold write at h
  split at h
  · split at h <;> obtain rfl := Option.some.inj h <;> simp
  · split at h <;> obtain rfl := Option.some.inj h <;> simp
  · split at h <;> obtain rfl := Option.some.inj h <;> simp
  · obtain rfl := Option.some.inj h
    simp
  · cases h

/-- A subscription that is gone from the bus does not come back. -/
theorem not_registered_of_moves (hids : s.IdsKnown) (hmoves : Moves ops s t)
    (hconn : t.conn = s.conn) (h : ¬ s.Registered) : ¬ t.Registered := by
  rintro (⟨e, he, hsome⟩ | hfwd)
  · rw [hconn] at he
    have hlt : e.2 < s.bus.nextId := hids.subs e.1 e.2 (AList.mem_lookup_iff.mpr he)
    have hnone : s.bus.subs e.2 = none := by
      by_contra hne
      exact h (.inl ⟨e, he, Option.isSome_iff_ne_none.mpr hne⟩)
    have hnone' : t.bus.subs e.2 = none := by
      rcases hmoves.bus with hbus | ⟨act, hbus⟩
      · rw [hbus]; exact hnone
      · exact Bus.subs_none_of_effect
          (Bus.effect_of_step (fun _ _ _ => Nat.ne_of_lt hlt) hbus) hnone
    rw [hnone'] at hsome
    cases hsome
  · rw [hconn] at hfwd
    exact h (.inr hfwd)

theorem Clear.keep (h : s.Clear) (hids : s.IdsKnown) (hmoves : Moves ops s t)
    (hconn : t.conn = s.conn) (hwriter : s.writerLeaves = true → t.writerLeaves = true)
    (hleave : s.AllLeave → t.AllLeave) : t.Clear := by
  rcases h with hw | hreg | hall
  · exact .inl (hwriter hw)
  · exact .inr (.inl (not_registered_of_moves hids hmoves hconn hreg))
  · exact .inr (.inr (hleave hall))

omit [DecidableEq κ] in
theorem frame_pollPeer {k : ℕ} {now : ℤ} (h : s.pollPeer k now = some t) : t.conn = s.conn ∧
    t.stage = s.stage ∧ t.todo = s.todo ∧ t.writer = s.writer ∧ t.locals = s.locals ∧
      t.bus = s.bus := by
  obtain ⟨f, -, hpolled⟩ := peerPolled_of_pollPeer h
  cases hpolled <;> rename_i heq <;> subst heq <;> exact ⟨rfl, rfl, rfl, rfl, rfl, rfl⟩

omit [DecidableEq κ] in
/-- A poll of a local forwarder touches nothing of the connection but its own forwarder. -/
theorem frame_pollLocal {k : ℕ} {now : ℤ} (h : s.pollLocal ops k now = some t) :
    t.conn = s.conn ∧ t.stage = s.stage ∧ t.todo = s.todo ∧ t.writer = s.writer ∧
      t.peers = s.peers ∧ t.peerStreams = s.peerStreams ∧
      ∀ f ∈ t.locals, ∃ g ∈ s.locals, f.sub = g.sub := by
  unfold pollLocal at h
  split at h
  · cases h
  rename_i f hk
  obtain ⟨w, hw, rfl⟩ := Option.map_eq_some_iff.mp h
  -- the poll moves the forwarder and the bus, and keeps the subscription
  refine ⟨rfl, rfl, rfl, rfl, rfl, rfl, fun g hg => ?_⟩
  rcases List.mem_or_eq_of_mem_set hg with hg | rfl
  · exact ⟨g, hg, rfl⟩
  · refine ⟨f, List.mem_of_getElem? hk, ?_⟩
    have hsub : ∃ f', w.fwd = some f' ∧ f'.sub = f.sub := by
      cases WsConn.poll_effect hw with
      | gap now n _ _ _ hw =>
        rw [hw]
        unfold WsConn.emitGap
        dsimp only
        split <;> exact ⟨_, rfl, rfl⟩
      | wait _ hw => rw [hw]; exact ⟨_, rfl, rfl⟩
      | seen _ _ hw => rw [hw]; exact ⟨_, rfl, rfl⟩
      | take _ _ _ _ hw => rw [hw]; exact ⟨_, rfl, rfl⟩
      | send _ _ _ _ hw => rw [hw]; exact ⟨_, rfl, rfl⟩
      | drop _ _ _ _ hw => rw [hw]; exact ⟨_, rfl, rfl⟩
      | hangup _ _ _ hw => rw [hw]; exact ⟨_, rfl, rfl⟩
      | finish _ _ _ hw => rw [hw]; exact ⟨_, rfl, rfl⟩
      | report _ hw => rw [hw]; exact ⟨_, rfl, rfl⟩
      | dropRx _ hw => rw [hw]; exact ⟨_, rfl, rfl⟩
    obtain ⟨f', hfwd, hsub⟩ := hsub
    rw [hfwd]
    exact hsub

/-- An operation leaves the stage, or panics. -/
theorem stage_runOp {now : ℤ} {op : DispatchOp ρ} (h : s.runOp ops now op = some t) :
    t.stage = s.stage ∨ t.stage = .panicked := by
  -- only a refused subscription panics
  cases op with
  | subscribeLocal appId r =>
    obtain ⟨bus, -, rfl⟩ := Option.map_eq_some_iff.mp h
    split
    · exact .inl rfl
    · exact .inr rfl
  | removeLocal appId =>
    simp only [runOp] at h
    split at h
    · obtain rfl := Option.some.inj h
      exact .inl rfl
    · obtain ⟨bus, -, rfl⟩ := Option.map_eq_some_iff.mp h
      exact .inl rfl
  | unsubscribePeer peer topic => obtain rfl := Option.some.inj h; exact .inl rfl
  | peerContext r =>
    simp only [runOp] at h
    split at h
    · split at h <;> obtain rfl := Option.some.inj h <;> exact .inl rfl
    · obtain rfl := Option.some.inj h
      exact .inl rfl
  | reply r | fallback msg | subscribePeer appId r | removeFwd appId =>
    simp only [runOp] at h
    split at h <;> obtain rfl := Option.some.inj h <;> exact .inl rfl

/-- What holds along a run whose dispatcher leaves its loop with a clear connection. -/
structure TeardownInv (ops : SocketOps ρ κ) (app : AppState ρ) (s : Socket ρ) : Prop where
  routing : RoutingInv ops app s
  ids : s.IdsKnown
  clear : s.stage = .awaitWriter → s.todo = [] ∧ s.Clear

/-- A step of the bus lets the local forwarders leave. -/
theorem AllLeave.bus_step (h : s.AllLeave) (hids : s.IdsKnown) (hb : s.bus.WellFormed)
    {act : BusAction Json (TopicPattern ρ)} {bus : Bus Json (TopicPattern ρ)}
    (hbus : s.bus.step ops.bus act = some bus) :
    ∀ f ∈ s.locals, f.Leaves bus :=
  fun f hf => (h.1 f hf).bus_step hb (hids.locals f hf) hbus

omit [DecidableEq κ] in
/-- A step that does not lead to the stage in which the dispatcher waits for the writer. -/
theorem TeardownInv.elsewhere {app : AppState ρ} (hrouting : RoutingInv ops app t)
    (hids : t.IdsKnown) (hstage : t.stage ≠ .awaitWriter) : TeardownInv ops app t :=
  ⟨hrouting, hids, fun h => absurd h hstage⟩

omit [DecidableEq κ] in
/-- A message starts no forwarder and leaves the stage. -/
theorem frame_onText (text : String) : (s.onText ops text).stage = s.stage ∧
    (s.onText ops text).locals = s.locals ∧
    (s.onText ops text).conn.localSubs = s.conn.localSubs := by
  unfold onText
  split
  · unfold onSubscribe
    split
    · exact ⟨rfl, rfl, rfl⟩
    · dsimp only
      split
      · exact ⟨rfl, rfl, rfl⟩
      · split <;> exact ⟨rfl, rfl, rfl⟩
  · exact ⟨rfl, rfl, rfl⟩
  · exact ⟨rfl, rfl, rfl⟩
  · exact ⟨rfl, rfl, rfl⟩

/-- The client sends something. -/
theorem TeardownInv.inbound {app : AppState ρ} {m : ClientMessage} (hi : TeardownInv ops app s)
    (hrouting : RoutingInv ops app t) (hle : s.bus.nextId ≤ t.bus.nextId)
    (hG : s.ClearExit (.inbound m)) (hs : Socket.step ops s (.inbound m) = some t) :
    TeardownInv ops app t := by
  simp only [Socket.step] at hs
  split at hs
  · rename_i hidle
    cases m with
    | text text =>
      obtain rfl := Option.some.inj hs
      -- a text never ends the loop
      have hframe : (s.onText ops text).stage = s.stage ∧ (s.onText ops text).locals = s.locals ∧
          (s.onText ops text).conn.localSubs = s.conn.localSubs := frame_onText text
      obtain ⟨hstage, hlocals, hsubs⟩ := hframe
      refine .elsewhere hrouting (hi.ids.keep hle hlocals hsubs) ?_
      rw [hstage, hidle.1]
      decide
    | other =>
      obtain rfl := Option.some.inj hs
      exact hi
    | close =>
      -- a close does, and the condition says that the exit is clear
      obtain rfl := Option.some.inj hs
      exact ⟨hrouting, hi.ids.keep hle rfl rfl, fun _ => ⟨List.isEmpty_iff.mp hidle.2, hG⟩⟩
  · cases hs

/-- The dispatcher does its next operation, or goes on where none is left. -/
theorem TeardownInv.dispatch {app : AppState ρ} {now : ℤ} (hi : TeardownInv ops app s)
    (hrouting : RoutingInv ops app t) (hle : s.bus.nextId ≤ t.bus.nextId)
    (hs : s.dispatch ops now = some t) : TeardownInv ops app t := by
  unfold Socket.dispatch at hs
  split at hs
  · rename_i op rest htodo
    have hids : { s with todo := rest }.IdsKnown := hi.ids.keep (Nat.le_refl _) rfl rfl
    refine .elsewhere hrouting (hids.runOp hle hs) fun hstage => ?_
    -- no operation enters the stage, and there is none in it
    have hstage' : s.stage = .awaitWriter := by
      rcases stage_runOp hs with heq | hpanic
      · exact heq.symm.trans hstage
      · rw [hpanic] at hstage
        cases hstage
    rw [(hi.clear hstage').1] at htodo
    cases htodo
  · split at hs
    · obtain rfl := Option.some.inj hs
      exact .elsewhere hrouting (hi.ids.keep hle rfl rfl) (by simp)
    · split at hs
      · obtain rfl := Option.some.inj hs
        exact .elsewhere hrouting (hi.ids.keep hle rfl rfl) (by simp)
      · cases hs
    · cases hs

omit [DecidableEq κ] in
/-- An entry is drained. -/
theorem TeardownInv.drain {app : AppState ρ} {appId : UInt64} (hi : TeardownInv ops app s)
    (hrouting : RoutingInv ops app t) (hs : s.drain appId = some t) : TeardownInv ops app t := by
  unfold Socket.drain at hs
  split at hs
  · rename_i hcleanup
    have hstage : s.stage ≠ .awaitWriter := by
      rw [hcleanup.1]
      decide
    split at hs
    · obtain rfl := Option.some.inj hs
      exact .elsewhere hrouting (hi.ids.keep (Nat.le_refl _) rfl rfl) hstage
    · split at hs
      · obtain rfl := Option.some.inj hs
        exact .elsewhere hrouting (hi.ids.keep (Nat.le_refl _) rfl rfl) hstage
      · cases hs
  · cases hs

/-- A step that keeps the exit clear keeps the invariant of the teardown. -/
theorem TeardownInv.step {app : AppState ρ} {a : SocketAction ρ} (hi : TeardownInv ops app s)
    (hG : s.ClearExit a) (hs : step ops s a = some t) : TeardownInv ops app t := by
  have hmoves := moves_of_step hi.routing.routed hs
  have hle := nextId_le_of_moves hmoves
  have hrouting := hi.routing.step hs
  have hb := hi.routing.wellFormed
  -- the bus and the hub may move while the writer is awaited; what leaves still leaves
  cases a with
  | bus act =>
    simp only [Socket.step] at hs
    split at hs
    · obtain ⟨bus, hbus, rfl⟩ := Option.map_eq_some_iff.mp hs
      refine ⟨hrouting, hi.ids.keep hle rfl rfl, fun hstage => ?_⟩
      obtain ⟨htodo, hclear⟩ := hi.clear hstage
      exact ⟨htodo, hclear.keep hi.ids hmoves rfl id fun hall =>
        ⟨hall.bus_step hi.ids hb hbus, hall.2⟩⟩
    · cases hs
  | hub act =>
    obtain ⟨hub, hhub, rfl⟩ := Option.map_eq_some_iff.mp hs
    refine ⟨hrouting, hi.ids.keep hle rfl rfl, fun hstage => ?_⟩
    obtain ⟨htodo, hclear⟩ := hi.clear hstage
    exact ⟨htodo, hclear.keep hi.ids hmoves rfl id fun hall =>
      ⟨hall.1, fun f hf => (hall.2 f hf).grows (PeerStreamHub.grows_step hhub)⟩⟩
  | connected senders =>
    simp only [Socket.step] at hs
    split at hs
    · obtain rfl := Option.some.inj hs
      refine ⟨hrouting, hi.ids.keep hle rfl rfl, fun hstage => ?_⟩
      obtain ⟨htodo, hclear⟩ := hi.clear hstage
      exact ⟨htodo, hclear.keep hi.ids hmoves rfl id id⟩
    · cases hs
  | inbound m => exact hi.inbound hrouting hle hG hs
  | forwarderEvent =>
    simp only [Socket.step] at hs
    split at hs
    · rename_i hidle
      split at hs
      · cases hs
      · rename_i ev rest _
        obtain rfl := Option.some.inj hs
        -- in the loop the writer is not awaited
        have hstage : s.stage ≠ .awaitWriter := by
          rw [hidle.1]
          decide
        cases ev <;> exact .elsewhere hrouting (hi.ids.keep hle rfl rfl) hstage
    · cases hs
  | dispatch now => exact hi.dispatch hrouting hle hs
  | drain appId => exact hi.drain hrouting hs
  | pollLocal k now =>
    have hframe : t.conn = s.conn ∧ t.stage = s.stage ∧ t.todo = s.todo ∧ t.writer = s.writer ∧
        t.peers = s.peers ∧ t.peerStreams = s.peerStreams ∧
        ∀ f ∈ t.locals, ∃ g ∈ s.locals, f.sub = g.sub := frame_pollLocal hs
    obtain ⟨hconn, hst, htd, hw, hpeers, hhub, hlocals⟩ := hframe
    refine ⟨hrouting, hi.ids.mono hle hlocals fun appId id hid => by rwa [hconn] at hid,
      fun hstage => ?_⟩
    obtain ⟨htodo, hclear⟩ := hi.clear (hst ▸ hstage)
    refine ⟨htd.trans htodo, hclear.keep hi.ids hmoves hconn (by simp [writerLeaves, hw])
      fun hall => ⟨leaves_pollLocal hb hi.ids.locals hall.1 hs, ?_⟩⟩
    rw [hpeers, hhub]
    exact hall.2
  | pollPeer k now =>
    have hframe : t.conn = s.conn ∧ t.stage = s.stage ∧ t.todo = s.todo ∧ t.writer = s.writer ∧
        t.locals = s.locals ∧ t.bus = s.bus := frame_pollPeer hs
    obtain ⟨hconn, hst, htd, hw, hlocals, hbus⟩ := hframe
    refine ⟨hrouting, hi.ids.keep hle hlocals (by rw [hconn]), fun hstage => ?_⟩
    obtain ⟨htodo, hclear⟩ := hi.clear (hst ▸ hstage)
    refine ⟨htd.trans htodo, hclear.keep hi.ids hmoves hconn (by simp [writerLeaves, hw])
      fun hall => ⟨?_, leaves_pollPeer hall.2 hs⟩⟩
    rw [hlocals, hbus]
    exact hall.1
  | cancelPeer k =>
    obtain ⟨f, hk, -, rfl⟩ := cancelPeer_cases hs
    refine ⟨hrouting, hi.ids.keep hle rfl rfl, fun hstage => ?_⟩
    obtain ⟨htodo, hclear⟩ := hi.clear hstage
    exact ⟨htodo, hclear.keep hi.ids hmoves rfl id fun hall =>
      ⟨hall.1, leaves_of_mem_set hall.2 (.inl rfl)⟩⟩
  | write sent =>
    obtain ⟨happ, hconn, hst, htd, hlocals, hpeers⟩ := frame_write hs
    refine ⟨hrouting, hi.ids.keep hle hlocals (by rw [hconn]), fun hstage => ?_⟩
    obtain ⟨htodo, hclear⟩ := hi.clear (hst ▸ hstage)
    refine ⟨htd.trans htodo, hclear.keep hi.ids hmoves hconn
      (fun hleaves => writerLeaves_write hleaves hs) fun hall => ?_⟩
    rw [AllLeave, hlocals, hpeers, happ]
    exact hall

/-! ### No stuck connection -/

/-- A forwarder that leaves does not wait. -/
theorem not_waits_of_leaves {f : LocalForwarder Json} {bus : Bus Json (TopicPattern ρ)}
    (h : f.Leaves bus) : ¬ f.Waits bus := by
  rintro ⟨hselecting, hnotice, -, halive⟩
  rcases h with hended | ⟨hopen, hfired⟩ | hgone
  · unfold LocalForwarder.selecting at hselecting
    unfold LocalForwarder.Ended at hended
    split at hselecting <;> simp_all
  · rcases hnotice with hslow | hpending
    · rw [hopen] at hslow
      cases hslow
    · rw [hpending] at hfired
      cases hfired
  · rw [hgone] at halive
    cases halive

/-- A peer forwarder that can leave does not wait. -/
theorem not_waits_of_peer_leaves {f : PeerForwarder} {hub : PeerStreamHub} (h : f.Leaves hub) :
    f.waits hub = false := by
  rw [← Bool.not_eq_true]
  intro hwaits
  unfold PeerForwarder.waits at hwaits
  split at hwaits
  · rename_i hp hr
    rcases h with hphase | haborted | hlag
    · simp [PeerForwarder.looping, hp] at hphase
    · simp [haborted] at hwaits
    · obtain ⟨skipped, next, hlagged⟩ := PeerForwarder.lagged_of_lagAhead hlag
      rw [hr] at hlagged
      cases hlagged
  · cases hwaits

/-- With a clear exit the connection is not stuck. -/
theorem not_stuck_of_clear (h : s.Clear) : ¬ s.Stuck := by
  intro hstuck
  -- the writer ends, the bus has a registration left, or every forwarder leaves
  rcases h with hwriter | hreg | ⟨hlocals, hpeers⟩
  · have hwriting := hstuck.writer
    unfold writerLeaves at hwriter
    unfold writing at hwriting
    split at hwriting <;> simp_all
  · exact hreg hstuck.registered
  · -- the sender of the outbound channel is held by a forwarder, which waits
    have hheld := hstuck.held
    simp only [outSenderAlive, hstuck.dispatcher.1, Bool.or_eq_true, List.any_eq_true] at hheld
    rcases hheld with (hloop | ⟨f, hf, hrun⟩) | ⟨f, hf, hrun⟩
    · cases hloop
    · rcases hstuck.locals f hf with hdone | hwaits
      · unfold LocalForwarder.isDone at hdone
        split at hdone <;> simp_all
      · exact not_waits_of_leaves (hlocals f hf) hwaits
    · rcases hstuck.peers f hf with hdone | hwaits
      · unfold PeerForwarder.isDone at hdone
        split at hdone <;> simp_all
      · rw [not_waits_of_peer_leaves (hpeers f hf)] at hwaits
        cases hwaits

/-- **A connection that is clear when its loop ends does not get stuck.** -/
theorem not_stuck_of_clearExit (ops : SocketOps ρ κ) (app : AppState ρ) (happ : Running ops app)
    (as : List (SocketAction ρ))
    (h : (machine ops app).StepsMeet ClearExit (machine ops app).init as) :
    (machine ops app).StatesMeet (fun s => ¬ s.Stuck) (machine ops app).init as := by
  have hinit : TeardownInv ops app (machine ops app).init := by
    refine ⟨routingInv_of_reachable happ ⟨[], rfl⟩, ⟨by simp [machine], ?_⟩, fun hstage => ?_⟩
    · intro appId id hid
      cases hid
    · cases hstage
  have hall : (machine ops app).StatesMeet (TeardownInv ops app) (machine ops app).init as :=
    Machine.statesMeet_of_stepsMeet (fun s a t hs hG hst => hs.step hG hst) hinit h
  refine hall.mono fun s hs hstuck => ?_
  exact not_stuck_of_clear (hs.clear hstuck.dispatcher.1).2 hstuck

/-- The text of a client's `Unsubscribe` message for its first subscription. -/
def unsubscribeText : String := "\x7b\"type\":\"unsubscribe\",\"subscriptionId\":1\x7d"

/-- A client that subscribes to the state of one resource, and unsubscribes. -/
def watchOps : SocketOps Empty Unit where
  topics := .plain
  extractKey _ _ := none
  serializedSize _ := 0
  parseInbound text :=
    if text = subscribeText "hub/led/r1/state" then .ok (.subscribe "hub/led/r1/state" none none)
    else if text = unsubscribeText then .ok (.unsubscribe 1)
    else .error "expected value at line 1 column 1"
  rfc3339 _ := none

/-- A server without peers, as it starts. -/
def aloneHub : AppState Empty where
  name := "hub"
  bus := (Bus.machine watchOps.bus DEFAULT_REPLAY_CAPACITY).init
  peerSenders := none
  peerStreams := {}

/-- The client subscribes, and is sent its ack. -/
def watching : List (SocketAction Empty) :=
  [.inbound (.text (subscribeText "hub/led/r1/state")), .dispatch 0, .dispatch 0,
    .write true, .write true, .write true]

/-- **A client that goes away with a subscription leaves the three tasks waiting for each
other.** -/
theorem stuck_after_close : ∃ s, (machine watchOps aloneHub).Reachable s ∧ s.Stuck := by
  have hrun : ((machine watchOps aloneHub).run (machine watchOps aloneHub).init
      (watching ++ [.inbound .close])).any (fun s => decide s.Stuck) = true := by
    decide
  obtain ⟨s, hs, hstuck⟩ := (Option.any_eq_true _ _).mp hrun
  exact ⟨s, ⟨_, hs⟩, of_decide_eq_true hstuck⟩

/-- The client unsubscribes before it goes away, and the connection ends. -/
def unwatched : List (SocketAction Empty) :=
  watching ++ [.inbound (.text unsubscribeText), .dispatch 0, .dispatch 0, .dispatch 0,
    .inbound .close, .pollLocal 0 0, .pollLocal 0 0, .pollLocal 0 0, .pollLocal 0 0, .pollLocal 0 0,
    .write true, .write true, .write true, .write true, .write true, .write true, .dispatch 0,
    .dispatch 0]

/-- A connection nobody watches ends without being stuck. -/
theorem not_stuck_unwatched :
    (∃ s, (machine watchOps aloneHub).run (machine watchOps aloneHub).init unwatched = some s ∧
      s.stage = .ended) ∧
    (machine watchOps aloneHub).StatesMeet (fun s => ¬ s.Stuck) (machine watchOps aloneHub).init
      unwatched := by
  have hrun : ((machine watchOps aloneHub).run (machine watchOps aloneHub).init unwatched).any
      (fun s => decide (s.stage = .ended)) = true := by decide
  have hsteps : (machine watchOps aloneHub).StepsMeet ClearExit (machine watchOps aloneHub).init
      unwatched := by decide
  obtain ⟨s, hs, hended⟩ := (Option.any_eq_true _ _).mp hrun
  exact ⟨⟨s, hs, of_decide_eq_true hended⟩, not_stuck_of_clearExit watchOps aloneHub
    ⟨DEFAULT_REPLAY_CAPACITY, [], rfl⟩ unwatched hsteps⟩

end Socket

end Boardwalk
