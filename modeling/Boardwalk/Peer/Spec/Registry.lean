import Boardwalk.Peer.Spec.Step

/-!
# The three maps of the acceptors

What the maps promise to the router, over every interleaving of the tasks:

* coherence: a registered sender and the admission recorded for its route belong to the same
  connection (`coherent_iff_keepsCoherence`);
* frames: a connection takes out its own entries only (`ownOnly_iff_removesOwn`);
* no lockout: a route that `has_active_peer` reports is in use by a connection that still runs
  (`noLockout_of_inTime`).

None of them holds in every run: the duplicate check is not atomic with the registration, the
removals look at the route name only, an insertion may come after the removal it should precede, and
a task that panics clears nothing.  Each theorem names the steps at which this happens; in runs
without them the promise is kept.
-/

namespace Boardwalk

/-- `drive_acceptor` returned `Ok`: the peer confirmed and the sender is registered. -/
def TaskPhase.driveSucceeded : TaskPhase → Bool
  | .succeeded | .finishing true | .checking true | .finished true => true
  | _ => false

/-- The task has taken its context out on the failure path. -/
def TaskPhase.driveFailed : TaskPhase → Bool
  | .failed | .finishing false | .checking false | .finished false => true
  | _ => false

theorem TaskPhase.driveFailed_of_driveSucceeded {t : TaskPhase} (h : t.driveSucceeded = true) :
    t.driveFailed = false := by
  unfold TaskPhase.driveSucceeded at h
  split at h <;> first | rfl | cases h

namespace PeerAcceptors

variable {ops : HttpOps} {s s' : PeerAcceptors} {a : AcceptorAction}

/-! ### Coherence -/

/-- The admission recorded for a route is that of the connection whose sender is registered. -/
def Coherent (s : PeerAcceptors) : Prop :=
  ∀ r c, s.senders.get? r = some c → s.contexts.get? r = some c

/-- The acceptor task records its context and takes it out only while no other sender is registered
for the route, and registers its sender only while its context stands. -/
def KeepsCoherence (s : PeerAcceptors) : AcceptorAction → Prop
  | .task c _ => ∀ p ∈ s.conns.get? c,
      (p.task = .recording → ∀ o ∈ s.senders.get? p.route, o = c) ∧
      (p.task = .registering → s.contexts.get? p.route = some c) ∧
      (p.task = .failing → s.senders.get? p.route = none)
  | _ => True

instance : ∀ (s : PeerAcceptors) (a : AcceptorAction), Decidable (s.KeepsCoherence a)
  | s, .task c _ => inferInstanceAs (Decidable (∀ p ∈ s.conns.get? c, _))
  | _, .dial _ _ | _, .request _ _ | _, .conn _ => isTrue True.intro

/-- In other phases the acceptor task leaves the two maps alone. -/
theorem keepsCoherence_of_phase {c : ConnId} {ok : Bool} {p : PeerConn}
    (hp : s.conns.get? c = some p) (hrec : p.task ≠ .recording) (hreg : p.task ≠ .registering)
    (hfail : p.task ≠ .failing) : s.KeepsCoherence (.task c ok) := by
  intro q hq
  obtain rfl := Option.some.inj (hp.symm.trans hq)
  exact ⟨fun h => absurd h hrec, fun h => absurd h hreg, fun h => absurd h hfail⟩

/-- Recording a context at `r` is coherent when only the recorded connection may have a sender
there. -/
theorem coherent_record_iff (hP : Coherent s) {r : String} {c : ConnId}
    (hcontexts : s'.contexts = s.contexts.insert r c) (hsenders : s'.senders = s.senders) :
    Coherent s' ↔ ∀ o ∈ s.senders.get? r, o = c := by
  unfold Coherent
  rw [hcontexts, hsenders]
  constructor
  · intro h o ho
    have := h r o ho
    rw [Table.get?_insert_self] at this
    exact (Option.some.inj this).symm
  · intro h r' o ho
    rcases eq_or_ne r' r with rfl | hne
    · rw [Table.get?_insert_self, h o ho]
    · rw [Table.get?_insert_ne hne]
      exact hP r' o ho

/-- Taking the context of `r` out is coherent when no sender is registered there. -/
theorem coherent_unrecord_iff (hP : Coherent s) {r : String}
    (hcontexts : s'.contexts = s.contexts.remove r) (hsenders : s'.senders = s.senders) :
    Coherent s' ↔ s.senders.get? r = none := by
  unfold Coherent
  rw [hcontexts, hsenders]
  constructor
  · intro h
    rcases ho : s.senders.get? r with _ | o
    · rfl
    · have := h r o ho
      rw [Table.get?_remove_self] at this
      cases this
  · intro h r' o ho
    have hne : r' ≠ r := by
      rintro rfl
      rw [h] at ho
      cases ho
    rw [Table.get?_remove_ne hne]
    exact hP r' o ho

/-- Registering the sender of `c` at `r` is coherent when the context there is that of `c`. -/
theorem coherent_register_iff (hP : Coherent s) {r : String} {c : ConnId}
    (hcontexts : s'.contexts = s.contexts) (hsenders : s'.senders = s.senders.insert r c) :
    Coherent s' ↔ s.contexts.get? r = some c := by
  unfold Coherent
  rw [hcontexts, hsenders]
  constructor
  · intro h
    exact h r c (Table.get?_insert_self ..)
  · intro h r' o ho
    rcases Table.get?_insert_eq_some.mp ho with ⟨rfl, rfl⟩ | ⟨-, ho⟩
    · exact h
    · exact hP r' o ho

/-- **One step** keeps the maps coherent exactly when it meets the condition. -/
theorem coherent_step_iff (hS : Sound s) (hP : Coherent s) (e : Effect ops s a s') :
    Coherent s' ↔ s.KeepsCoherence a := by
  cases e with
  | dialed | refusedOrWaits | spawned | stored | hungUp => exact ⟨fun _ => True.intro, fun _ => hP⟩
  | recorded c ok p hp hphase =>
    refine Iff.trans (coherent_record_iff hP rfl rfl) ?_
    simp [KeepsCoherence, hp, hphase]
  | registered c ok p hp hphase =>
    refine Iff.trans (coherent_register_iff hP rfl rfl) ?_
    simp [KeepsCoherence, hp, hphase]
  | unrecorded c ok p hp hphase =>
    refine Iff.trans (coherent_unrecord_iff hP rfl rfl) ?_
    simp [KeepsCoherence, hp, hphase]
  | shookHands c ok p hp hphase | panicked c ok p hp hphase | confirmed c ok p hp hphase
  | unstored c ok p hp _ hphase
  | left c ok p hp _ hphase =>
    exact ⟨fun _ => keepsCoherence_of_phase hp (by simp [hphase]) (by simp [hphase])
      (by simp [hphase]), fun _ => hP⟩
  | gaveUp c ok p hp hphase =>
    refine ⟨fun _ => keepsCoherence_of_phase hp ?_ ?_ ?_, fun _ => hP⟩ <;>
      rcases hphase with hphase | hphase <;> simp [hphase]
  | reported c ok p hp b hphase =>
    refine ⟨fun _ => keepsCoherence_of_phase hp ?_ ?_ ?_, fun _ => hP⟩ <;>
      cases b <;> simp [hphase]
  | unregistered c p hp hphase =>
    refine ⟨fun _ => True.intro, fun _ r o ho => ?_⟩
    exact hP r o (Table.get?_remove_eq_some.mp ho).2
  | cleaned c p hp hphase =>
    -- the cleanup has just taken the sender out and still holds the lock of `senders`
    refine Iff.trans (coherent_unrecord_iff hP rfl rfl) ?_
    exact ⟨fun _ => True.intro, fun _ => ((hS c p hp).cleaning hphase).2⟩

/-- **Peer registry coherence.** In a run of the gateway the registered sender and the recorded
admission of a route always belong to the same connection, exactly when every context is recorded
or taken out while no other sender is registered for its route and every sender is registered while
the context of its own connection stands. -/
theorem coherent_iff_keepsCoherence (ops : HttpOps) (as : List AcceptorAction) :
    (machine ops).StatesMeet Coherent (machine ops).init as ↔
      (machine ops).StepsMeet KeepsCoherence (machine ops).init as := by
  refine Machine.statesMeet_iff_stepsMeet (A := fun _ => True) (I := Sound) ?_ ?_ (by simp)
    (sound_init ops) fun r c hr => by cases hr
  · intro s a t _ hS hs
    exact sound_step hS (effect_of_step hs)
  · intro s a t _ hS hP hs
    exact coherent_step_iff hS hP (effect_of_step hs)

/-- The connection ends after the confirmation and before its sender is inserted. -/
def endsBeforeRegistering : List AcceptorAction :=
  [.dial 0 (.unauthenticated "hub" 0 .empty), .request 0 true, .request 0 true, .request 0 true,
    .task 0 true, .task 0 true, .task 0 true, .conn 0, .conn 0, .conn 0, .task 0 true]

/-- **The cleanup runs before the registration**: the sender of the dead connection stays in the
map, its context is gone. -/
theorem sender_without_context :
    ∃ s, (machine lenientOps).run (machine lenientOps).init endsBeforeRegistering = some s ∧
      s.senders.get? "hub" = some 0 ∧ s.contexts.get? "hub" = none ∧ ¬ s.Coherent := by
  refine ⟨_, rfl, rfl, rfl, fun h => ?_⟩
  cases h "hub" 0 rfl

/-! ### Frames -/

/-- What the maps would hold if every task took an entry out only when it is its own, and the
connections that inserted last. -/
structure Owners where
  inner : Table String ConnId := .empty
  senders : Table String ConnId := .empty
  contexts : Table String ConnId := .empty
  lastSender : Table String ConnId := .empty
  lastContext : Table String ConnId := .empty

namespace Owners

variable {o : Owners} {c : ConnId} {ok : Bool} {p : PeerConn}

def request (o : Owners) (c : ConnId) (p : PeerConn) : Owners :=
  match p.request with
  | .storing => { o with inner := o.inner.insert p.route c }
  | _ => o

def task (o : Owners) (c : ConnId) (p : PeerConn) : Owners :=
  match p.task with
  | .recording =>
    { o with
      contexts := o.contexts.insert p.route c
      lastContext := o.lastContext.insert p.route c }
  | .registering =>
    { o with
      senders := o.senders.insert p.route c
      lastSender := o.lastSender.insert p.route c }
  | .failing => { o with contexts := o.contexts.removeOwn p.route c }
  | .finishing _ => { o with inner := o.inner.removeOwn p.route c }
  | _ => o

def conn (o : Owners) (c : ConnId) (p : PeerConn) : Owners :=
  match p.conn with
  | .ended => { o with senders := o.senders.removeOwn p.route c }
  | .cleaning => { o with contexts := o.contexts.removeOwn p.route c }
  | _ => o

/-- The step of the owner-checked maps that goes with a step of the gateway. -/
def step (s : PeerAcceptors) (a : AcceptorAction) (o : Owners) : Owners :=
  match a with
  | .dial _ _ => o
  | .request c _ => (s.conns.get? c).elim o fun p => o.request c p
  | .task c _ => (s.conns.get? c).elim o fun p => o.task c p
  | .conn c => (s.conns.get? c).elim o fun p => o.conn c p

theorem step_request (hp : s.conns.get? c = some p) :
    step s (.request c ok) o = o.request c p := by simp [step, hp]

theorem step_task (hp : s.conns.get? c = some p) : step s (.task c ok) o = o.task c p := by
  simp [step, hp]

theorem step_conn (hp : s.conns.get? c = some p) : step s (.conn c) o = o.conn c p := by
  simp [step, hp]

end Owners

/-- The gateway, watched by the owner-checked maps. -/
def owned (ops : HttpOps) : Machine (PeerAcceptors × Owners) AcceptorAction :=
  (machine ops).withHistory {} Owners.step

theorem owned_step {x y : PeerAcceptors × Owners} :
    (owned ops).step x a = some y ↔ x.1.step ops a = some y.1 ∧ Owners.step x.1 a x.2 = y.2 :=
  Machine.step_withHistory

/-- No task has taken an entry of another connection out: the maps are the owner-checked ones. -/
@[mk_iff]
structure OwnOnly (x : PeerAcceptors × Owners) : Prop where
  inner : x.1.inner = x.2.inner
  senders : x.1.senders = x.2.senders
  contexts : x.1.contexts = x.2.contexts

/-- When a task clears a key, the entry there is its connection's own, if there is one. -/
def RemovesOwn (s : PeerAcceptors) : AcceptorAction → Prop
  | .task c _ => ∀ p ∈ s.conns.get? c,
      (p.task = .failing → ∀ o ∈ s.contexts.get? p.route, o = c) ∧
      ((∃ b, p.task = .finishing b) → ∀ o ∈ s.inner.get? p.route, o = c)
  | .conn c => ∀ p ∈ s.conns.get? c,
      (p.conn = .ended → ∀ o ∈ s.senders.get? p.route, o = c) ∧
      (p.conn = .cleaning → ∀ o ∈ s.contexts.get? p.route, o = c)
  | _ => True

/-- One step keeps the maps equal to the owner-checked ones exactly when it clears nothing but its
own entry. -/
theorem ownOnly_step_iff {o : Owners} (hP : OwnOnly (s, o)) (e : Effect ops s a s') :
    OwnOnly (s', Owners.step s a o) ↔ s.RemovesOwn a := by
  obtain ⟨hinner, hsenders, hcontexts⟩ := hP
  simp only at hinner hsenders hcontexts
  rw [ownOnly_iff]
  cases e with
  | dialed c admitted hnew => simp [Owners.step, RemovesOwn, hinner, hsenders, hcontexts]
  | refusedOrWaits c ok p q hp hfrom =>
    rw [Owners.step_request hp]
    unfold Owners.request
    split <;> simp_all [RemovesOwn]
  | spawned c ok p hp hphase | stored c ok p hp hphase =>
    simp [Owners.step_request hp, Owners.request, hphase, RemovesOwn, hinner, hsenders, hcontexts]
  | recorded c ok p hp hphase | shookHands c ok p hp hphase | panicked c ok p hp hphase
  | confirmed c ok p hp hphase | registered c ok p hp hphase | left c ok p hp b hphase =>
    simp [Owners.step_task hp, Owners.task, hphase, RemovesOwn, hp, hinner, hsenders, hcontexts]
  -- the two removals of the acceptor task, and below those of the connection's cleanup
  | unrecorded c ok p hp hphase | unstored c ok p hp b hphase =>
    simp [Owners.step_task hp, Owners.task, hphase, RemovesOwn, hp, hinner, hsenders, hcontexts,
      Table.remove_eq_removeOwn_iff]
  | gaveUp c ok p hp hphase =>
    rcases hphase with hphase | hphase <;>
      simp [Owners.step_task hp, Owners.task, hphase, RemovesOwn, hp, hinner, hsenders, hcontexts]
  | reported c ok p hp b hphase =>
    cases b <;>
      simp [Owners.step_task hp, Owners.task, hphase, RemovesOwn, hp, hinner, hsenders, hcontexts]
  | hungUp c p hp hphase | unregistered c p hp hphase | cleaned c p hp hphase =>
    simp [Owners.step_conn hp, Owners.conn, hphase, RemovesOwn, hp, hinner, hsenders, hcontexts,
      Table.remove_eq_removeOwn_iff]

/-- In the owner-checked maps the last connection to insert finds its entry until it takes it out
itself. -/
structure Held (s : PeerAcceptors) (o : Owners) : Prop where
  context : Table.LastKept PeerConn.route
    (fun p => p.conn ≠ .finished ∧ p.task.driveFailed = false) s.conns o.lastContext o.contexts
  sender : Table.LastKept PeerConn.route
    (fun p => p.conn ≠ .cleaning ∧ p.conn ≠ .finished) s.conns o.lastSender o.senders

/-- A step keeps to the map of owners what the registry holds. -/
theorem held_step {o : Owners} (hS : Sound s) (h : Held s o) (e : Effect ops s a s') :
    Held s' (Owners.step s a o) := by
  obtain ⟨hctx, hsnd⟩ := h
  cases e with
  | dialed c admitted hnew => exact ⟨hctx.new hnew, hsnd.new hnew⟩
  | refusedOrWaits c ok p q hp hfrom =>
    rw [Owners.step_request hp]
    have : o.request c p = o := by
      unfold Owners.request
      split
      · exact absurd ‹_› hfrom.1
      · rfl
    rw [this]
    exact ⟨hctx.update hp rfl id, hsnd.update hp rfl id⟩
  | spawned c ok p hp hphase =>
    have htask : p.task = .unspawned := (hS c p hp).spawned.mpr (by simp [hphase])
    simp only [Owners.step_request hp, Owners.request, hphase]
    exact ⟨hctx.update hp rfl fun h => ⟨h.1, by simp [htask, TaskPhase.driveFailed]⟩,
      hsnd.update hp rfl id⟩
  | stored c ok p hp hphase =>
    simp only [Owners.step_request hp, Owners.request, hphase]
    exact ⟨hctx.update hp rfl id, hsnd.update hp rfl id⟩
  | recorded c ok p hp hphase =>
    simp only [Owners.step_task hp, Owners.task, hphase]
    exact ⟨hctx.insert hp rfl, hsnd.update hp rfl id⟩
  | shookHands c ok p hp hphase | panicked c ok p hp hphase =>
    -- the record comes to life here, so it must have been alive in the sense of both maps before
    have hconn : p.conn = .unspawned := (hS c p hp).undriven (by simp [hphase])
    simp only [Owners.step_task hp, Owners.task, hphase]
    exact ⟨hctx.update hp rfl fun _ => by simp [hconn, hphase, TaskPhase.driveFailed],
      hsnd.update hp rfl fun _ => by simp [hconn]⟩
  | confirmed c ok p hp hphase =>
    simp only [Owners.step_task hp, Owners.task, hphase]
    exact ⟨hctx.update hp rfl fun h => ⟨h.1, by simp [hphase, TaskPhase.driveFailed]⟩,
      hsnd.update hp rfl id⟩
  | gaveUp c ok p hp hphase =>
    have hlive : p.task.driveFailed = false := by
      rcases hphase with hphase | hphase <;> simp [hphase, TaskPhase.driveFailed]
    have hsame : o.task c p = o := by
      rcases hphase with hphase | hphase <;> simp [Owners.task, hphase]
    rw [Owners.step_task hp, hsame]
    exact ⟨hctx.update hp rfl fun h => ⟨h.1, hlive⟩, hsnd.update hp rfl id⟩
  | registered c ok p hp hphase =>
    simp only [Owners.step_task hp, Owners.task, hphase]
    exact ⟨hctx.update hp rfl fun h => ⟨h.1, by simp [hphase, TaskPhase.driveFailed]⟩,
      hsnd.insert hp rfl⟩
  | reported c ok p hp b hphase =>
    have hsame : o.task c p = o := by cases b <;> simp [Owners.task, hphase]
    have hfailed : p.task.driveFailed = (TaskPhase.finishing b).driveFailed := by
      cases b <;> simp [hphase, TaskPhase.driveFailed]
    rw [Owners.step_task hp, hsame]
    exact ⟨hctx.update hp rfl fun h => ⟨h.1, hfailed.trans h.2⟩, hsnd.update hp rfl id⟩
  | unrecorded c ok p hp hphase =>
    simp only [Owners.step_task hp, Owners.task, hphase]
    exact ⟨hctx.removeOwn hp rfl (by simp [TaskPhase.driveFailed]), hsnd.update hp rfl id⟩
  | unstored c ok p hp b hphase | left c ok p hp b hphase =>
    simp only [Owners.step_task hp, Owners.task, hphase]
    refine ⟨hctx.update hp rfl fun h => ⟨h.1, ?_⟩, hsnd.update hp rfl id⟩
    rw [hphase, ← h.2]
    cases b <;> rfl
  | hungUp c p hp hphase =>
    simp only [Owners.step_conn hp, Owners.conn, hphase]
    exact ⟨hctx.update hp rfl fun h => ⟨by simp [hphase], h.2⟩,
      hsnd.update hp rfl fun _ => by simp [hphase]⟩
  | unregistered c p hp hphase =>
    simp only [Owners.step_conn hp, Owners.conn, hphase]
    exact ⟨hctx.update hp rfl fun h => ⟨by simp [hphase], h.2⟩, hsnd.removeOwn hp rfl (by simp)⟩
  | cleaned c p hp hphase =>
    simp only [Owners.step_conn hp, Owners.conn, hphase]
    exact ⟨hctx.removeOwn hp rfl (by simp), hsnd.update hp rfl fun h => absurd rfl h.2⟩

/-- A connection that was confirmed, still runs and was the last to register and to record its
context is found by the router. -/
def StaysReachable (x : PeerAcceptors × Owners) : Prop :=
  ∀ c p, x.1.conns.get? c = some p → p.task.driveSucceeded = true → p.conn = .running →
    x.2.lastSender.get? p.route = some c → x.2.lastContext.get? p.route = some c →
      x.1.sender p.route = some c ∧ x.1.peerContext p.route = some p.admitted

/-- A peer whose route is removed by its owner only stays reachable. -/
theorem staysReachable_of_ownOnly {o : Owners} (hP : OwnOnly (s, o)) (h : Held s o) :
    StaysReachable (s, o) := by
  intro c p hp htask hconn hsender hcontext
  constructor
  · obtain ⟨q, hq, -, hcur⟩ := h.sender p.route c hsender
    obtain rfl := Option.some.inj (hp.symm.trans hq)
    unfold sender
    rw [hP.senders]
    exact hcur (by simp [hconn])
  · obtain ⟨q, hq, -, hcur⟩ := h.context p.route c hcontext
    obtain rfl := Option.some.inj (hp.symm.trans hq)
    have hctx : s.contexts.get? p.route = some c := by
      rw [hP.contexts]
      exact hcur ⟨by simp [hconn], TaskPhase.driveFailed_of_driveSucceeded htask⟩
    simp only [peerContext, contextConn, hctx, hq, Option.bind_some, Option.map_some]

/-- **One connection's end does not take down another.** The maps are those in which every task
takes only its own entries out, and a confirmed connection stays reachable until its own end or a
replacement, in all states of a run exactly when each time a task clears a key it finds there no
entry of another connection. -/
theorem ownOnly_iff_removesOwn (ops : HttpOps) (as : List AcceptorAction) :
    (owned ops).StatesMeet (fun x => OwnOnly x ∧ StaysReachable x) (owned ops).init as ↔
      (machine ops).StepsMeet RemovesOwn (machine ops).init as := by
  have hhistory : (owned ops).StepsMeet (fun x a => RemovesOwn x.1 a) (owned ops).init as ↔
      (machine ops).StepsMeet RemovesOwn (machine ops).init as := Machine.stepsMeet_withHistory
  rw [← hhistory]
  refine Machine.statesMeet_iff_stepsMeet (A := fun _ => True)
    (I := fun x => Sound x.1 ∧ Held x.1 x.2) ?_ ?_ (by simp) ?_ ?_
  · rintro x a y - ⟨hS, h⟩ hs
    obtain ⟨hs, hy⟩ := owned_step.mp hs
    rw [← hy]
    exact ⟨sound_step hS (effect_of_step hs), held_step hS h (effect_of_step hs)⟩
  · rintro ⟨s, o⟩ a ⟨t, o'⟩ - ⟨hS, h⟩ hP hs
    obtain ⟨hs, rfl⟩ := owned_step.mp hs
    have e : Effect ops s a t := effect_of_step hs
    have hiff : OwnOnly (t, Owners.step s a o) ↔ s.RemovesOwn a := ownOnly_step_iff hP.1 e
    exact ⟨fun hQ => hiff.mp hQ.1, fun hG =>
      ⟨hiff.mpr hG, staysReachable_of_ownOnly (hiff.mpr hG) (held_step hS h e)⟩⟩
  · exact ⟨sound_init ops, fun _ _ h => (by cases h), fun _ _ h => (by cases h)⟩
  · exact ⟨⟨rfl, rfl, rfl⟩, fun c p hp => by cases hp⟩

/-- Two dials of one route pass the duplicate check together.  The first is confirmed; the second
fails in its handshake. -/
def racingDials : List AcceptorAction :=
  [.dial 0 (.unauthenticated "hub" 0 .empty), .dial 1 (.unauthenticated "hub" 1 .empty),
    .request 0 true, .request 1 true, .request 0 true, .request 1 true, .request 0 true,
    .request 1 true, .task 1 true, .task 0 true, .task 0 true, .task 0 true, .task 0 true,
    .task 1 false, .task 1 true]

/-- **The failure path takes the wrong context out**: connection 0 is confirmed, runs and was not
replaced, and its context is gone. -/
theorem failed_dial_removes_context :
    ∃ x, (owned lenientOps).run (owned lenientOps).init racingDials = some x ∧
      x.1.sender "hub" = some 0 ∧ x.1.peerContext "hub" = none ∧ ¬ OwnOnly x ∧
      ¬ StaysReachable x := by
  refine ⟨_, rfl, rfl, rfl, fun h => ?_, fun h => ?_⟩
  · have := congrArg (Table.get? · "hub") h.contexts
    cases this
  · cases (h 0 _ rfl rfl rfl rfl rfl).2

/-! ### No lockout -/

end PeerAcceptors

/-- The acceptor task or the HTTP/2 connection still runs.  The registry learns of the end of a
connection when the connection's task takes the sender out. -/
def PeerConn.Live (p : PeerConn) : Prop :=
  (p.task ≠ .unspawned ∧ p.task ≠ .panicked ∧ ∀ b, p.task ≠ .finished b) ∨
    p.conn = .running ∨ p.conn = .ended

/-- The task has yet to clear its key in `inner`. -/
def TaskPhase.Pending (t : TaskPhase) : Prop :=
  t ≠ .unspawned ∧ t ≠ .panicked ∧ (∀ b, t ≠ .checking b) ∧ ∀ b, t ≠ .finished b

namespace PeerAcceptors

/-- A route that is reported as active is in use, and a dial is not refused on a route that is
not. -/
structure NoLockout (ops : HttpOps) (s : PeerAcceptors) : Prop where
  live : ∀ r, s.hasActivePeer r = true → ∃ c p, s.conns.get? c = some p ∧ p.route = r ∧ p.Live
  admits : ∀ c p ok s' p', s.conns.get? c = some p →
    (∀ d q, s.conns.get? d = some q → q.route = p.route → ¬ q.Live) →
    s.step ops (.request c ok) = some s' → s'.conns.get? c = some p' → p'.request ≠ .refused

/-- The handle of the acceptor task is stored before the task finishes, and the sender is registered
before the connection's task finishes. -/
def InTime (s : PeerAcceptors) : AcceptorAction → Prop
  | .request c _ => ∀ p ∈ s.conns.get? c, p.request = .storing → ∀ b, p.task ≠ .finished b
  | .task c _ => ∀ p ∈ s.conns.get? c, p.task = .registering → p.conn ≠ .finished
  | _ => True

instance : ∀ (s : PeerAcceptors) (a : AcceptorAction), Decidable (s.InTime a)
  | s, .request c _ => inferInstanceAs (Decidable (∀ p ∈ s.conns.get? c, _))
  | s, .task c _ => inferInstanceAs (Decidable (∀ p ∈ s.conns.get? c, _))
  | _, .dial _ _ | _, .conn _ => isTrue True.intro

/-- The confirmation request can be built when the handshake succeeds. -/
def Confirmable (ops : HttpOps) (s : PeerAcceptors) : AcceptorAction → Prop
  | .task c ok => ∀ p ∈ s.conns.get? c, p.task = .handshaking → ok = true →
    (p.confirmation ops).isSome = true
  | _ => True

instance (ops : HttpOps) : ∀ (s : PeerAcceptors) (a : AcceptorAction),
    Decidable (s.Confirmable ops a)
  | s, .task c _ => inferInstanceAs (Decidable (∀ p ∈ s.conns.get? c, _))
  | _, .dial _ _ | _, .request _ _ | _, .conn _ => isTrue True.intro

/-- Every entry of `inner` and `senders` will be cleared by the connection it belongs to. -/
structure Fresh (s : PeerAcceptors) : Prop where
  unpanicked : s.conns.All (·.task ≠ .panicked)
  inner : Table.Backed PeerConn.route (fun p => p.task.Pending) s.conns s.inner
  senders : Table.Backed PeerConn.route (fun p => p.conn = .running ∨ p.conn = .ended) s.conns
    s.senders

/-- A handle that is stored in time belongs to a task that has yet to clear its key. -/
theorem pending_of_storing {c : ConnId} {ok : Bool} {p : PeerConn} (hS : Sound s) (h : Fresh s)
    (hG : s.InTime (.request c ok)) (hp : s.conns.get? c = some p) (hphase : p.request = .storing)
    (hguard : s.innerGuard = none) : p.task.Pending := by
  refine ⟨fun h => ?_, h.unpanicked c p hp, fun b h => ?_, hG p hp hphase⟩
  · exact ((hS c p hp).spawned.mp h).1 hphase
  · have := (hS c p hp).checking b h
    rw [hguard] at this
    cases this

/-- A sender that is registered in time belongs to a connection that has yet to be cleaned up. -/
theorem driven_of_registering {c : ConnId} {ok : Bool} {p : PeerConn} (hS : Sound s)
    (hG : s.InTime (.task c ok)) (hp : s.conns.get? c = some p) (hphase : p.task = .registering)
    (hguard : s.sendersGuard = none) : p.conn = .running ∨ p.conn = .ended := by
  have hdriven := (hS c p hp).driven (.inr hphase)
  have hfinished := hG p hp hphase
  have hcleaning := (hS c p hp).cleaning
  rw [hguard] at hcleaning
  cases hconn : p.conn <;> simp_all

/-- A step in time and without a panic keeps every entry with a connection that will clear it. -/
theorem fresh_step (hS : Sound s) (h : Fresh s) (hG : s.InTime a) (hC : s.Confirmable ops a)
    (e : Effect ops s a s') : Fresh s' := by
  have hfresh := h
  obtain ⟨hunpanicked, hinner, hsenders⟩ := h
  cases e with
  | dialed c admitted hnew =>
    exact ⟨hunpanicked.insert (by simp), hinner.new hnew, hsenders.new hnew⟩
  | refusedOrWaits c ok p q hp =>
    exact ⟨hunpanicked.insert (hunpanicked c p hp), hinner.update hp rfl id,
      hsenders.update hp rfl id⟩
  | spawned c ok p hp hphase | recorded c ok p hp hphase | confirmed c ok p hp hphase
  | gaveUp c ok p hp hphase | reported c ok p hp b hphase | unrecorded c ok p hp hphase =>
    exact ⟨hunpanicked.insert (by simp), hinner.update hp rfl fun _ => by simp [TaskPhase.Pending],
      hsenders.update hp rfl id⟩
  | stored c ok p hp hphase hguard =>
    have hpending := pending_of_storing hS hfresh hG hp hphase hguard
    exact ⟨hunpanicked.insert (hunpanicked c p hp), hinner.insert hp rfl hpending,
      hsenders.update hp rfl id⟩
  | shookHands c ok p hp hphase =>
    exact ⟨hunpanicked.insert (by simp), hinner.update hp rfl fun _ => by simp [TaskPhase.Pending],
      hsenders.update hp rfl fun _ => .inl rfl⟩
  | panicked c ok p hp hphase hok hbuilt =>
    -- the condition rules this step out
    have hsome := hC p hp hphase hok
    rw [hbuilt] at hsome
    cases hsome
  | registered c ok p hp hphase hguard =>
    have hdriven := driven_of_registering hS hG hp hphase hguard
    exact ⟨hunpanicked.insert (by simp), hinner.update hp rfl fun _ => by simp [TaskPhase.Pending],
      hsenders.insert hp rfl hdriven⟩
  | unstored c ok p hp b hphase =>
    exact ⟨hunpanicked.insert (by simp), hinner.remove hp, hsenders.update hp rfl id⟩
  | left c ok p hp b hphase =>
    exact ⟨hunpanicked.insert (by simp), hinner.update hp rfl fun h => absurd hphase (h.2.2.1 b),
      hsenders.update hp rfl id⟩
  | hungUp c p hp hphase =>
    exact ⟨hunpanicked.insert (hunpanicked c p hp), hinner.update hp rfl id,
      hsenders.update hp rfl fun _ => .inr rfl⟩
  | unregistered c p hp hphase =>
    exact ⟨hunpanicked.insert (hunpanicked c p hp), hinner.update hp rfl id, hsenders.remove hp⟩
  | cleaned c p hp hphase =>
    exact ⟨hunpanicked.insert (hunpanicked c p hp), hinner.update hp rfl id,
      hsenders.update hp rfl fun h => by simp [hphase] at h⟩

/-- An entry that will be cleared by its connection belongs to a live one. -/
theorem exists_live_of_fresh (h : Fresh s) {r : String} (hactive : s.hasActivePeer r = true) :
    ∃ c p, s.conns.get? c = some p ∧ p.route = r ∧ p.Live := by
  unfold hasActivePeer at hactive
  rcases Bool.or_eq_true_iff.mp hactive with hr | hr
  · obtain ⟨c, hc⟩ := Table.containsKey_eq_true.mp hr
    obtain ⟨p, hp, hroute, hconn⟩ := h.senders r c hc
    exact ⟨c, p, hp, hroute, .inr hconn⟩
  · obtain ⟨c, hc⟩ := Table.containsKey_eq_true.mp hr
    obtain ⟨p, hp, hroute, hpending⟩ := h.inner r c hc
    exact ⟨c, p, hp, hroute, .inl ⟨hpending.1, hpending.2.1, hpending.2.2.2⟩⟩

/-- A dial is refused because the route is reported as active. -/
theorem hasActivePeer_of_refused {c : ConnId} {ok : Bool} {p p' : PeerConn}
    (hp : s.conns.get? c = some p) (e : Effect ops s (.request c ok) s')
    (hp' : s'.conns.get? c = some p') (hrefused : p'.request = .refused) :
    s.hasActivePeer p.route = true := by
  have hget : ∀ (m : Table ConnId PeerConn) (q : PeerConn), (m.insert c q).get? c = some p' →
      q = p' := fun m q h => Option.some.inj ((Table.get?_insert_self m c q).symm.trans h)
  cases e with
  | refusedOrWaits _ _ q _ hq _ _ hactive =>
    obtain rfl := Option.some.inj (hp.symm.trans hq)
    obtain rfl := hget _ _ hp'
    exact hactive hrefused
  | spawned | stored =>
    obtain rfl := hget _ _ hp'
    cases hrefused

/-- **No permanent lockout.** In a run in which every handle is stored before its task finishes,
every sender is registered before its connection's task finishes and every confirmation request can
be built, a route that `has_active_peer` reports is in use by a live connection, and a dial of a
route without one is not refused. -/
theorem noLockout_of_inTime (ops : HttpOps) (as : List AcceptorAction)
    (h : (machine ops).StepsMeet (fun s a => s.InTime a ∧ s.Confirmable ops a) (machine ops).init
      as) :
    (machine ops).StatesMeet (NoLockout ops) (machine ops).init as := by
  have hall : (machine ops).StatesMeet (fun s => Sound s ∧ Fresh s) (machine ops).init as := by
    refine Machine.statesMeet_of_stepsMeet ?_ ?_ h
    · rintro s a t ⟨hS, hF⟩ ⟨hG, hC⟩ hs
      exact ⟨sound_step hS (effect_of_step hs), fresh_step hS hF hG hC (effect_of_step hs)⟩
    · exact ⟨sound_init ops, fun _ _ h => (by cases h), fun _ _ h => (by cases h),
        fun _ _ h => (by cases h)⟩
  refine hall.mono fun s hs => ⟨fun r hr => exists_live_of_fresh hs.2 hr, ?_⟩
  intro c p ok s' p' hp hdead hstep hp' hrefused
  obtain ⟨d, q, hq, hroute, hlive⟩ := exists_live_of_fresh hs.2
    (hasActivePeer_of_refused hp (effect_of_step hstep) hp' hrefused)
  exact hdead d q hq hroute hlive

/-- A connection comes and goes, and the route is dialed again. -/
def redial : List AcceptorAction :=
  [.dial 0 (.unauthenticated "hub" 0 .empty), .request 0 true, .request 0 true, .request 0 true,
    .request 0 true, .task 0 true, .task 0 true, .task 0 true, .task 0 true, .task 0 true,
    .task 0 true, .task 0 true, .conn 0, .conn 0, .conn 0,
    .dial 1 (.unauthenticated "hub" 1 .empty), .request 1 true, .request 1 true]

theorem noLockout_redial :
    (∃ s p, (machine lenientOps).run (machine lenientOps).init redial = some s ∧
      s.conns.get? 1 = some p ∧ p.request = .upgrading) ∧
    (machine lenientOps).StatesMeet (NoLockout lenientOps) (machine lenientOps).init redial :=
  ⟨⟨_, _, rfl, rfl, rfl⟩, noLockout_of_inTime lenientOps redial (by decide)⟩

/-- Takes a text for a URI unless a percent sign is in it, as `http::Uri` does with the confirmation
request of a short name: a host must not hold one. -/
def plainUris : HttpOps := ⟨fun text => !text.toList.contains '%', fun _ _ => true⟩

/-- The handshake fails and the task finishes before `on_upgraded` stores its handle. -/
def finishesBeforeStored : List AcceptorAction :=
  [.dial 0 (.unauthenticated "hub" 0 .empty), .request 0 true, .request 0 true, .request 0 true,
    .task 0 true, .task 0 false, .task 0 true, .task 0 true, .task 0 true, .task 0 true,
    .request 0 true]

/-- A peer whose name a host must not hold shakes hands, and the connection ends. -/
def panicsAfterHandshake : List AcceptorAction :=
  [.dial 0 (.unauthenticated "my hub" 0 .empty), .request 0 true, .request 0 true, .request 0 true,
    .request 0 true, .task 0 true, .task 0 true, .conn 0, .conn 0, .conn 0]

/-- A route that is reported as active when its only connection is over. -/
theorem not_noLockout_of_over {as : List AcceptorAction} {r : String} {p : PeerConn}
    (hs : (machine ops).run (machine ops).init as = some s) (honly : ∀ a ∈ as, a.actor = 0)
    (hactive : s.hasActivePeer r = true) (hp : s.conns.get? 0 = some p) (hdead : ¬ p.Live) :
    ¬ s.NoLockout ops := by
  intro h
  obtain ⟨c, q, hq, -, hlive⟩ := h.live r hactive
  rcases eq_or_ne c 0 with rfl | hne
  · obtain rfl := Option.some.inj (hp.symm.trans hq)
    exact hdead hlive
  · -- only connection 0 was dialed
    rw [conns_of_run (fun a ha hc => hne (hc.trans (honly a ha))) hs] at hq
    cases hq

/-- **Routes are locked**: by the handle of a task that has finished, and by the handle of a task
that has panicked.  Nothing runs, and the next dial is refused. -/
theorem route_locked_out :
    (∃ s, (machine plainUris).run (machine plainUris).init finishesBeforeStored = some s ∧
      s.hasActivePeer "hub" = true ∧ ¬ s.NoLockout plainUris) ∧
    (∃ s p, (machine plainUris).run (machine plainUris).init (finishesBeforeStored ++
        [.dial 1 (.unauthenticated "hub" 1 .empty), .request 1 true, .request 1 true]) = some s ∧
      s.conns.get? 1 = some p ∧ p.request = .refused) ∧
    (∃ s, (machine plainUris).run (machine plainUris).init panicsAfterHandshake = some s ∧
      s.hasActivePeer "my hub" = true ∧ ¬ s.NoLockout plainUris) ∧
    ∃ s p, (machine plainUris).run (machine plainUris).init (panicsAfterHandshake ++
        [.dial 1 (.unauthenticated "my hub" 1 .empty), .request 1 true, .request 1 true]) = some s ∧
      s.conns.get? 1 = some p ∧ p.request = .refused := by
  -- the task finishes before the handle is stored
  have hfinished : ∃ s, (machine plainUris).run (machine plainUris).init finishesBeforeStored =
      some s ∧ s.hasActivePeer "hub" = true ∧
      ∃ p, s.conns.get? 0 = some p ∧ p.task = .finished false ∧ p.conn = .unspawned :=
    ⟨_, rfl, rfl, _, rfl, rfl, rfl⟩
  -- the task panics after the handle was stored
  have hpanicked : ∃ s, (machine plainUris).run (machine plainUris).init panicsAfterHandshake =
      some s ∧ s.hasActivePeer "my hub" = true ∧
      ∃ p, s.conns.get? 0 = some p ∧ p.task = .panicked ∧ p.conn = .finished :=
    ⟨_, rfl, rfl, _, rfl, rfl, rfl⟩
  refine ⟨?_, ⟨_, _, rfl, rfl, rfl⟩, ?_, _, _, rfl, rfl, rfl⟩
  · obtain ⟨s, hs, hactive, p, hp, htask, hconn⟩ := hfinished
    exact ⟨s, hs, hactive, not_noLockout_of_over hs (by decide) hactive hp
      (by simp [PeerConn.Live, htask, hconn])⟩
  · obtain ⟨s, hs, hactive, p, hp, htask, hconn⟩ := hpanicked
    exact ⟨s, hs, hactive, not_noLockout_of_over hs (by decide) hactive hp
      (by simp [PeerConn.Live, htask, hconn])⟩

end PeerAcceptors

end Boardwalk
