import Boardwalk.Peer.Acceptor

/-!
# What a step of the acceptors does

`Effect ops s a s'` lists the steps of the gateway with their guards and results, one constructor for
each kind of step; `effect_of_step` is the inversion lemma from which the invariants are derived
without unfolding the tasks again.  `WellPhased` collects what the program counters of the tasks say
about each other and about the guards.
-/

namespace Boardwalk

/-- The connection that takes the step. -/
def AcceptorAction.actor : AcceptorAction → ConnId
  | .dial c _ | .request c _ | .task c _ | .conn c => c

namespace PeerAcceptors

variable {ops : HttpOps} {s s' : PeerAcceptors} {a : AcceptorAction}

@[simp] theorem setConn_inner (s : PeerAcceptors) (c : ConnId) (p : PeerConn) :
    (s.setConn c p).inner = s.inner := rfl

@[simp] theorem setConn_senders (s : PeerAcceptors) (c : ConnId) (p : PeerConn) :
    (s.setConn c p).senders = s.senders := rfl

@[simp] theorem setConn_contexts (s : PeerAcceptors) (c : ConnId) (p : PeerConn) :
    (s.setConn c p).contexts = s.contexts := rfl

/-- What one step does. -/
inductive Effect (ops : HttpOps) (s : PeerAcceptors) : AcceptorAction → PeerAcceptors → Prop where
  | dialed (c : ConnId) (admitted : AdmittedPeerConnection) (hnew : s.conns.get? c = none) :
    Effect ops s (.dial c admitted) (s.setConn c { admitted })
  | refusedOrWaits (c : ConnId) (ok : Bool) (p : PeerConn) (q : RequestPhase)
    (hp : s.conns.get? c = some p) (hfrom : p.request ≠ .storing ∧ p.request ≠ .stored)
    (hto : q ≠ .storing ∧ q ≠ .stored) (hrefused : q = .refused → s.hasActivePeer p.route = true) :
    Effect ops s (.request c ok) (s.setConn c { p with request := q })
  | spawned (c : ConnId) (ok : Bool) (p : PeerConn) (hp : s.conns.get? c = some p)
    (hphase : p.request = .upgrading) :
    Effect ops s (.request c ok) (s.setConn c { p with request := .storing, task := .recording })
  | stored (c : ConnId) (ok : Bool) (p : PeerConn) (hp : s.conns.get? c = some p)
    (hphase : p.request = .storing) (hguard : s.innerGuard = none) :
    Effect ops s (.request c ok)
      ({ s with inner := s.inner.insert p.route c }.setConn c { p with request := .stored })
  | recorded (c : ConnId) (ok : Bool) (p : PeerConn) (hp : s.conns.get? c = some p)
    (hphase : p.task = .recording) :
    Effect ops s (.task c ok)
      ({ s with contexts := s.contexts.insert p.route c }.setConn c { p with task := .handshaking })
  | shookHands (c : ConnId) (ok : Bool) (p : PeerConn) (hp : s.conns.get? c = some p)
    (hphase : p.task = .handshaking) (hbuilt : (p.confirmation ops).isSome = true) :
    Effect ops s (.task c ok) (s.setConn c { p with task := .confirming, conn := .running })
  | panicked (c : ConnId) (ok : Bool) (p : PeerConn) (hp : s.conns.get? c = some p)
    (hphase : p.task = .handshaking) (hok : ok = true) (hbuilt : p.confirmation ops = none) :
    Effect ops s (.task c ok) (s.setConn c { p with task := .panicked, conn := .running })
  | confirmed (c : ConnId) (ok : Bool) (p : PeerConn) (hp : s.conns.get? c = some p)
    (hphase : p.task = .confirming) (hok : ok = true) :
    Effect ops s (.task c ok) (s.setConn c { p with task := .registering })
  | gaveUp (c : ConnId) (ok : Bool) (p : PeerConn) (hp : s.conns.get? c = some p)
    (hphase : p.task = .handshaking ∨ p.task = .confirming) (hok : ok = false) :
    Effect ops s (.task c ok) (s.setConn c { p with task := .failing })
  | registered (c : ConnId) (ok : Bool) (p : PeerConn) (hp : s.conns.get? c = some p)
    (hphase : p.task = .registering) (hguard : s.sendersGuard = none) :
    Effect ops s (.task c ok)
      ({ s with senders := s.senders.insert p.route c }.setConn c { p with task := .succeeded })
  | reported (c : ConnId) (ok : Bool) (p : PeerConn) (hp : s.conns.get? c = some p)
    (driveSucceeded : Bool)
    (hphase : p.task = if driveSucceeded then .succeeded else .failed)
    (confirmations : UInt64) (written : List (ConnId × PeerConnectionStatus)) :
    Effect ops s (.task c ok)
      ({ s with confirmations, written }.setConn c { p with task := .finishing driveSucceeded })
  | unrecorded (c : ConnId) (ok : Bool) (p : PeerConn) (hp : s.conns.get? c = some p)
    (hphase : p.task = .failing) :
    Effect ops s (.task c ok)
      ({ s with contexts := s.contexts.remove p.route }.setConn c { p with task := .failed })
  | unstored (c : ConnId) (ok : Bool) (p : PeerConn) (hp : s.conns.get? c = some p)
    (driveSucceeded : Bool) (hphase : p.task = .finishing driveSucceeded)
    (hguard : s.innerGuard = none) :
    Effect ops s (.task c ok)
      ({ s with inner := s.inner.remove p.route, innerGuard := some c }.setConn c
        { p with task := .checking driveSucceeded })
  | left (c : ConnId) (ok : Bool) (p : PeerConn) (hp : s.conns.get? c = some p)
    (driveSucceeded : Bool) (hphase : p.task = .checking driveSucceeded)
    (hguard : s.sendersGuard = none) (written : List (ConnId × PeerConnectionStatus)) :
    Effect ops s (.task c ok)
      ({ s with written, innerGuard := none }.setConn c { p with task := .finished driveSucceeded })
  | hungUp (c : ConnId) (p : PeerConn) (hp : s.conns.get? c = some p)
    (hphase : p.conn = .running) :
    Effect ops s (.conn c) (s.setConn c { p with conn := .ended })
  | unregistered (c : ConnId) (p : PeerConn) (hp : s.conns.get? c = some p)
    (hphase : p.conn = .ended) (hguard : s.sendersGuard = none) :
    Effect ops s (.conn c)
      ({ s with senders := s.senders.remove p.route, sendersGuard := some c }.setConn c
        { p with conn := .cleaning })
  | cleaned (c : ConnId) (p : PeerConn) (hp : s.conns.get? c = some p)
    (hphase : p.conn = .cleaning) :
    Effect ops s (.conn c)
      ({ s with contexts := s.contexts.remove p.route, sendersGuard := none }.setConn c
        { p with conn := .finished })

theorem withInner_eq_some {t : PeerAcceptors} :
    s.withInner t = some s' ↔ s.innerGuard = none ∧ t = s' := by
  unfold withInner
  split <;> simp_all

theorem withSenders_eq_some {t : PeerAcceptors} :
    s.withSenders t = some s' ↔ s.sendersGuard = none ∧ t = s' := by
  unfold withSenders
  split <;> simp_all

theorem effect_of_peersUpgrade {c : ConnId} {p : PeerConn} {ok : Bool}
    (hp : s.conns.get? c = some p) (hs : s.peersUpgrade c p ok = some s') :
    Effect ops s (.request c ok) s' := by
  unfold peersUpgrade at hs
  split at hs
  -- the two reads of `has_active_peer` refuse alike, each on its own map
  case h_1 hphase =>
    obtain ⟨-, rfl⟩ := withSenders_eq_some.mp hs
    refine .refusedOrWaits c ok p _ hp (by simp [hphase]) (by split <;> simp) fun hq => ?_
    unfold hasActivePeer
    split at hq <;> simp_all
  case h_2 hphase =>
    obtain ⟨-, rfl⟩ := withInner_eq_some.mp hs
    refine .refusedOrWaits c ok p _ hp (by simp [hphase]) (by split <;> simp) fun hq => ?_
    unfold hasActivePeer
    split at hq <;> simp_all
  case h_3 hphase =>
    obtain rfl := Option.some.inj hs
    split
    · exact .spawned c ok p hp hphase
    · exact .refusedOrWaits c ok p _ hp (by simp [hphase]) (by simp) nofun
  case h_4 hphase =>
    obtain ⟨hguard, rfl⟩ := withInner_eq_some.mp hs
    exact .stored c ok p hp hphase hguard
  all_goals cases hs

theorem effect_of_acceptorTask {c : ConnId} {p : PeerConn} {ok : Bool}
    (hp : s.conns.get? c = some p) (hs : s.acceptorTask ops c p ok = some s') :
    Effect ops s (.task c ok) s' := by
  unfold acceptorTask at hs
  split at hs
  case h_1 | h_2 | h_3 => cases hs
  case h_4 hphase =>
    obtain rfl := Option.some.inj hs
    exact .recorded c ok p hp hphase
  case h_5 hphase =>
    obtain rfl := Option.some.inj hs
    split
    case isTrue hok =>
      -- the request is built as soon as the handshake is done
      split
      case isTrue hbuilt => exact .shookHands c ok p hp hphase hbuilt
      case isFalse hbuilt =>
        exact .panicked c ok p hp hphase hok (Option.not_isSome_iff_eq_none.mp hbuilt)
    case isFalse hok => exact .gaveUp c ok p hp (.inl hphase) (Bool.eq_false_iff.mpr hok)
  case h_6 hphase =>
    obtain rfl := Option.some.inj hs
    split
    case isTrue hok => exact .confirmed c ok p hp hphase hok
    case isFalse hok => exact .gaveUp c ok p hp (.inr hphase) (Bool.eq_false_iff.mpr hok)
  case h_7 hphase =>
    obtain ⟨hguard, rfl⟩ := withSenders_eq_some.mp hs
    exact .registered c ok p hp hphase hguard
  case h_8 hphase =>
    obtain rfl := Option.some.inj hs
    exact .reported c ok p hp true hphase _ _
  case h_9 hphase =>
    obtain rfl := Option.some.inj hs
    exact .unrecorded c ok p hp hphase
  case h_10 hphase =>
    obtain rfl := Option.some.inj hs
    exact .reported c ok p hp false hphase _ _
  case h_11 driveSucceeded hphase =>
    obtain ⟨hguard, rfl⟩ := withInner_eq_some.mp hs
    exact .unstored c ok p hp driveSucceeded hphase hguard
  case h_12 driveSucceeded hphase =>
    obtain ⟨hguard, rfl⟩ := withSenders_eq_some.mp hs
    split
    · exact .left c ok p hp driveSucceeded hphase hguard _
    · exact .left c ok p hp driveSucceeded hphase hguard _

theorem effect_of_connTask {c : ConnId} {p : PeerConn} (hp : s.conns.get? c = some p)
    (hs : s.connTask c p = some s') : Effect ops s (.conn c) s' := by
  unfold connTask at hs
  split at hs
  case h_1 => cases hs
  case h_2 => cases hs
  case h_3 hphase =>
    obtain rfl := Option.some.inj hs
    exact .hungUp c p hp hphase
  case h_4 hphase =>
    obtain ⟨hguard, rfl⟩ := withSenders_eq_some.mp hs
    exact .unregistered c p hp hphase hguard
  case h_5 hphase =>
    obtain rfl := Option.some.inj hs
    exact .cleaned c p hp hphase

/-- **The inversion lemma** of the acceptors' steps. -/
theorem effect_of_step (hs : s.step ops a = some s') : Effect ops s a s' := by
  cases a with
  | dial c admitted =>
    simp only [step] at hs
    split at hs
    · obtain rfl := Option.some.inj hs
      exact .dialed c admitted ‹_›
    · cases hs
  | request c ok =>
    obtain ⟨p, hp, hs⟩ := Option.bind_eq_some_iff.mp hs
    exact effect_of_peersUpgrade hp hs
  | task c ok =>
    obtain ⟨p, hp, hs⟩ := Option.bind_eq_some_iff.mp hs
    exact effect_of_acceptorTask hp hs
  | conn c =>
    obtain ⟨p, hp, hs⟩ := Option.bind_eq_some_iff.mp hs
    exact effect_of_connTask hp hs

/-- A step changes the record of the connection that takes it only. -/
theorem Effect.conns_of_ne (e : Effect ops s a s') {c : ConnId} (hne : c ≠ a.actor) :
    s'.conns.get? c = s.conns.get? c := by
  cases e <;> exact Table.get?_insert_ne hne

/-- So does a run. -/
theorem conns_of_run {c : ConnId} {as : List AcceptorAction} (hne : ∀ a ∈ as, c ≠ a.actor)
    (hrun : (machine ops).run s as = some s') : s'.conns.get? c = s.conns.get? c := by
  induction as generalizing s with
  | nil =>
    obtain rfl := Option.some.inj hrun
    rfl
  | cons a as ih =>
    obtain ⟨t, ht, hrun⟩ := Machine.run_cons.mp hrun
    rw [ih (fun b hb => hne b (List.mem_cons_of_mem a hb)) hrun,
      (effect_of_step ht).conns_of_ne (hne a List.mem_cons_self)]

/-- The connection that takes a step is new, or keeps its admission. -/
theorem Effect.admitted_actor (e : Effect ops s a s') :
    s.conns.get? a.actor = none ∨ ∃ p p', s.conns.get? a.actor = some p ∧
      s'.conns.get? a.actor = some p' ∧ p'.admitted = p.admitted := by
  cases e with
  | dialed c admitted hnew => exact .inl hnew
  | refusedOrWaits c ok p q hp | spawned c ok p hp | stored c ok p hp | recorded c ok p hp
  | shookHands c ok p hp | panicked c ok p hp | confirmed c ok p hp | gaveUp c ok p hp
  | registered c ok p hp | reported c ok p hp | unrecorded c ok p hp | unstored c ok p hp
  | left c ok p hp | hungUp c p hp | unregistered c p hp | cleaned c p hp =>
    exact .inr ⟨p, _, hp, Table.get?_insert_self .., rfl⟩

/-- Connection `c` exists and was admitted as `admitted`. -/
def Admitted (s : PeerAcceptors) (c : ConnId) (admitted : AdmittedPeerConnection) : Prop :=
  ∃ p, s.conns.get? c = some p ∧ p.admitted = admitted

/-- The admission of a connection never changes. -/
theorem Admitted.step {c : ConnId} {admitted : AdmittedPeerConnection}
    (h : s.Admitted c admitted) (hs : s.step ops a = some s') : s'.Admitted c admitted := by
  obtain ⟨p, hp, rfl⟩ := h
  have e := effect_of_step hs
  rcases eq_or_ne c a.actor with rfl | hne
  · rcases e.admitted_actor with hnone | ⟨q, q', hq, hq', hsame⟩
    · rw [hp] at hnone
      cases hnone
    · obtain rfl := Option.some.inj (hp.symm.trans hq)
      exact ⟨q', hq', hsame⟩
  · exact ⟨p, (e.conns_of_ne hne).trans hp, rfl⟩

/-! ### The program counters -/

/-- What the program counters of connection `c` say about each other and about the guards. -/
structure WellPhased (s : PeerAcceptors) (c : ConnId) (p : PeerConn) : Prop where
  /-- The task runs once `on_upgraded` was called. -/
  spawned : p.task = .unspawned ↔ p.request ≠ .storing ∧ p.request ≠ .stored
  /-- No connection is driven before the handshake. -/
  undriven : p.task = .unspawned ∨ p.task = .recording ∨ p.task = .handshaking →
    p.conn = .unspawned
  /-- The connection is driven once the handshake succeeded. -/
  driven : p.task = .confirming ∨ p.task = .registering → p.conn ≠ .unspawned
  checking : ∀ b, p.task = .checking b → s.innerGuard = some c
  /-- No sender is inserted between the two removals of the cleanup. -/
  cleaning : p.conn = .cleaning → s.sendersGuard = some c ∧ s.senders.get? p.route = none

/-- All connections are well phased. -/
def Sound (s : PeerAcceptors) : Prop := ∀ c p, s.conns.get? c = some p → s.WellPhased c p

/-- The connections that do not act stay in their phase. -/
theorem wellPhased_of_ne (h : Sound s) (e : Effect ops s a s') {c : ConnId} {p : PeerConn}
    (hne : c ≠ a.actor) (hp : s.conns.get? c = some p) : s'.WellPhased c p := by
  -- the phase is as before; what has to be shown is who holds the locks
  obtain ⟨hspawned, hundriven, hdriven, hchecking, hcleaning⟩ := h c p hp
  refine ⟨hspawned, hundriven, hdriven, fun b hb => ?_, fun hb => ?_⟩
  · -- the guard of `inner` is given back by the task that holds it, and taken when it is free
    have hheld := hchecking b hb
    cases e with
    | unstored c' ok p' hp' b' hphase hguard => rw [hguard] at hheld; cases hheld
    | left c' ok p' hp' b' hphase hguard written =>
      have := (h c' p' hp').checking b' hphase
      rw [this] at hheld
      exact absurd (Option.some.inj hheld).symm hne
    | _ => exact hheld
  · -- while the cleanup of `c` holds `senders`, no one else inserts there or takes the guard
    obtain ⟨hheld, hnone⟩ := hcleaning hb
    cases e with
    | registered c' ok p' hp' hphase hguard => rw [hguard] at hheld; cases hheld
    | unregistered c' p' hp' hphase hguard => rw [hguard] at hheld; cases hheld
    | cleaned c' p' hp' hphase =>
      rw [((h c' p' hp').cleaning hphase).1] at hheld
      exact absurd (Option.some.inj hheld).symm hne
    | _ => exact ⟨hheld, hnone⟩

/-- The connection that acts is in its phase after the step. -/
theorem wellPhased_actor (h : Sound s) (e : Effect ops s a s') {p : PeerConn}
    (hp : s'.conns.get? a.actor = some p) : s'.WellPhased a.actor p := by
  cases e with
  | dialed c admitted hnew =>
    obtain rfl := Option.some.inj ((Table.get?_insert_self ..).symm.trans hp)
    exact ⟨by simp, by simp, by simp, by simp, by simp⟩
  | _ =>
    obtain rfl := Option.some.inj ((Table.get?_insert_self ..).symm.trans hp)
    -- each field follows from the phase the step starts in and from the record before it
    have w := h _ _ ‹_›
    constructor <;>
      grind [WellPhased, setConn, Table.get?_insert, Table.get?_remove, PeerConn.route,
        AcceptorAction.actor]

theorem sound_init (ops : HttpOps) : Sound (machine ops).init := fun _ _ hp => by cases hp

theorem sound_step (h : Sound s) (e : Effect ops s a s') : Sound s' := by
  intro c p hp
  by_cases hc : c = a.actor
  · subst hc
    exact wellPhased_actor h e hp
  · rw [e.conns_of_ne hc] at hp
    exact wellPhased_of_ne h e hc hp

end PeerAcceptors

end Boardwalk
