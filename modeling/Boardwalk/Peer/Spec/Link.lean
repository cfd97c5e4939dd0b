import Boardwalk.Peer.Link
import Boardwalk.Peer.Spec.Client
import Boardwalk.Peer.Spec.Registry

/-!
# A link is confirmed by the hub, and once

The gateway forwards through a tunnel of the hub only after the hub has answered `200` for the
connection id of that tunnel, and the hub answers so once for each attempt.  So however often a dial
is repeated, and whoever else asks the hub, one attempt leads to one link (`links_are_confirmed`).
-/

namespace Boardwalk

/-- The acceptor task is past the answer to its confirmation request. -/
def TaskPhase.Confirmed (t : TaskPhase) : Prop := t = .registering ∨ t.driveSucceeded = true

namespace PeerAcceptors

variable {ops : HttpOps} {s s' : PeerAcceptors} {a : AcceptorAction} {c : ConnId}

/-- A task gets past its confirmation request only with an outcome that is good. -/
theorem confirmed_of_step {p' : PeerConn} (hstep : s.step ops a = some s')
    (hp' : s'.conns.get? c = some p') (hconfirmed : p'.task.Confirmed) :
    ∃ p, s.conns.get? c = some p ∧ p.admitted = p'.admitted ∧
      (p.task.Confirmed ∨ p.task = .confirming ∧ a = .task c true) := by
  -- the connection that steps, or another one
  have e := effect_of_step hstep
  by_cases hc : c = a.actor
  · subst hc
    cases e with
    | dialed c admitted hnew =>
      obtain rfl := Option.some.inj ((Table.get?_insert_self ..).symm.trans hp')
      rcases hconfirmed with h | h <;> cases h
    | confirmed c ok p hp hphase hok =>
      obtain rfl := Option.some.inj ((Table.get?_insert_self ..).symm.trans hp')
      exact ⟨p, hp, rfl, .inr ⟨hphase, congrArg _ hok⟩⟩
    | refusedOrWaits c ok p q hp | stored c ok p hp | hungUp c p hp | unregistered c p hp
    | cleaned c p hp =>
      obtain rfl := Option.some.inj ((Table.get?_insert_self ..).symm.trans hp')
      exact ⟨p, hp, rfl, .inl hconfirmed⟩
    -- these phases are not past the confirmation
    | spawned c ok p hp | recorded c ok p hp | shookHands c ok p hp | panicked c ok p hp
    | gaveUp c ok p hp | unrecorded c ok p hp =>
      obtain rfl := Option.some.inj ((Table.get?_insert_self ..).symm.trans hp')
      rcases hconfirmed with h | h <;> cases h
    | registered c ok p hp hphase =>
      obtain rfl := Option.some.inj ((Table.get?_insert_self ..).symm.trans hp')
      exact ⟨p, hp, rfl, .inl (.inl hphase)⟩
    | reported c ok p hp b hphase | unstored c ok p hp b hphase | left c ok p hp b hphase =>
      -- the report was due only after a drive that succeeded
      obtain rfl := Option.some.inj ((Table.get?_insert_self ..).symm.trans hp')
      refine ⟨p, hp, rfl, .inl (.inr ?_)⟩
      rcases hconfirmed with h | h
      · cases h
      · cases b with
        | true => rw [hphase]; rfl
        | false => cases h
  · rw [e.conns_of_ne hc] at hp'
    exact ⟨p', hp', rfl, .inl hconfirmed⟩

/-- The senders that are registered belong to connections whose drive succeeded. -/
def Driven (s : PeerAcceptors) : Prop :=
  Table.Backed PeerConn.route (fun p => p.task.driveSucceeded = true) s.conns s.senders

/-- Every step keeps the registered senders with connections whose drive succeeded. -/
theorem Driven.step (hS : Sound s) (h : s.Driven) (e : Effect ops s a s') : s'.Driven := by
  unfold Driven at h ⊢
  cases e with
  | dialed c admitted hnew => exact h.new hnew
  | refusedOrWaits c ok p q hp | stored c ok p hp | hungUp c p hp | cleaned c p hp =>
    exact h.update hp rfl id
  | spawned c ok p hp hphase =>
    -- the task of an upgrade is new
    have hnew := (hS c p hp).spawned.mpr (by simp [hphase])
    exact h.update hp rfl fun hdrive => by simp [hnew, TaskPhase.driveSucceeded] at hdrive
  | recorded c ok p hp hphase | shookHands c ok p hp hphase | panicked c ok p hp hphase
  | confirmed c ok p hp hphase | unrecorded c ok p hp hphase =>
    exact h.update hp rfl fun hdrive => by simp [hphase, TaskPhase.driveSucceeded] at hdrive
  | gaveUp c ok p hp hphase =>
    exact h.update hp rfl fun hdrive => by
      rcases hphase with hphase | hphase <;> simp [hphase, TaskPhase.driveSucceeded] at hdrive
  | registered c ok p hp hphase hguard => exact h.insert hp rfl rfl
  | reported c ok p hp b hphase =>
    refine h.update hp rfl fun hdrive => ?_
    cases b <;> simp_all [TaskPhase.driveSucceeded]
  | unstored c ok p hp b hphase | left c ok p hp b hphase =>
    refine h.update hp rfl fun hdrive => ?_
    cases b <;> simp_all [TaskPhase.driveSucceeded]
  | unregistered c p hp hphase => exact h.remove hp

end PeerAcceptors

namespace PeerLink

variable {ops : HttpOps} {s s' : PeerLink} {n : ℕ}

/-- The hub has answered `200` through the tunnel. -/
def Answered (s : PeerLink) (c : ConnId) (id : Uuid) : Prop :=
  s.tunnels.get? c = some (some 200) ∧ s.connectionId? c = some id

/-- What every step of the two servers keeps. -/
structure Joint (n : ℕ) (s : PeerLink) : Prop where
  hub : s.hub.Sound n
  gateway : s.gateway.Sound
  driven : s.gateway.Driven
  /-- A tunnel is a connection of the gateway. -/
  known : ∀ c answer, s.tunnels.get? c = some answer → s.gateway.conns.get? c ≠ none
  answered : ∀ c id, s.Answered c id → (id, 200) ∈ s.hub.answers
  /-- No tunnel passes its confirmation request but by the answer of the hub. -/
  passed : ∀ c p answer, s.tunnels.get? c = some answer → s.gateway.conns.get? c = some p →
    p.task.Confirmed → answer = some 200
  once : s.hub.dialed.Nodup → ∀ c c' id, s.Answered c id → s.Answered c' id → c = c'

/-- Both ends start out joined. -/
theorem joint_init (ops : HttpOps) (n : ℕ) : (machine ops n).init.Joint n := by
  have htunnels : ∀ c answer, (machine ops n).init.tunnels.get? c ≠ some answer := by
    intro c answer h
    have h : (none : Option (Option ℕ)) = some answer := h
    cases h
  have hdriven : (machine ops n).init.gateway.Driven := by
    intro r c h
    have h : (none : Option ConnId) = some c := h
    cases h
  exact
    { hub := PeerClients.sound_init n
      gateway := PeerAcceptors.sound_init ops
      driven := hdriven
      known := fun c answer h => absurd h (htunnels c answer)
      answered := fun c id h => absurd h.1 (htunnels c _)
      passed := fun c p answer h => absurd h (htunnels c answer)
      once := fun _ c c' id h => absurd h.1 (htunnels c _) }

/-- Answers are not taken back. -/
theorem answers_le {hub hub' : PeerClients} (e : PeerClients.Effect hub hub') :
    hub.answers <+: hub'.answers := by
  cases e with
  | answered id hs => exact hs ▸ List.prefix_append _ _
  | _ =>
    rename_i hs
    exact hs ▸ List.prefix_refl _

theorem Joint.hub_step (h : s.Joint n) {hub : PeerClients} (e : PeerClients.Effect s.hub hub) :
    ({ s with hub := hub } : PeerLink).Joint n where
  hub := h.hub.step e
  gateway := h.gateway
  driven := h.driven
  known := h.known
  answered c id hc := (answers_le e).subset (h.answered c id hc)
  passed := h.passed
  once hnodup := h.once (hnodup.sublist e.dialed_prefix.sublist)

/-- A step of the gateway keeps the ids of its connections. -/
theorem connectionId?_of_step {gateway : PeerAcceptors} {a : AcceptorAction} {c : ConnId}
    (hstep : s.gateway.step ops a = some gateway) (hknown : s.gateway.conns.get? c ≠ none) :
    ({ s with gateway := gateway } : PeerLink).connectionId? c = s.connectionId? c := by
  obtain ⟨p, hp⟩ := Option.ne_none_iff_exists'.mp hknown
  have hadmitted : s.gateway.Admitted c p.admitted := ⟨p, hp, rfl⟩
  obtain ⟨p', hp', hsame⟩ := hadmitted.step hstep
  show (gateway.conns.get? c).map _ = (s.gateway.conns.get? c).map _
  rw [hp, hp', Option.map_some, Option.map_some, hsame]

/-- A step of the gateway, if a good outcome of a confirmation request has arrived. -/
theorem Joint.gateway_step (h : s.Joint n) {gateway : PeerAcceptors} {a : AcceptorAction}
    (hstep : s.gateway.step ops a = some gateway)
    (harrived : ∀ c, a = .task c true → s.awaits c = true → s.answerArrived c = true) :
    ({ s with gateway := gateway } : PeerLink).Joint n := by
  have e := PeerAcceptors.effect_of_step hstep
  -- the ids of the tunnels do not change
  have hid : ∀ c answer, s.tunnels.get? c = some answer →
      ({ s with gateway := gateway } : PeerLink).connectionId? c = s.connectionId? c :=
    fun c answer hc => connectionId?_of_step hstep (h.known c answer hc)
  have hanswered : ∀ c id, ({ s with gateway := gateway } : PeerLink).Answered c id →
      s.Answered c id := fun c id hc => ⟨hc.1, (hid c _ hc.1).symm.trans hc.2⟩
  refine ⟨h.hub, PeerAcceptors.sound_step h.gateway e, h.driven.step h.gateway e, ?_, ?_, ?_, ?_⟩
  · intro c answer hc hnone
    obtain ⟨p, hp⟩ := Option.ne_none_iff_exists'.mp (h.known c answer hc)
    have hadmitted : s.gateway.Admitted c p.admitted := ⟨p, hp, rfl⟩
    obtain ⟨p', hp', -⟩ := hadmitted.step hstep
    have hnone : gateway.conns.get? c = none := hnone
    rw [hp'] at hnone
    cases hnone
  · exact fun c id hc => h.answered c id (hanswered c id hc)
  · -- who is confirmed now was so before, or the answer had arrived
    intro c p' answer hc hp' hconfirmed
    obtain ⟨p, hp, -, hbefore⟩ := PeerAcceptors.confirmed_of_step hstep hp' hconfirmed
    rcases hbefore with hbefore | ⟨hphase, ha⟩
    · exact h.passed c p answer hc hp hbefore
    · have hawaits : s.awaits c = true := by simp [awaits, hp, hphase]
      have hgood := harrived c ha hawaits
      unfold answerArrived at hgood
      have hc : s.tunnels.get? c = some answer := hc
      rw [hc] at hgood
      exact beq_iff_eq.mp hgood
  · exact fun hnodup c c' id hc hc' => h.once hnodup c c' id (hanswered c id hc) (hanswered c' id hc')

/-- A new tunnel has no answer yet. -/
theorem Joint.arrive_step (h : s.Joint n) {gateway : PeerAcceptors} {c : ConnId}
    {admitted : AdmittedPeerConnection}
    (hstep : s.gateway.step ops (.dial c admitted) = some gateway) :
    ({ s with gateway := gateway, tunnels := s.tunnels.insert c none } : PeerLink).Joint n := by
  have hg := h.gateway_step hstep (by simp)
  -- the new connection stands at its check, with no answer yet
  have hnew : gateway.conns.get? c = some { admitted } := by
    simp only [PeerAcceptors.step, Option.ite_none_right_eq_some, Option.some.injEq] at hstep
    rw [← hstep.2]
    exact Table.get?_insert_self ..
  have hne : ∀ d answer, (s.tunnels.insert c none).get? d = some (some answer) →
      s.tunnels.get? d = some (some answer) := by
    intro d answer hd
    rcases Table.get?_insert_eq_some.mp hd with ⟨-, hnone⟩ | ⟨-, hd⟩
    · cases hnone
    · exact hd
  refine ⟨hg.hub, hg.gateway, hg.driven, fun d answer hd => ?_, fun d id hd => ?_,
    fun d p answer hd hp hconfirmed => ?_, fun hnodup d d' id hd hd' => ?_⟩
  · rcases Table.get?_insert_eq_some.mp hd with ⟨rfl, -⟩ | ⟨-, hd⟩
    · show gateway.conns.get? d ≠ none
      rw [hnew]
      exact Option.some_ne_none _
    · exact hg.known d answer hd
  · exact hg.answered d id ⟨hne d 200 hd.1, hd.2⟩
  · rcases Table.get?_insert_eq_some.mp hd with ⟨rfl, -⟩ | ⟨-, hd⟩
    · have hp : gateway.conns.get? d = some p := hp
      rw [hnew] at hp
      obtain rfl := Option.some.inj hp
      rcases hconfirmed with h | h <;> cases h
    · exact hg.passed d p answer hd hp hconfirmed
  · exact hg.once hnodup d d' id ⟨hne d 200 hd.1, hd.2⟩ ⟨hne d' 200 hd'.1, hd'.2⟩

/-- The hub answers through a tunnel that waits. -/
theorem Joint.confirm_step (h : s.Joint n) {c : ConnId} {id : Uuid}
    (hnone : s.tunnels.get? c = some none) (hid : s.connectionId? c = some id)
    (hawaits : s.awaits c = true) :
    ({ s with
      hub := s.hub.initiatePeer id
      tunnels := s.tunnels.insert c (some (if id ∈ s.hub.peerInit then 200 else 404)) } :
      PeerLink).Joint n := by
  have hh := h.hub_step (.answered id rfl)
  have hreg : ∀ x, some (some (if id ∈ s.hub.peerInit then 200 else 404)) = some (some 200) →
      s.connectionId? c = some x → x = id ∧ id ∈ s.hub.peerInit := by
    intro x hstatus hx
    refine ⟨Option.some.inj (hx.symm.trans hid), ?_⟩
    by_contra hnot
    rw [if_neg hnot] at hstatus
    cases hstatus
  -- an answer `200` is new, for an id that was registered, or it is an old one
  have hanswered : ∀ d x, (s.tunnels.insert c (some (if id ∈ s.hub.peerInit then 200 else 404))).get? d =
      some (some 200) → s.connectionId? d = some x →
      (d = c ∧ x = id ∧ id ∈ s.hub.peerInit) ∨ (d ≠ c ∧ s.Answered d x) := by
    intro d x hd hx
    rcases Table.get?_insert_eq_some.mp hd with ⟨rfl, hstatus⟩ | ⟨hne, hd⟩
    · exact .inl ⟨rfl, hreg x (congrArg some hstatus) hx⟩
    · exact .inr ⟨hne, hd, hx⟩
  refine ⟨hh.hub, hh.gateway, hh.driven, fun d answer hd => ?_, fun d x hd => ?_,
    fun d p answer hd hp hconfirmed => ?_, fun hnodup d d' x hd hd' => ?_⟩
  · rcases Table.get?_insert_eq_some.mp hd with ⟨rfl, -⟩ | ⟨-, hd⟩
    · exact h.known d none hnone
    · exact h.known d answer hd
  · rcases hanswered d x hd.1 hd.2 with ⟨rfl, rfl, hmem⟩ | ⟨-, hd⟩
    · show (x, 200) ∈ s.hub.answers ++ [(x, if x ∈ s.hub.peerInit then 200 else 404)]
      rw [if_pos hmem]
      simp
    · exact hh.answered d x hd
  · rcases Table.get?_insert_eq_some.mp hd with ⟨rfl, -⟩ | ⟨-, hd⟩
    · have hp : s.gateway.conns.get? d = some p := hp
      have hphase : p.task = .confirming := by simpa [awaits, hp] using hawaits
      rcases hconfirmed with h | h <;> rw [hphase] at h <;> cases h
    · exact h.passed d p answer hd hp hconfirmed
  · have hregistered := h.hub.registered hnodup
    rcases hanswered d x hd.1 hd.2 with ⟨rfl, rfl, hmem⟩ | ⟨hne, hold⟩ <;>
      rcases hanswered d' _ hd'.1 hd'.2 with ⟨rfl, hx, hmem'⟩ | ⟨hne', hold'⟩
    · rfl
    · exact absurd (h.answered d' x hold') ((hregistered.exact x).mp hmem).2
    · subst hx
      exact absurd (h.answered d x hold) ((hregistered.exact x).mp hmem').2
    · exact h.once hnodup d d' x hold hold'

/-- Every step of either end keeps the two joined. -/
theorem Joint.step (h : s.Joint n) {a : LinkAction} (hstep : s.step ops a = some s') : s'.Joint n := by
  -- the two ends step on their own; `arrive` and `confirm` are what they share
  cases a with
  | hub a =>
    obtain ⟨hub, hhub, rfl⟩ := Option.map_eq_some_iff.mp hstep
    exact h.hub_step (PeerClients.effect_of_step hhub)
  | gateway a =>
    cases a with
    | task c ok =>
      simp only [PeerLink.step, Option.ite_none_left_eq_some, Option.map_eq_some_iff] at hstep
      obtain ⟨hguard, gateway, hgateway, rfl⟩ := hstep
      refine h.gateway_step hgateway fun d hd hawaits => ?_
      cases hd
      by_contra hnot
      exact hguard (by simp [hawaits, hnot])
    | dial c admitted | request c ok | conn c =>
      obtain ⟨gateway, hgateway, rfl⟩ := Option.map_eq_some_iff.mp hstep
      exact h.gateway_step hgateway nofun
  | arrive c admitted =>
    simp only [PeerLink.step, Option.ite_none_right_eq_some, Option.map_eq_some_iff] at hstep
    obtain ⟨-, gateway, hgateway, rfl⟩ := hstep
    exact h.arrive_step hgateway
  | confirm c =>
    unfold PeerLink.step at hstep
    dsimp only at hstep
    split at hstep
    · rename_i id hnone hid
      rw [Option.ite_none_right_eq_some] at hstep
      obtain ⟨hawaits, hstep⟩ := hstep
      obtain rfl := Option.some.inj hstep
      exact h.confirm_step hnone hid hawaits
    · cases hstep

theorem joint_of_reachable (h : (machine ops n).Reachable s) : s.Joint n :=
  h.inv (joint_init ops n) fun _ _ _ hs hstep => hs.step hstep

/-- A tunnel whose acceptor task got past the confirmation was confirmed by the hub. -/
theorem Joint.answered_of_confirmed (h : s.Joint n) {c : ConnId} {p : PeerConn}
    (hc : s.tunnels.get? c ≠ none) (hp : s.gateway.conns.get? c = some p)
    (hconfirmed : p.task.Confirmed) : s.Answered c p.admitted.connectionId := by
  obtain ⟨answer, hanswer⟩ := Option.ne_none_iff_exists'.mp hc
  rw [h.passed c p answer hanswer hp hconfirmed] at hanswer
  exact ⟨hanswer, by simp [connectionId?, hp]⟩

/-- **A link is confirmed by the hub, and once.**  In every state that a gateway and a hub with `n`
clients can reach, a tunnel of the hub whose sender the gateway has registered was answered with `200`
by the hub for its connection id, which a client of the hub has dialed.  And as long as the ids that
are dialed differ, no two tunnels with one id get past their confirmation, whether the second comes
from a request that was repeated or from somebody who learned the id. -/
theorem links_are_confirmed (h : (machine ops n).Reachable s) :
    (∀ r c, s.gateway.sender r = some c → s.tunnels.get? c ≠ none →
      ∃ p, s.gateway.conns.get? c = some p ∧ p.route = r ∧
        (p.admitted.connectionId, 200) ∈ s.hub.answers ∧
        1 ≤ s.hub.dialed.count p.admitted.connectionId) ∧
    (s.hub.dialed.Nodup → ∀ c c' p p', s.tunnels.get? c ≠ none → s.tunnels.get? c' ≠ none →
      s.gateway.conns.get? c = some p → s.gateway.conns.get? c' = some p' →
      p.task.Confirmed → p'.task.Confirmed →
      p.admitted.connectionId = p'.admitted.connectionId → c = c') := by
  have hjoint := joint_of_reachable h
  constructor
  · intro r c hsender hc
    obtain ⟨p, hp, hroute, hdriven⟩ := hjoint.driven r c hsender
    have hanswered := hjoint.answered c _ (hjoint.answered_of_confirmed hc hp (.inr hdriven))
    refine ⟨p, hp, hroute, hanswered, ?_⟩
    have hcount := (hjoint.hub.counted p.admitted.connectionId).1
    have hpos : 0 < s.hub.confirmed p.admitted.connectionId := List.count_pos_iff.mpr hanswered
    omega
  · -- two confirmed tunnels with one id would be two answers for one dial
    intro hnodup c c' p p' hc hc' hp hp' hconfirmed hconfirmed' hid
    have hanswered' := hjoint.answered_of_confirmed hc' hp' hconfirmed'
    rw [← hid] at hanswered'
    exact hjoint.once hnodup c c' _ (hjoint.answered_of_confirmed hc hp hconfirmed) hanswered'

/-- The admission of a hub's dial. -/
def hubDial (route : String) : AdmittedPeerConnection := .unauthenticated route 7 .empty

/-- A dial that arrives twice, under two names; the hub confirms the first. -/
def repeatedDial : List LinkAction :=
  [.hub (.dial 0 7), .arrive 0 (hubDial "hub"), .arrive 1 (hubDial "copy"),
    .gateway (.request 0 true), .gateway (.request 0 true), .gateway (.request 0 true),
    .gateway (.request 1 true), .gateway (.request 1 true), .gateway (.request 1 true),
    .hub (.linked 0), .gateway (.task 0 true), .gateway (.task 0 true), .gateway (.task 1 true),
    .gateway (.task 1 true), .confirm 0, .confirm 1, .gateway (.task 0 true),
    .gateway (.task 1 false), .gateway (.task 0 true)]

/-- The sender of the first is registered, on the word of the hub, and it is the only one with the
id. -/
theorem links_are_confirmed_repeatedDial : ∃ s,
    (machine lenientOps 1).run (machine lenientOps 1).init repeatedDial = some s ∧
    s.gateway.sender "hub" = some 0 ∧ s.tunnels.get? 1 = some (some 404) ∧
      (∃ p, s.gateway.conns.get? 0 = some p ∧ p.route = "hub" ∧
        (p.admitted.connectionId, 200) ∈ s.hub.answers ∧
        1 ≤ s.hub.dialed.count p.admitted.connectionId) ∧
      ∀ c p, s.tunnels.get? c ≠ none → s.gateway.conns.get? c = some p → p.task.Confirmed →
        7 = p.admitted.connectionId → 0 = c := by
  -- the copy of the dial was answered 404
  have hrun : ∃ s, (machine lenientOps 1).run (machine lenientOps 1).init repeatedDial = some s ∧
      s.gateway.sender "hub" = some 0 ∧ s.tunnels.get? 1 = some (some 404) ∧
      s.tunnels.get? 0 = some (some 200) ∧ s.hub.dialed = [7] ∧
      ∃ p, s.gateway.conns.get? 0 = some p ∧ p.task = .succeeded ∧ p.admitted.connectionId = 7 :=
    ⟨_, rfl, rfl, rfl, rfl, rfl, _, rfl, rfl, rfl⟩
  obtain ⟨s, hs, hsender, hcopy, htunnel, hdialed, p, hp, hphase, hid⟩ := hrun
  have hlinks := links_are_confirmed ⟨_, hs⟩
  have hnodup : s.hub.dialed.Nodup := by
    rw [hdialed]
    decide
  have hconfirmed : p.task.Confirmed := .inr (by rw [hphase]; rfl)
  have hmine : s.tunnels.get? 0 ≠ none := by
    rw [htunnel]
    nofun
  refine ⟨s, hs, hsender, hcopy, hlinks.1 "hub" 0 hsender hmine,
    fun c p' hc hp' hconfirmed' hsame => ?_⟩
  exact hlinks.2 hnodup 0 c p p' hmine hc hp hp' hconfirmed hconfirmed' (hid.trans hsame)

end PeerLink

end Boardwalk
