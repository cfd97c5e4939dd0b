import Boardwalk.Lib.Progress
import Boardwalk.Peer.Spec.Step

/-!
# The locks of the acceptors do not deadlock

Two guards are held across an await: an acceptor task waits for `senders` with `inner` locked, and a
connection task waits for `contexts` with `senders` locked.  A guard that is held names its holder
and what the holder is about to do (`Guarded`); since nobody waits for an earlier lock, the holder
of `senders` can always step, then the holder of `inner` can, then everybody else.  Every step of a
task also takes it closer to its end, so that all tasks of all connections come to their ends,
whatever the handshakes and confirmations come to; what can stay is an open connection.
-/

namespace Boardwalk

/-- The steps a connection's request handler has still to take. -/
def RequestPhase.rank : RequestPhase → ℕ
  | .checkSenders => 4
  | .checkInner => 3
  | .upgrading => 2
  | .storing => 1
  | .stored | .refused | .upgradeFailed => 0

/-- The steps an acceptor task has still to take. -/
def TaskPhase.rank : TaskPhase → ℕ
  | .unspawned => 9
  | .recording => 8
  | .handshaking => 7
  | .confirming => 6
  | .registering => 5
  | .failing => 5
  | .succeeded => 4
  | .failed => 4
  | .finishing _ => 3
  | .checking _ => 2
  | .panicked => 0
  | .finished _ => 0

/-- The steps the task that drives the connection has still to take. -/
def ConnPhase.rank : ConnPhase → ℕ
  | .unspawned => 4
  | .running => 3
  | .ended => 2
  | .cleaning => 1
  | .finished => 0

def PeerConn.rank (p : PeerConn) : ℕ := p.request.rank + p.task.rank + p.conn.rank

/-- A step of a task of a connection there is. -/
def AcceptorAction.ofTask : AcceptorAction → Prop
  | .dial _ _ => False
  | _ => True

namespace PeerAcceptors

variable {ops : HttpOps} {s s' : PeerAcceptors} {a : AcceptorAction} {c : ConnId} {p : PeerConn} {n : ℕ}

/-- What is left to do for connection `c`. -/
def rankOf (s : PeerAcceptors) (c : ConnId) : ℕ := ((s.conns.get? c).map PeerConn.rank).getD 0

/-- What is left to do for the connections below `n`. -/
def rank (n : ℕ) (s : PeerAcceptors) : ℕ := ∑ c ∈ Finset.range n, s.rankOf c

/-- A guard that is held is held by a task at the one await under it. -/
structure Guarded (s : PeerAcceptors) : Prop where
  inner : ∀ c, s.innerGuard = some c → ∃ p b, s.conns.get? c = some p ∧ p.task = .checking b
  senders : ∀ c, s.sendersGuard = some c → ∃ p, s.conns.get? c = some p ∧ p.conn = .cleaning

/-! ### The holders of the guards -/

/-- The record of another connection, or of the one that steps with its task left alone. -/
theorem guarded_of_setConn {t : PeerAcceptors} {q : PeerConn} (h : s.Guarded)
    (hp : s.conns.get? c = some p) (hconns : t.conns = s.conns.insert c q)
    (hinner : ∀ d, t.innerGuard = some d → d = c ∧ (∃ b, q.task = .checking b) ∨
      d ≠ c ∧ s.innerGuard = some d ∨ s.innerGuard = some d ∧ q.task = p.task)
    (hsenders : ∀ d, t.sendersGuard = some d → d = c ∧ q.conn = .cleaning ∨
      d ≠ c ∧ s.sendersGuard = some d ∨ s.sendersGuard = some d ∧ q.conn = p.conn) :
    t.Guarded := by
  constructor
  · -- each guard is held by the connection that moved, or by another one as before
    intro d hd
    rw [hconns]
    rcases hinner d hd with ⟨rfl, b, hb⟩ | ⟨hne, hheld⟩ | ⟨hheld, hsame⟩
    · exact ⟨q, b, Table.get?_insert_self .., hb⟩
    · obtain ⟨p', b, hp', hb⟩ := h.inner d hheld
      exact ⟨p', b, (Table.get?_insert_ne hne).trans hp', hb⟩
    · obtain ⟨p', b, hp', hb⟩ := h.inner d hheld
      by_cases hdc : d = c
      · subst hdc
        obtain rfl : p = p' := Option.some.inj (hp.symm.trans hp')
        exact ⟨q, b, Table.get?_insert_self .., hsame.trans hb⟩
      · exact ⟨p', b, (Table.get?_insert_ne hdc).trans hp', hb⟩
  · intro d hd
    rw [hconns]
    rcases hsenders d hd with ⟨rfl, hclean⟩ | ⟨hne, hheld⟩ | ⟨hheld, hsame⟩
    · exact ⟨q, Table.get?_insert_self .., hclean⟩
    · obtain ⟨p', hp', hclean⟩ := h.senders d hheld
      exact ⟨p', (Table.get?_insert_ne hne).trans hp', hclean⟩
    · obtain ⟨p', hp', hclean⟩ := h.senders d hheld
      by_cases hdc : d = c
      · subst hdc
        obtain rfl : p = p' := Option.some.inj (hp.symm.trans hp')
        exact ⟨q, Table.get?_insert_self .., hsame.trans hclean⟩
      · exact ⟨p', (Table.get?_insert_ne hdc).trans hp', hclean⟩

/-- A task that does not hold the guard of `inner` leaves its holder alone. -/
theorem Guarded.not_checking (h : s.Guarded) (hp : s.conns.get? c = some p)
    (hphase : ∀ b, p.task ≠ .checking b) {d : ConnId} (hd : s.innerGuard = some d) : d ≠ c := by
  rintro rfl
  obtain ⟨p', b, hp', hb⟩ := h.inner d hd
  obtain rfl : p = p' := Option.some.inj (hp.symm.trans hp')
  exact hphase b hb

theorem Guarded.not_cleaning (h : s.Guarded) (hp : s.conns.get? c = some p)
    (hphase : p.conn ≠ .cleaning) {d : ConnId} (hd : s.sendersGuard = some d) : d ≠ c := by
  rintro rfl
  obtain ⟨p', hp', hclean⟩ := h.senders d hd
  obtain rfl : p = p' := Option.some.inj (hp.symm.trans hp')
  exact hphase hclean

/-- Every step keeps each guard with the connection that holds it. -/
theorem guarded_step (hS : Sound s) (h : s.Guarded) (e : Effect ops s a s') : s'.Guarded := by
  cases e with
  | dialed c admitted hnew =>
    -- the new connection holds nothing
    constructor
    · intro d hd
      obtain ⟨p', b, hp', hb⟩ := h.inner d hd
      exact ⟨p', b, Table.get?_insert_of_none hnew hp', hb⟩
    · intro d hd
      obtain ⟨p', hp', hclean⟩ := h.senders d hd
      exact ⟨p', Table.get?_insert_of_none hnew hp', hclean⟩
  | refusedOrWaits c ok p q hp =>
    exact guarded_of_setConn h hp rfl (fun d hd => .inr (.inr ⟨hd, rfl⟩))
      fun d hd => .inr (.inr ⟨hd, rfl⟩)
  | stored c ok p hp =>
    exact guarded_of_setConn h hp rfl (fun d hd => .inr (.inr ⟨hd, rfl⟩))
      fun d hd => .inr (.inr ⟨hd, rfl⟩)
  | spawned c ok p hp hphase =>
    have hunspawned : p.task = .unspawned := (hS c p hp).spawned.mpr (by simp [hphase])
    exact guarded_of_setConn h hp rfl
      (fun d hd => .inr (.inl ⟨h.not_checking hp (by simp [hunspawned]) hd, hd⟩))
      fun d hd => .inr (.inr ⟨hd, rfl⟩)
  | recorded c ok p hp hphase | confirmed c ok p hp hphase | unrecorded c ok p hp hphase =>
    exact guarded_of_setConn h hp rfl
      (fun d hd => .inr (.inl ⟨h.not_checking hp (by simp [hphase]) hd, hd⟩))
      fun d hd => .inr (.inr ⟨hd, rfl⟩)
  | gaveUp c ok p hp hphase =>
    refine guarded_of_setConn h hp rfl
      (fun d hd => .inr (.inl ⟨h.not_checking hp ?_ hd, hd⟩)) fun d hd => .inr (.inr ⟨hd, rfl⟩)
    rcases hphase with hphase | hphase <;> simp [hphase]
  | registered c ok p hp hphase =>
    exact guarded_of_setConn h hp rfl
      (fun d hd => .inr (.inl ⟨h.not_checking hp (by simp [hphase]) hd, hd⟩))
      fun d hd => .inr (.inr ⟨hd, rfl⟩)
  | reported c ok p hp b hphase =>
    refine guarded_of_setConn h hp rfl
      (fun d hd => .inr (.inl ⟨h.not_checking hp ?_ hd, hd⟩)) fun d hd => .inr (.inr ⟨hd, rfl⟩)
    cases b <;> simp [hphase]
  | shookHands c ok p hp hphase | panicked c ok p hp hphase =>
    have hunspawned : p.conn = .unspawned := (hS c p hp).undriven (.inr (.inr hphase))
    exact guarded_of_setConn h hp rfl
      (fun d hd => .inr (.inl ⟨h.not_checking hp (by simp [hphase]) hd, hd⟩))
      fun d hd => .inr (.inl ⟨h.not_cleaning hp (by simp [hunspawned]) hd, hd⟩)
  | unstored c ok p hp b hphase hguard =>
    refine guarded_of_setConn h hp rfl (fun d hd => .inl ⟨?_, b, rfl⟩)
      fun d hd => .inr (.inr ⟨hd, rfl⟩)
    exact (Option.some.inj hd).symm
  | left c ok p hp b hphase hguard written =>
    exact guarded_of_setConn h hp rfl (fun d hd => by cases hd)
      fun d hd => .inr (.inr ⟨hd, rfl⟩)
  | hungUp c p hp hphase =>
    exact guarded_of_setConn h hp rfl (fun d hd => .inr (.inr ⟨hd, rfl⟩))
      fun d hd => .inr (.inl ⟨h.not_cleaning hp (by simp [hphase]) hd, hd⟩)
  | unregistered c p hp hphase hguard =>
    refine guarded_of_setConn h hp rfl (fun d hd => .inr (.inr ⟨hd, rfl⟩))
      fun d hd => .inl ⟨?_, rfl⟩
    exact (Option.some.inj hd).symm
  | cleaned c p hp hphase =>
    exact guarded_of_setConn h hp rfl (fun d hd => .inr (.inr ⟨hd, rfl⟩)) fun d hd => by cases hd

/-! ### Every step of a task is a step towards its end -/

theorem rankOf_eq (hp : s.conns.get? c = some p) : s.rankOf c = p.rank := by
  simp [rankOf, hp]

theorem rank_peersUpgrade {ok : Bool} (hS : s.WellPhased c p)
    (hs : s.peersUpgrade c p ok = some s') :
    ∃ q : PeerConn, s'.conns = s.conns.insert c q ∧ q.rank < p.rank := by
  unfold peersUpgrade at hs
  split at hs
  case h_1 hphase =>
    obtain ⟨-, rfl⟩ := withSenders_eq_some.mp hs
    refine ⟨_, rfl, ?_⟩
    split <;> simp [PeerConn.rank, RequestPhase.rank, hphase]
  case h_2 hphase =>
    obtain ⟨-, rfl⟩ := withInner_eq_some.mp hs
    refine ⟨_, rfl, ?_⟩
    split <;> simp [PeerConn.rank, RequestPhase.rank, hphase]
  case h_3 hphase =>
    -- the task is spawned here, and was counted before
    have hunspawned : p.task = .unspawned := hS.spawned.mpr (by simp [hphase])
    obtain rfl := Option.some.inj hs
    refine ⟨_, rfl, ?_⟩
    split <;> simp [PeerConn.rank, RequestPhase.rank, TaskPhase.rank, hphase, hunspawned]
  case h_4 hphase =>
    obtain ⟨-, rfl⟩ := withInner_eq_some.mp hs
    exact ⟨_, rfl, by simp [PeerConn.rank, RequestPhase.rank, hphase]⟩
  all_goals cases hs

theorem rank_acceptorTask {ok : Bool} (hS : s.WellPhased c p)
    (hs : s.acceptorTask ops c p ok = some s') :
    ∃ q : PeerConn, s'.conns = s.conns.insert c q ∧ q.rank < p.rank := by
  -- one case for each phase; a phase that is over has no step
  unfold acceptorTask at hs
  split at hs
  case h_1 | h_2 | h_3 => cases hs
  case h_5 hphase =>
    -- a task at its confirmation has spawned no connection yet
    have hunspawned : p.conn = .unspawned := hS.undriven (.inr (.inr hphase))
    obtain rfl := Option.some.inj hs
    refine ⟨_, rfl, ?_⟩
    split
    · split <;> simp [PeerConn.rank, TaskPhase.rank, ConnPhase.rank, hphase, hunspawned]
    · simp [PeerConn.rank, TaskPhase.rank, hphase, hunspawned]
  case h_6 hphase =>
    obtain rfl := Option.some.inj hs
    refine ⟨_, rfl, ?_⟩
    split <;> simp [PeerConn.rank, TaskPhase.rank, hphase]
  case h_7 hphase =>
    obtain ⟨-, rfl⟩ := withSenders_eq_some.mp hs
    exact ⟨_, rfl, by simp [PeerConn.rank, TaskPhase.rank, hphase]⟩
  case h_11 b hphase =>
    obtain ⟨-, rfl⟩ := withInner_eq_some.mp hs
    exact ⟨_, rfl, by simp [PeerConn.rank, TaskPhase.rank, hphase]⟩
  case h_12 b hphase =>
    obtain ⟨-, rfl⟩ := withSenders_eq_some.mp hs
    refine ⟨{ p with task := .finished b }, ?_, by simp [PeerConn.rank, TaskPhase.rank, hphase]⟩
    split <;> rfl
  all_goals
    rename_i hphase
    obtain rfl := Option.some.inj hs
    exact ⟨_, rfl, by simp [PeerConn.rank, TaskPhase.rank, hphase]⟩

theorem rank_connTask (hs : s.connTask c p = some s') :
    ∃ q : PeerConn, s'.conns = s.conns.insert c q ∧ q.rank < p.rank := by
  unfold connTask at hs
  split at hs
  case h_1 => cases hs
  case h_2 => cases hs
  case h_3 hphase =>
    obtain rfl := Option.some.inj hs
    exact ⟨_, rfl, by simp [PeerConn.rank, ConnPhase.rank, hphase]⟩
  case h_4 hphase =>
    obtain ⟨-, rfl⟩ := withSenders_eq_some.mp hs
    exact ⟨_, rfl, by simp [PeerConn.rank, ConnPhase.rank, hphase]⟩
  case h_5 hphase =>
    obtain rfl := Option.some.inj hs
    exact ⟨_, rfl, by simp [PeerConn.rank, ConnPhase.rank, hphase]⟩

/-- A step of a task moves the record of its connection on, and no other. -/
theorem rank_step (hS : Sound s) (ha : a.ofTask) (hs : s.step ops a = some s') :
    ∃ c p q, s.conns.get? c = some p ∧ s'.conns = s.conns.insert c q ∧ q.rank < p.rank := by
  cases a with
  | dial c admitted => cases ha
  | request c ok =>
    obtain ⟨p, hp, hs⟩ := Option.bind_eq_some_iff.mp hs
    obtain ⟨q, hq, hlt⟩ := rank_peersUpgrade (hS c p hp) hs
    exact ⟨c, p, q, hp, hq, hlt⟩
  | task c ok =>
    obtain ⟨p, hp, hs⟩ := Option.bind_eq_some_iff.mp hs
    obtain ⟨q, hq, hlt⟩ := rank_acceptorTask (hS c p hp) hs
    exact ⟨c, p, q, hp, hq, hlt⟩
  | conn c =>
    obtain ⟨p, hp, hs⟩ := Option.bind_eq_some_iff.mp hs
    obtain ⟨q, hq, hlt⟩ := rank_connTask hs
    exact ⟨c, p, q, hp, hq, hlt⟩

/-- What holds of every reachable state with connections below `n` only. -/
structure Tended (n : ℕ) (s : PeerAcceptors) : Prop where
  sound : Sound s
  guarded : s.Guarded
  below : ∀ c, n ≤ c → s.conns.get? c = none

theorem Tended.step (h : s.Tended n) (ha : a.ofTask) (hs : s.step ops a = some s') : s'.Tended n := by
  have heff := effect_of_step hs
  obtain ⟨c, p, q, hp, hconns, -⟩ := rank_step h.sound ha hs
  refine ⟨sound_step h.sound heff, guarded_step h.sound h.guarded heff, fun d hd => ?_⟩
  have hne : d ≠ c := by
    rintro rfl
    rw [h.below d hd] at hp
    cases hp
  rw [hconns, Table.get?_insert_ne hne]
  exact h.below d hd

/-- Every step of a task lowers the rank of the whole. -/
theorem ranks_ofTask (ops : HttpOps) (n : ℕ) :
    (machine ops).Ranks AcceptorAction.ofTask (Tended n) (rank n) where
  keeps _ _ _ h ha hs := h.step ha hs
  lowers s a s' h ha hs := by
    obtain ⟨c, p, q, hp, hconns, hlt⟩ := rank_step h.sound ha hs
    have hc : (c : ℕ) < n := by
      apply Nat.lt_of_not_le
      intro hge
      rw [h.below c hge] at hp
      cases hp
    have hself : s'.rankOf c < s.rankOf c := by
      rw [rankOf_eq hp]
      unfold rankOf
      rw [hconns, Table.get?_insert_self]
      exact hlt
    apply sum_range_lt hc hself
    intro d hd
    unfold rankOf
    rw [hconns, Table.get?_insert_ne hd]

/-- Finitely many connections were made, and the guards are where their tasks are. -/
theorem tended_of_reachable (h : (machine ops).Reachable s) : ∃ n, s.Tended n := by
  refine h.inv (I := fun s => ∃ n, s.Tended n) ?_ ?_
  · refine ⟨0, sound_init ops, ⟨?_, ?_⟩, fun _ _ => rfl⟩
    · intro c hc
      cases hc
    · intro c hc
      cases hc
  · rintro s a t ⟨n, hn⟩ hs
    have heff := effect_of_step hs
    refine ⟨max n (Nat.succ a.actor), sound_step hn.sound heff,
      guarded_step hn.sound hn.guarded heff, fun d hd => ?_⟩
    -- the connection that steps is below the new bound
    have hne : d ≠ a.actor := Nat.ne_of_gt ((Nat.le_max_right _ _).trans hd)
    rw [heff.conns_of_ne hne]
    exact hn.below d ((Nat.le_max_left _ _).trans hd)

/-! ### When no task can step -/

/-- A step of a task, where an open connection stays open. -/
def AtWork (s : PeerAcceptors) : AcceptorAction → Prop
  | .dial _ _ => False
  | .conn c => ∀ p, s.conns.get? c = some p → p.conn ≠ .running
  | _ => True

/-- No task can step, unless an open connection ends. -/
def Settled (ops : HttpOps) (s : PeerAcceptors) : Prop := ∀ a, s.AtWork a → s.step ops a = none

/-- The holder of `senders` waits for nothing. -/
theorem Settled.sendersGuard (h : s.Settled ops) (hg : s.Guarded) : s.sendersGuard = none := by
  cases hheld : s.sendersGuard with
  | none => rfl
  | some c =>
    obtain ⟨p, hp, hclean⟩ := hg.senders c hheld
    have hwork : s.AtWork (.conn c) := by
      intro p' hp'
      obtain rfl : p = p' := Option.some.inj (hp.symm.trans hp')
      simp [hclean]
    have hnone := h (.conn c) hwork
    simp [step, hp, connTask, hclean] at hnone

/-- The holder of `inner` waits for `senders` only. -/
theorem Settled.innerGuard (h : s.Settled ops) (hg : s.Guarded) : s.innerGuard = none := by
  cases hheld : s.innerGuard with
  | none => rfl
  | some c =>
    obtain ⟨p, b, hp, hcheck⟩ := hg.inner c hheld
    have hnone := h (.task c true) trivial
    simp [step, hp, acceptorTask, hcheck, withSenders, h.sendersGuard hg] at hnone

/-- Where the tasks of a connection stand when none of them can step. -/
structure Over (p : PeerConn) : Prop where
  request : p.request = .stored ∨ p.request = .refused ∨ p.request = .upgradeFailed
  task : p.task = .unspawned ∨ p.task = .panicked ∨ ∃ b, p.task = .finished b
  conn : p.conn = .unspawned ∨ p.conn = .running ∨ p.conn = .finished

/-- In a settled state every connection is over. -/
theorem Settled.over (h : s.Settled ops) (hg : s.Guarded) (hp : s.conns.get? c = some p) : Over p := by
  have hsenders := h.sendersGuard hg
  -- both locks are free, so no request and no task waits for one
  have hinner := h.innerGuard hg
  have hrequest := h (.request c true) trivial
  simp only [step, hp, Option.bind_some, peersUpgrade, withSenders, withInner, hsenders, hinner,
    if_true] at hrequest
  have htask := h (.task c true) trivial
  simp only [step, hp, Option.bind_some, acceptorTask, withSenders, withInner, hsenders, hinner,
    if_true] at htask
  refine ⟨?_, ?_, ?_⟩
  · cases hr : p.request with
    | stored => exact .inl rfl
    | refused => exact .inr (.inl rfl)
    | upgradeFailed => exact .inr (.inr rfl)
    | checkSenders | checkInner | upgrading | storing => simp [hr] at hrequest
  · cases ht : p.task with
    | unspawned => exact .inl rfl
    | panicked => exact .inr (.inl rfl)
    | finished b => exact .inr (.inr ⟨b, rfl⟩)
    | _ => simp [ht] at htask
  · -- a connection that runs may stay; any other phase has a step
    by_cases hrun : p.conn = .running
    · exact .inr (.inl hrun)
    · have hwork : s.AtWork (.conn c) := by
        intro p' hp'
        obtain rfl : p = p' := Option.some.inj (hp.symm.trans hp')
        exact hrun
      have hconn := h (.conn c) hwork
      simp only [step, hp, Option.bind_some, connTask, withSenders, hsenders, if_true] at hconn
      cases hc : p.conn with
      | unspawned => exact .inl rfl
      | running => exact absurd hc hrun
      | finished => exact .inr (.inr rfl)
      | ended | cleaning => simp [hc] at hconn

/-- **The acceptors never deadlock.**  From every reachable state, with any number of connections in
any phase, a schedule of steps of their tasks is bounded, and it can be completed until no task can
step.  In every state in which none can, unless an open connection ends, both guards are free, and
each connection's request handler and acceptor task have come to their ends: the request was stored,
refused or failed to upgrade, the task never ran, has panicked or has finished, and the connection
was never driven, is open, or has been cleaned up after. -/
theorem acceptor_tasks_finish (h : (machine ops).Reachable s) :
    ∃ bound, ∀ (as : List AcceptorAction) (s' : PeerAcceptors), (∀ a ∈ as, a.ofTask) →
      (machine ops).run s as = some s' →
      as.length ≤ bound ∧
        (∃ bs t, (∀ b ∈ bs, b.ofTask) ∧ (machine ops).run s' bs = some t ∧ t.Settled ops) ∧
        (s'.Settled ops → s'.innerGuard = none ∧ s'.sendersGuard = none ∧
          ∀ c p, s'.conns.get? c = some p → Over p) := by
  obtain ⟨n, hn⟩ := tended_of_reachable h
  refine ⟨rank n s, fun as s' has hr => ?_⟩
  obtain ⟨hlen, hs', bs, t, hbs, hrun, -, hrest⟩ := (ranks_ofTask ops n).settles hn has hr
  refine ⟨hlen, ⟨bs, t, hbs, hrun, fun a ha => hrest a ?_⟩, fun hsettled => ?_⟩
  · -- what a settled state rules out is among what a state at rest rules out
    cases a with
    | dial c admitted => cases ha
    | _ => exact trivial
  · exact ⟨hsettled.innerGuard hs'.guarded, hsettled.sendersGuard hs'.guarded,
      fun c p hp => hsettled.over hs'.guarded hp⟩

/-- Both guards are held: the acceptor task waits for `senders` with `inner` locked, while the
cleanup of the connection is between its two removals. -/
def bothGuardsHeld : List AcceptorAction :=
  [.dial 0 (.unauthenticated "hub" 0 .empty), .request 0 true, .request 0 true, .request 0 true,
    .task 0 true, .task 0 true, .task 0 true, .task 0 true, .task 0 true, .request 0 true, .conn 0,
    .conn 0, .task 0 true]

/-- Two connections that hold one guard each: the first can go on once the other has. -/
theorem acceptor_tasks_finish_bothGuardsHeld : ∃ s s',
    (machine lenientOps).run (machine lenientOps).init bothGuardsHeld = some s ∧
    s.innerGuard = some 0 ∧ s.sendersGuard = some 0 ∧ s.step lenientOps (.task 0 true) = none ∧
      (machine lenientOps).run s [.conn 0, .task 0 true] = some s' ∧
      (s'.Settled lenientOps → s'.innerGuard = none ∧ s'.sendersGuard = none) := by
  have hrun : ∃ s s', (machine lenientOps).run (machine lenientOps).init bothGuardsHeld = some s ∧
      s.innerGuard = some 0 ∧ s.sendersGuard = some 0 ∧ s.step lenientOps (.task 0 true) = none ∧
      (machine lenientOps).run s [.conn 0, .task 0 true] = some s' := ⟨_, _, rfl, rfl, rfl, rfl, rfl⟩
  obtain ⟨s, s', hs, hinner, hsenders, hwaits, hs'⟩ := hrun
  obtain ⟨bound, hbound⟩ := acceptor_tasks_finish ⟨bothGuardsHeld, hs⟩
  have hown : ∀ a ∈ [AcceptorAction.conn 0, .task 0 true], a.ofTask := by
    intro a ha
    simp only [List.mem_cons, List.not_mem_nil, or_false] at ha
    rcases ha with rfl | rfl <;> exact trivial
  obtain ⟨-, -, hover⟩ := hbound _ s' hown hs'
  exact ⟨s, s', hs, hinner, hsenders, hwaits, hs',
    fun hsettled => ⟨(hover hsettled).1, (hover hsettled).2.1⟩⟩

end PeerAcceptors

end Boardwalk
