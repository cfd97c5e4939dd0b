import Boardwalk.Peer.Spec.Step

/-!
# The persisted status of a peer

The acceptor task writes the status of its connection when it reports the outcome of the drive, and
once more at its end if the sender is gone by then.  The cleanup of the connection, which takes the
sender out, writes nothing.  So the status follows the tunnel in a run exactly when no step takes
the last sender of a route whose status is connected out while no acceptor task runs there, and
connections of one route do not report over each other (`statusFollows_iff_keepsStatus`).
-/

namespace Boardwalk

/-- The task runs. -/
def TaskPhase.isRunning : TaskPhase → Bool
  | .unspawned | .panicked | .finished _ => false
  | _ => true

def TaskPhase.isFinished : TaskPhase → Bool
  | .finished _ => true
  | _ => false

theorem TaskPhase.isFinished_eq_false {t : TaskPhase} (h : t.isRunning = true) :
    t.isFinished = false := by
  cases t <;> first | rfl | cases h

namespace PeerAcceptors

variable {ops : HttpOps} {s s' : PeerAcceptors} {a : AcceptorAction}

/-! ### What a step writes -/

/-- The record that a step writes. -/
def writes (s : PeerAcceptors) : AcceptorAction → Option (ConnId × PeerConnectionStatus)
  | .task c _ => (s.conns.get? c).bind fun p =>
    match p.task with
    | .succeeded => some (c, .connected)
    | .failed => some (c, .failed)
    | .checking driveSucceeded =>
      if shouldRecordDisconnected driveSucceeded (s.senders.containsKey p.route) then
        some (c, .disconnected)
      else none
    | _ => none
  | _ => none

/-- The upgrade handler writes no status. -/
theorem written_peersUpgrade {c : ConnId} {p : PeerConn} {ok : Bool}
    (hs : s.peersUpgrade c p ok = some s') : s'.written = s.written := by
  unfold peersUpgrade at hs
  split at hs
  case h_3 =>
    obtain rfl := Option.some.inj hs
    rfl
  case h_1 =>
    obtain ⟨-, rfl⟩ := withSenders_eq_some.mp hs
    rfl
  case h_2 | h_4 =>
    obtain ⟨-, rfl⟩ := withInner_eq_some.mp hs
    rfl
  all_goals cases hs

theorem written_connTask {c : ConnId} {p : PeerConn} (hs : s.connTask c p = some s') :
    s'.written = s.written := by
  unfold connTask at hs
  split at hs
  case h_4 =>
    obtain ⟨-, rfl⟩ := withSenders_eq_some.mp hs
    rfl
  case h_3 | h_5 =>
    obtain rfl := Option.some.inj hs
    rfl
  all_goals cases hs

/-- An acceptor task writes the status that is due at its step. -/
theorem written_acceptorTask {c : ConnId} {p : PeerConn} {ok : Bool}
    (hp : s.conns.get? c = some p) (hs : s.acceptorTask ops c p ok = some s') :
    s'.written = s.written ++ (s.writes (.task c ok)).toList := by
  unfold acceptorTask at hs
  cases hphase : p.task <;> simp only [hphase] at hs <;> simp only [writes, hp, hphase,
    Option.bind_some, Option.toList_none, Option.toList_some, List.append_nil]
  case unspawned | panicked | finished => cases hs
  case registering =>
    obtain ⟨-, rfl⟩ := withSenders_eq_some.mp hs
    rfl
  case finishing =>
    obtain ⟨-, rfl⟩ := withInner_eq_some.mp hs
    rfl
  case checking driveSucceeded =>
    obtain ⟨-, rfl⟩ := withSenders_eq_some.mp hs
    split <;> simp [setConn, writePeer]
  all_goals
    obtain rfl := Option.some.inj hs
    rfl

/-- Every action writes the status that is due at its step. -/
theorem written_step (hs : s.step ops a = some s') :
    s'.written = s.written ++ (s.writes a).toList := by
  cases a with
  | dial c admitted =>
    simp only [step] at hs
    split at hs
    · obtain rfl := Option.some.inj hs
      simp [writes, setConn]
    · cases hs
  | request c ok =>
    obtain ⟨p, -, hs⟩ := Option.bind_eq_some_iff.mp hs
    simp [written_peersUpgrade hs, writes]
  | task c ok =>
    obtain ⟨p, hp, hs⟩ := Option.bind_eq_some_iff.mp hs
    exact written_acceptorTask hp hs
  | conn c =>
    obtain ⟨p, -, hs⟩ := Option.bind_eq_some_iff.mp hs
    simp [written_connTask hs, writes]

/-! ### The latest record -/

/-- Records are written for dialed connections, and senders are registered under the route of their
connection. -/
structure Recorded (s : PeerAcceptors) : Prop where
  written : ∀ e ∈ s.written, ∃ p, s.conns.get? e.1 = some p
  senders : Table.Backed PeerConn.route (fun _ => True) s.conns s.senders

theorem writes_eq_some {c : ConnId} {status : PeerConnectionStatus}
    (hw : s.writes a = some (c, status)) : ∃ p, s.conns.get? c = some p := by
  cases a with
  | task c' ok =>
    obtain ⟨p, hp, hw⟩ := Option.bind_eq_some_iff.mp hw
    have hc : c = c' := by
      split at hw <;> grind
    exact ⟨p, hc ▸ hp⟩
  | _ => cases hw

/-- Every step keeps the record of what has been written. -/
theorem Recorded.step (h : Recorded s) (hs : s.step ops a = some s') : Recorded s' := by
  constructor
  · intro e he
    have hold : ∃ p, s.conns.get? e.1 = some p := by
      rw [written_step hs] at he
      rcases List.mem_append.mp he with he | he
      · exact h.written e he
      · exact writes_eq_some (Option.mem_toList.mp he)
    obtain ⟨p, hp⟩ := hold
    obtain ⟨p', hp', -⟩ := Admitted.step ⟨p, hp, rfl⟩ hs
    exact ⟨p', hp'⟩
  · have hsenders := h.senders
    cases effect_of_step hs with
    | dialed c admitted hnew => exact hsenders.new hnew
    | registered c ok p hp hphase => exact hsenders.insert hp rfl trivial
    | unregistered c p hp hphase => exact hsenders.remove hp
    | refusedOrWaits c ok p q hp | spawned c ok p hp | stored c ok p hp | recorded c ok p hp
    | shookHands c ok p hp | panicked c ok p hp | confirmed c ok p hp | gaveUp c ok p hp
    | reported c ok p hp | unrecorded c ok p hp | unstored c ok p hp | left c ok p hp | hungUp c p hp
    | cleaned c p hp => exact hsenders.update hp rfl id

theorem routeRecord_eq {c : ConnId} {p : PeerConn} (hp : s.conns.get? c = some p) (r : String)
    (status : PeerConnectionStatus) : s.routeRecord r (c, status) =
      if p.route = r then some (p.admitted.connectionId, status) else none := by
  rw [routeRecord, hp, Option.bind_some]

/-- A record says the same after a step. -/
theorem routeRecord_step {c : ConnId} {p : PeerConn} (hp : s.conns.get? c = some p)
    (hs : s.step ops a = some s') (r : String) (status : PeerConnectionStatus) :
    s'.routeRecord r (c, status) = s.routeRecord r (c, status) := by
  obtain ⟨p', hp', hsame⟩ := Admitted.step ⟨p, hp, rfl⟩ hs
  rw [routeRecord_eq hp, routeRecord_eq hp', PeerConn.route, PeerConn.route, hsame]

theorem filterMap_written (h : Recorded s) (hs : s.step ops a = some s') (r : String) :
    s.written.filterMap (s'.routeRecord r) = s.written.filterMap (s.routeRecord r) := by
  refine List.filterMap_congr fun e he => ?_
  obtain ⟨p, hp⟩ := h.written e he
  exact routeRecord_step hp hs r e.2

/-- A step that writes nothing leaves the latest records. -/
theorem latestByRoute_of_quiet (h : Recorded s) (hs : s.step ops a = some s')
    (hw : s.writes a = none) (r : String) : s'.latestByRoute r = s.latestByRoute r := by
  unfold latestByRoute
  rw [written_step hs, hw, Option.toList_none, List.append_nil, filterMap_written h hs]

/-- A step that writes a record makes it the latest of its route. -/
theorem latestByRoute_of_writes (h : Recorded s) (hs : s.step ops a = some s') {c : ConnId}
    {p : PeerConn} {status : PeerConnectionStatus} (hw : s.writes a = some (c, status))
    (hp : s.conns.get? c = some p) (r : String) :
    s'.latestByRoute r =
      if p.route = r then some (p.admitted.connectionId, status) else s.latestByRoute r := by
  unfold latestByRoute
  rw [written_step hs, hw, Option.toList_some, List.filterMap_append, filterMap_written h hs,
    List.filterMap_cons, routeRecord_step hp hs, routeRecord_eq hp]
  by_cases hr : p.route = r <;> simp [hr]

/-! ### Acceptor tasks that run -/

/-- An acceptor task runs for the route. -/
def AcceptorRuns (s : PeerAcceptors) (r : String) : Prop :=
  ∃ c p, s.conns.get? c = some p ∧ p.route = r ∧ p.task.isRunning = true

/-- One of another connection does. -/
def OtherRuns (s : PeerAcceptors) (r : String) (c : ConnId) : Prop :=
  ∃ d p, d ≠ c ∧ s.conns.get? d = some p ∧ p.route = r ∧ p.task.isRunning = true

theorem acceptorRuns_iff {c : ConnId} {p : PeerConn} (hp : s.conns.get? c = some p) {r : String} :
    s.AcceptorRuns r ↔ (p.route = r ∧ p.task.isRunning = true) ∨ s.OtherRuns r c := by
  constructor
  · rintro ⟨d, q, hq, hroute, hrun⟩
    rcases eq_or_ne d c with rfl | hne
    · obtain rfl := Option.some.inj (hp.symm.trans hq)
      exact .inl ⟨hroute, hrun⟩
    · exact .inr ⟨d, q, hne, hq, hroute, hrun⟩
  · rintro (⟨hroute, hrun⟩ | ⟨d, q, -, hq, hroute, hrun⟩)
    · exact ⟨c, p, hp, hroute, hrun⟩
    · exact ⟨d, q, hq, hroute, hrun⟩

theorem otherRuns_congr {c : ConnId} (hne : ∀ d, d ≠ c → s'.conns.get? d = s.conns.get? d)
    (r : String) : s'.OtherRuns r c ↔ s.OtherRuns r c := by
  constructor
  · rintro ⟨d, q, hd, hq, hrest⟩
    exact ⟨d, q, hd, (hne d hd).symm.trans hq, hrest⟩
  · rintro ⟨d, q, hd, hq, hrest⟩
    exact ⟨d, q, hd, (hne d hd).trans hq, hrest⟩

/-! ### The status and the tunnel -/

/-- The latest record of the route says `Connected`. -/
def Connected (s : PeerAcceptors) (r : String) : Prop :=
  ∃ id, s.latestByRoute r = some (id, .connected)

/-- The status of a route without an acceptor task and without a sender is not `Connected`, and a
sender whose task has finished has the record of its connection. -/
structure StatusFollows (s : PeerAcceptors) : Prop where
  down : ∀ r, ¬ s.AcceptorRuns r → s.senders.get? r = none → ¬ s.Connected r
  up : ∀ r c p, s.senders.get? r = some c → s.conns.get? c = some p → p.task.isFinished = true →
    s.latestByRoute r = some (p.admitted.connectionId, .connected)

/-- A sender is taken out while an acceptor task of the route runs or the status is not
`Connected`; the outcome of a drive is reported while no other connection has a sender on the route
and a finished task, unless it is `Connected` and has that one's id; a task ends with its own record as
the latest if it has a sender, and, after a failure, with one that is not `Connected` if the route
has no sender and no other task; and so does a task that panics. -/
def KeepsStatus (ops : HttpOps) (s : PeerAcceptors) : AcceptorAction → Prop
  | .conn c => ∀ p ∈ s.conns.get? c, p.conn = .ended → s.AcceptorRuns p.route ∨ ¬ s.Connected p.route
  | .task c ok => ∀ p ∈ s.conns.get? c,
    (p.task = .succeeded ∨ p.task = .failed →
      ∀ d ∈ s.senders.get? p.route, ∀ q ∈ s.conns.get? d, q.task.isFinished = true →
        p.task = .succeeded ∧ p.admitted.connectionId = q.admitted.connectionId) ∧
    (∀ driveSucceeded, p.task = .checking driveSucceeded →
      (s.senders.get? p.route = some c →
        s.latestByRoute p.route = some (p.admitted.connectionId, .connected)) ∧
      (s.senders.get? p.route = none →
        driveSucceeded = true ∨ s.OtherRuns p.route c ∨ ¬ s.Connected p.route)) ∧
    (p.task = .handshaking → ok = true → p.confirmation ops = none →
      s.senders.get? p.route = none → s.OtherRuns p.route c ∨ ¬ s.Connected p.route)
  | _ => True

/-- A step that neither writes nor takes a sender out, and after which the task of its connection
runs or has not started if it was so before. -/
theorem statusFollows_of_quiet (h : Recorded s) (hP : StatusFollows s) (hs : s.step ops a = some s')
    (hw : s.writes a = none) {c : ConnId} {p p' : PeerConn} (hp : s.conns.get? c = some p)
    (hconns : s'.conns = s.conns.insert c p') (hroute : p'.admitted = p.admitted)
    (hrun : p.task.isRunning = true → p'.task.isRunning = true)
    (hfinished : p'.task.isFinished = true → p.task.isFinished = true)
    (hsenders : s'.senders = s.senders ∨
      s'.senders = s.senders.insert p.route c ∧ p'.task.isFinished = false) :
    StatusFollows s' := by
  have hp' : s'.conns.get? c = some p' := by rw [hconns, Table.get?_insert_self]
  have hne (d : ConnId) (hd : d ≠ c) : s'.conns.get? d = s.conns.get? d := by
    rw [hconns, Table.get?_insert_ne hd]
  -- a sender of `s'` is the new one or was there before
  have hsender (r : String) (d : ConnId) (hd : s'.senders.get? r = some d) :
      s.senders.get? r = some d ∨ d = c ∧ p'.task.isFinished = false := by
    rcases hsenders with hsame | ⟨hinsert, hrunning⟩
    · exact .inl (hsame ▸ hd)
    · rw [hinsert] at hd
      rcases Table.get?_insert_eq_some.mp hd with ⟨-, rfl⟩ | ⟨-, hd⟩
      · exact .inr ⟨rfl, hrunning⟩
      · exact .inl hd
  constructor
  · intro r hruns hnone hconnected
    rw [Connected, latestByRoute_of_quiet h hs hw] at hconnected
    refine hP.down r (fun hold => hruns ?_) ?_ hconnected
    · rw [acceptorRuns_iff hp', otherRuns_congr hne]
      rcases (acceptorRuns_iff hp).mp hold with ⟨hr, hold⟩ | hother
      · exact .inl ⟨(congrArg (·.routeName) hroute).trans hr, hrun hold⟩
      · exact .inr hother
    · rcases hsenders with hsame | ⟨hinsert, -⟩
      · exact hsame ▸ hnone
      · rw [hinsert, Table.get?_insert] at hnone
        split at hnone
        · cases hnone
        · exact hnone
  · intro r d q hd hq hfin
    rw [latestByRoute_of_quiet h hs hw]
    rcases eq_or_ne d c with rfl | hdc
    · obtain rfl := Option.some.inj (hp'.symm.trans hq)
      rw [hroute]
      rcases hsender r d hd with hold | ⟨-, hrunning⟩
      · exact hP.up r d p hold hp (hfinished hfin)
      · rw [hrunning] at hfin
        cases hfin
    · rcases hsender r d hd with hold | ⟨rfl, -⟩
      · exact hP.up r d q hold ((hne d hdc).symm.trans hq) hfin
      · exact absurd rfl hdc

/-- **The report of an outcome.** -/
theorem statusFollows_report_iff (h : Recorded s) (hP : StatusFollows s)
    (hs : s.step ops a = some s') {c : ConnId} {p p' : PeerConn} {status : PeerConnectionStatus}
    (hw : s.writes a = some (c, status)) (hp : s.conns.get? c = some p)
    (hconns : s'.conns = s.conns.insert c p') (hroute : p'.admitted = p.admitted)
    (hold : p.task.isRunning = true) (hrun : p'.task.isRunning = true)
    (hsenders : s'.senders = s.senders) :
    StatusFollows s' ↔ ∀ d ∈ s.senders.get? p.route, ∀ q ∈ s.conns.get? d,
      q.task.isFinished = true →
        status = .connected ∧ p.admitted.connectionId = q.admitted.connectionId := by
  have hp' : s'.conns.get? c = some p' := by rw [hconns, Table.get?_insert_self]
  have hne (d : ConnId) (hd : d ≠ c) : s'.conns.get? d = s.conns.get? d := by
    rw [hconns, Table.get?_insert_ne hd]
  have hlatest (r : String) := latestByRoute_of_writes h hs hw hp r
  -- the connection itself runs before and after
  have hother (d : ConnId) (q : PeerConn) (hq : s.conns.get? d = some q)
      (hfin : q.task.isFinished = true) : d ≠ c := by
    rintro rfl
    obtain rfl := Option.some.inj (hp.symm.trans hq)
    rw [TaskPhase.isFinished_eq_false hold] at hfin
    cases hfin
  constructor
  · intro hP' d hd q hq hfin
    have hup := hP'.up p.route d q (hsenders ▸ hd) ((hne d (hother d q hq hfin)).trans hq) hfin
    rw [hlatest, if_pos rfl] at hup
    obtain ⟨hid, hstatus⟩ := Prod.mk.inj (Option.some.inj hup)
    exact ⟨hstatus, hid⟩
  · intro hG
    constructor
    · intro r hruns hnone hconnected
      rw [acceptorRuns_iff hp', otherRuns_congr hne] at hruns
      have hr : p.route ≠ r := by
        intro hr
        exact hruns (.inl ⟨(congrArg (·.routeName) hroute).trans hr, hrun⟩)
      rw [Connected, hlatest, if_neg hr] at hconnected
      refine hP.down r (fun hruns' => hruns ?_) (hsenders ▸ hnone) hconnected
      rcases (acceptorRuns_iff hp).mp hruns' with ⟨hr', -⟩ | hother
      · exact absurd hr' hr
      · exact .inr hother
    · intro r d q hd hq hfin
      rw [hsenders] at hd
      have hdc : d ≠ c := by
        rintro rfl
        obtain rfl := Option.some.inj (hp'.symm.trans hq)
        rw [TaskPhase.isFinished_eq_false hrun] at hfin
        cases hfin
      have hq' : s.conns.get? d = some q := (hne d hdc).symm.trans hq
      rw [hlatest]
      split
      · rename_i hr
        subst hr
        obtain ⟨rfl, hid⟩ := hG d hd q hq' hfin
        rw [hid]
      · exact hP.up r d q hd hq' hfin

theorem writes_of_checking {c : ConnId} {p : PeerConn} {driveSucceeded : Bool} (ok : Bool)
    (hp : s.conns.get? c = some p) (hphase : p.task = .checking driveSucceeded) :
    s.writes (.task c ok) =
      if driveSucceeded = true ∧ s.senders.get? p.route = none then some (c, .disconnected)
      else none := by
  simp [writes, hp, hphase, shouldRecordDisconnected, Table.containsKey]

/-- **The end of a task.** -/
theorem statusFollows_left_iff (h : Recorded s) (hP : StatusFollows s) {c : ConnId} {ok : Bool}
    (hs : s.step ops (.task c ok) = some s') {p p' : PeerConn} {driveSucceeded : Bool}
    (hp : s.conns.get? c = some p) (hphase : p.task = .checking driveSucceeded)
    (hconns : s'.conns = s.conns.insert c p') (hroute : p'.admitted = p.admitted)
    (hfinished : p'.task = .finished driveSucceeded) (hsenders : s'.senders = s.senders) :
    StatusFollows s' ↔
      (s.senders.get? p.route = some c →
        s.latestByRoute p.route = some (p.admitted.connectionId, .connected)) ∧
      (s.senders.get? p.route = none →
        driveSucceeded = true ∨ s.OtherRuns p.route c ∨ ¬ s.Connected p.route) := by
  have hp' : s'.conns.get? c = some p' := by rw [hconns, Table.get?_insert_self]
  have hne (d : ConnId) (hd : d ≠ c) : s'.conns.get? d = s.conns.get? d := by
    rw [hconns, Table.get?_insert_ne hd]
  have hw := writes_of_checking ok hp hphase
  -- with a sender on the route nothing is written
  have hkept (r : String) (hr : p.route = r → s.senders.get? r ≠ none) :
      s'.latestByRoute r = s.latestByRoute r := by
    by_cases hwrites : driveSucceeded = true ∧ s.senders.get? p.route = none
    · rw [if_pos hwrites] at hw
      rw [latestByRoute_of_writes h hs hw hp, if_neg]
      rintro rfl
      exact hr rfl hwrites.2
    · rw [if_neg hwrites] at hw
      exact latestByRoute_of_quiet h hs hw r
  have hruns (r : String) : s'.AcceptorRuns r ↔ s.OtherRuns r c := by
    rw [acceptorRuns_iff hp', otherRuns_congr hne, hfinished]
    simp [TaskPhase.isRunning]
  constructor
  · intro hP'
    constructor
    · intro hc
      have hup := hP'.up p.route c p' (hsenders ▸ hc) hp' (by rw [hfinished]; rfl)
      rw [hkept p.route (fun _ hnone => by rw [hc] at hnone; cases hnone), hroute] at hup
      exact hup
    · intro hnone
      cases driveSucceeded with
      | true => exact .inl rfl
      | false =>
        right
        by_cases hother : s.OtherRuns p.route c
        · exact .inl hother
        · right
          have hdown := hP'.down p.route (mt (hruns _).mp hother) (hsenders ▸ hnone)
          rw [if_neg (by simp)] at hw
          rw [Connected, latestByRoute_of_quiet h hs hw] at hdown
          exact hdown
  · intro hG
    constructor
    · intro r hdown hnone hconnected
      rw [hsenders] at hnone
      rw [hruns] at hdown
      by_cases hr : p.route = r
      · subst hr
        by_cases hb : driveSucceeded = true
        · -- the record of the end is the latest
          rw [if_pos ⟨hb, hnone⟩] at hw
          rw [Connected, latestByRoute_of_writes h hs hw hp, if_pos rfl] at hconnected
          simp at hconnected
        · rw [if_neg (by simp [hb])] at hw
          rw [Connected, latestByRoute_of_quiet h hs hw] at hconnected
          rcases hG.2 hnone with hb' | hother | hnot
          · exact hb hb'
          · exact hdown hother
          · exact hnot hconnected
      · rw [Connected, hkept r fun h' => absurd h' hr] at hconnected
        refine hP.down r (fun hold => ?_) hnone hconnected
        rcases (acceptorRuns_iff hp).mp hold with ⟨hr', -⟩ | hother
        · exact hr hr'
        · exact hdown hother
    · intro r d q hd hq hfin
      rw [hsenders] at hd
      rw [hkept r fun _ hnone => by rw [hd] at hnone; cases hnone]
      rcases eq_or_ne d c with rfl | hdc
      · obtain rfl := Option.some.inj (hp'.symm.trans hq)
        -- its sender is on its own route
        obtain ⟨p₀, hp₀, hr, -⟩ := h.senders r d hd
        obtain rfl := Option.some.inj (hp.symm.trans hp₀)
        subst hr
        rw [hroute]
        exact hG.1 hd
      · exact hP.up r d q hd ((hne d hdc).symm.trans hq) hfin

/-- **The cleanup of a connection** takes the sender of the route out. -/
theorem statusFollows_unregister_iff (h : Recorded s) (hP : StatusFollows s)
    (hs : s.step ops a = some s') (hw : s.writes a = none) {c : ConnId} {p p' : PeerConn}
    (hp : s.conns.get? c = some p) (hconns : s'.conns = s.conns.insert c p')
    (hroute : p'.admitted = p.admitted) (htask : p'.task = p.task)
    (hsenders : s'.senders = s.senders.remove p.route) :
    StatusFollows s' ↔ s.AcceptorRuns p.route ∨ ¬ s.Connected p.route := by
  -- the connection that moved, and the others as they were
  have hp' : s'.conns.get? c = some p' := by rw [hconns, Table.get?_insert_self]
  have hne (d : ConnId) (hd : d ≠ c) : s'.conns.get? d = s.conns.get? d := by
    rw [hconns, Table.get?_insert_ne hd]
  have hruns (r : String) : s'.AcceptorRuns r ↔ s.AcceptorRuns r := by
    rw [acceptorRuns_iff hp', acceptorRuns_iff hp, otherRuns_congr hne, htask, PeerConn.route,
      PeerConn.route, hroute]
  have hlatest (r : String) := latestByRoute_of_quiet h hs hw r
  -- with the sender gone, `down` says more: the route must not read connected
  constructor
  · intro hP'
    by_cases hruns' : s.AcceptorRuns p.route
    · exact .inl hruns'
    · right
      have hdown := hP'.down p.route (mt (hruns _).mp hruns')
        (by rw [hsenders, Table.get?_remove_self])
      rw [Connected, hlatest] at hdown
      exact hdown
  · intro hG
    constructor
    · intro r hdown hnone hconnected
      rw [hruns] at hdown
      rw [Connected, hlatest] at hconnected
      -- the route that lost its sender, or another
      by_cases hr : p.route = r
      · subst hr
        rcases hG with hruns' | hnot
        · exact hdown hruns'
        · exact hnot hconnected
      · rw [hsenders, Table.get?_remove_ne (Ne.symm hr)] at hnone
        exact hP.down r hdown hnone hconnected
    · intro r d q hd hq hfin
      rw [hsenders] at hd
      have hold := (Table.get?_remove_eq_some.mp hd).2
      rw [hlatest]
      rcases eq_or_ne d c with rfl | hdc
      · obtain rfl := Option.some.inj (hp'.symm.trans hq)
        rw [hroute]
        exact hP.up r d p hold hp (htask ▸ hfin)
      · exact hP.up r d q hold ((hne d hdc).symm.trans hq) hfin

/-- **The panic of a task** leaves the maps and the records as they are. -/
theorem statusFollows_panicked_iff (h : Recorded s) (hP : StatusFollows s)
    (hs : s.step ops a = some s') (hw : s.writes a = none) {c : ConnId} {p p' : PeerConn}
    (hp : s.conns.get? c = some p) (hconns : s'.conns = s.conns.insert c p')
    (hpanicked : p'.task = .panicked) (hsenders : s'.senders = s.senders) :
    StatusFollows s' ↔
      (s.senders.get? p.route = none → s.OtherRuns p.route c ∨ ¬ s.Connected p.route) := by
  have hp' : s'.conns.get? c = some p' := by rw [hconns, Table.get?_insert_self]
  have hne (d : ConnId) (hd : d ≠ c) : s'.conns.get? d = s.conns.get? d := by
    rw [hconns, Table.get?_insert_ne hd]
  have hruns (r : String) : s'.AcceptorRuns r ↔ s.OtherRuns r c := by
    rw [acceptorRuns_iff hp', otherRuns_congr hne, hpanicked]
    simp [TaskPhase.isRunning]
  have hlatest (r : String) := latestByRoute_of_quiet h hs hw r
  -- the route that lost its task, or another
  constructor
  · intro hP' hnone
    by_cases hother : s.OtherRuns p.route c
    · exact .inl hother
    · right
      have hdown := hP'.down p.route (mt (hruns _).mp hother) (hsenders ▸ hnone)
      rw [Connected, hlatest] at hdown
      exact hdown
  · intro hG
    constructor
    · intro r hdown hnone hconnected
      rw [hruns] at hdown
      rw [hsenders] at hnone
      rw [Connected, hlatest] at hconnected
      by_cases hr : p.route = r
      · subst hr
        rcases hG hnone with hother | hnot
        · exact hdown hother
        · exact hnot hconnected
      · refine hP.down r (fun hold => ?_) hnone hconnected
        rcases (acceptorRuns_iff hp).mp hold with ⟨hr', -⟩ | hother
        · exact hr hr'
        · exact hdown hother
    · intro r d q hd hq hfin
      rw [hlatest]
      rcases eq_or_ne d c with rfl | hdc
      · -- a task that has panicked has not finished
        obtain rfl := Option.some.inj (hp'.symm.trans hq)
        rw [hpanicked] at hfin
        cases hfin
      · exact hP.up r d q (hsenders ▸ hd) ((hne d hdc).symm.trans hq) hfin

/-- A new connection. -/
theorem statusFollows_dialed (h : Recorded s) (hP : StatusFollows s) (hs : s.step ops a = some s')
    (hw : s.writes a = none) {c : ConnId} {admitted : AdmittedPeerConnection}
    (hnew : s.conns.get? c = none) (hconns : s'.conns = s.conns.insert c { admitted })
    (hsenders : s'.senders = s.senders) : StatusFollows s' := by
  have hne (d : ConnId) (hd : d ≠ c) : s'.conns.get? d = s.conns.get? d := by
    rw [hconns, Table.get?_insert_ne hd]
  have hlatest (r : String) := latestByRoute_of_quiet h hs hw r
  constructor
  · intro r hruns hnone hconnected
    rw [Connected, hlatest] at hconnected
    -- a new connection runs no task yet
    refine hP.down r (fun hold => hruns ?_) (hsenders ▸ hnone) hconnected
    obtain ⟨d, q, hq, hrest⟩ := hold
    have hdc : d ≠ c := by
      rintro rfl
      rw [hnew] at hq
      cases hq
    exact ⟨d, q, (hne d hdc).trans hq, hrest⟩
  · intro r d q hd hq hfin
    rw [hlatest]
    have hdc : d ≠ c := by
      rintro rfl
      rw [hconns, Table.get?_insert_self] at hq
      obtain rfl := Option.some.inj hq
      cases hfin
    exact hP.up r d q (hsenders ▸ hd) ((hne d hdc).symm.trans hq) hfin

/-- In other phases the acceptor task does not touch the status. -/
theorem keepsStatus_of_phase {c : ConnId} {p : PeerConn} (ok : Bool)
    (hp : s.conns.get? c = some p) (hsucceeded : p.task ≠ .succeeded) (hfailed : p.task ≠ .failed)
    (hchecking : ∀ b, p.task ≠ .checking b)
    (hbuilt : p.task = .handshaking → ok = true → p.confirmation ops ≠ none) :
    s.writes (.task c ok) = none ∧ s.KeepsStatus ops (.task c ok) := by
  constructor
  · rw [writes, hp, Option.bind_some]
    cases hphase : p.task <;> simp_all
  · intro q hq
    obtain rfl := Option.some.inj (hp.symm.trans hq)
    exact ⟨fun h => by rcases h with h | h <;> contradiction, fun b h => absurd h (hchecking b),
      fun hphase hok hnone => absurd hnone (hbuilt hphase hok)⟩

/-! ### Runs -/

/-- **One step** keeps the status in line with the tunnel exactly when it meets the condition. -/
theorem statusFollows_step_iff (h : Recorded s) (hP : StatusFollows s) (hs : s.step ops a = some s') :
    StatusFollows s' ↔ s.KeepsStatus ops a := by
  -- one case for each effect; the three `statusFollows_*_iff` are the ones that may break it
  cases effect_of_step hs with
  | dialed c admitted hnew =>
    exact iff_of_true (statusFollows_dialed h hP hs rfl hnew rfl rfl) True.intro
  | refusedOrWaits c ok p q hp | stored c ok p hp =>
    exact iff_of_true (statusFollows_of_quiet h hP hs rfl hp rfl rfl id id (.inl rfl)) True.intro
  | spawned c ok p hp =>
    exact iff_of_true (statusFollows_of_quiet h hP hs rfl hp rfl rfl (fun _ => rfl) nofun
      (.inl rfl)) True.intro
  | shookHands c ok p hp hphase hbuilt =>
    obtain ⟨hw, hG⟩ := keepsStatus_of_phase ok hp (by simp [hphase]) (by simp [hphase])
      (by simp [hphase]) fun _ _ => Option.isSome_iff_ne_none.mp hbuilt
    exact iff_of_true (statusFollows_of_quiet h hP hs hw hp rfl rfl (fun _ => rfl) nofun
      (.inl rfl)) hG
  | panicked c ok p hp hphase hok hbuilt =>
    have hw : s.writes (.task c ok) = none := by simp [writes, hp, hphase]
    rw [statusFollows_panicked_iff h hP hs hw hp rfl rfl rfl]
    simp [KeepsStatus, hp, hphase, hok, hbuilt]
  | recorded c ok p hp hphase | confirmed c ok p hp hphase | unrecorded c ok p hp hphase
  | unstored c ok p hp b hphase =>
    obtain ⟨hw, hG⟩ := keepsStatus_of_phase ok hp (by simp [hphase]) (by simp [hphase])
      (by simp [hphase]) (by simp [hphase])
    exact iff_of_true (statusFollows_of_quiet h hP hs hw hp rfl rfl (fun _ => rfl) nofun
      (.inl rfl)) hG
  | gaveUp c ok p hp hphase hok =>
    have hquiet : p.task ≠ .succeeded ∧ p.task ≠ .failed ∧ ∀ b, p.task ≠ .checking b := by
      rcases hphase with hphase | hphase <;> simp [hphase]
    obtain ⟨hw, hG⟩ := keepsStatus_of_phase ok hp hquiet.1 hquiet.2.1 hquiet.2.2 (by simp [hok])
    exact iff_of_true (statusFollows_of_quiet h hP hs hw hp rfl rfl (fun _ => rfl) nofun
      (.inl rfl)) hG
  | registered c ok p hp hphase =>
    obtain ⟨hw, hG⟩ := keepsStatus_of_phase ok hp (by simp [hphase]) (by simp [hphase])
      (by simp [hphase]) (by simp [hphase])
    exact iff_of_true (statusFollows_of_quiet h hP hs hw hp rfl rfl (fun _ => rfl) nofun
      (.inr ⟨rfl, rfl⟩)) hG
  | reported c ok p hp driveSucceeded hphase =>
    have hw : s.writes (.task c ok) =
        some (c, if driveSucceeded then .connected else .failed) := by
      cases driveSucceeded <;> simp [writes, hp, hphase]
    have hold : p.task.isRunning = true := by
      cases driveSucceeded <;> simp [hphase, TaskPhase.isRunning]
    rw [statusFollows_report_iff h hP hs hw hp rfl rfl hold rfl rfl]
    cases driveSucceeded <;> simp [KeepsStatus, hp, hphase]
  | left c ok p hp driveSucceeded hphase =>
    rw [statusFollows_left_iff h hP hs hp hphase rfl rfl rfl rfl]
    cases driveSucceeded <;> simp [KeepsStatus, hp, hphase]
  | hungUp c p hp hphase | cleaned c p hp hphase =>
    refine iff_of_true (statusFollows_of_quiet h hP hs rfl hp rfl rfl id id (.inl rfl)) ?_
    intro q hq hended
    obtain rfl := Option.some.inj (hp.symm.trans hq)
    rw [hphase] at hended
    cases hended
  | unregistered c p hp hphase =>
    rw [statusFollows_unregister_iff h hP hs rfl hp rfl rfl rfl rfl]
    simp [KeepsStatus, hp, hphase]

theorem recorded_init (ops : HttpOps) : Recorded (machine ops).init where
  written e he := by cases he
  senders r c hr := by cases hr

theorem statusFollows_init (ops : HttpOps) : StatusFollows (machine ops).init where
  down r _ _ hconnected := by
    obtain ⟨id, hid⟩ := hconnected
    cases hid
  up r c p hr := by cases hr

/-- **The recorded status follows the tunnel** in all states of a run exactly when all its steps
meet the condition: above all, no sender is taken out while the status is `Connected` and no
acceptor task of the route runs any more. -/
theorem statusFollows_iff_keepsStatus (ops : HttpOps) (as : List AcceptorAction) :
    (machine ops).StatesMeet StatusFollows (machine ops).init as ↔
      (machine ops).StepsMeet (KeepsStatus ops) (machine ops).init as := by
  refine Machine.statesMeet_iff_stepsMeet (A := fun _ => True) (I := Recorded) ?_ ?_ (by simp)
    (recorded_init ops) (statusFollows_init ops)
  · intro s a t _ h hs
    exact h.step hs
  · intro s a t _ h hP hs
    exact statusFollows_step_iff h hP hs

/-- A connection is confirmed, its task ends, and it drops. -/
def connectAndDrop : List AcceptorAction :=
  [.dial 0 (.unauthenticated "hub" 0 .empty), .request 0 true, .request 0 true, .request 0 true,
    .request 0 true, .task 0 true, .task 0 true, .task 0 true, .task 0 true, .task 0 true,
    .task 0 true, .task 0 true, .conn 0, .conn 0, .conn 0]

/-- **An ordinary disconnect is not recorded**: no task runs, no sender is registered, and the
status of the route is `Connected`. -/
theorem connected_after_drop :
    ∃ s, (machine lenientOps).run (machine lenientOps).init connectAndDrop = some s ∧
      ¬ s.StatusFollows := by
  have hrun : ∃ s, (machine lenientOps).run (machine lenientOps).init connectAndDrop = some s ∧
      s.latestByRoute "hub" = some (0, .connected) ∧ s.senders.get? "hub" = none ∧
      ∃ p, s.conns.get? 0 = some p ∧ p.task = .finished true :=
    ⟨_, rfl, rfl, rfl, _, rfl, rfl⟩
  obtain ⟨s, hs, hlatest, hnone, p, hp, htask⟩ := hrun
  refine ⟨s, hs, fun h => h.down "hub" (fun hruns => ?_) hnone ⟨0, hlatest⟩⟩
  rcases (acceptorRuns_iff hp).mp hruns with ⟨-, hrun⟩ | ⟨c, q, hne, hq, -, -⟩
  · rw [htask] at hrun
    cases hrun
  · -- only connection 0 was dialed
    rw [conns_of_run (by simpa [connectAndDrop, AcceptorAction.actor] using hne) hs] at hq
    cases hq

end PeerAcceptors

end Boardwalk
