import Boardwalk.Http.Spec.Core

/-!
# What a transition's result says

`run_resource_transition` makes two calls: the transition, and once that completed a snapshot.  The
snapshot it returns is one the actor produced after the transition, in every run.  An error says
that the transition did not complete as long as no snapshot of a completed one is lost, refused or
fails (`AnswersFollowUps`).
-/

namespace Boardwalk.Core

variable {ι ο δ : Type*} {s t : Core ι ο δ} {j : ℕ} {ok : Bool}

/-- The calls of entry `i` for the snapshot of a completed transition that are awaited. -/
def followUps (s : Core ι ο δ) (i : ℕ) : List ℕ :=
  s.ops.filterMap fun op =>
    match op.pc, op.frame with
    | .await i' k, .runResourceTransition _ _ _ _ (some _) => if i' = i then some k else none
    | _, _ => none

/-- The step answers every awaited snapshot of a completed transition that it concerns: it does not
send one to a closed mailbox, does not end the task while it holds one, and is not that the handler
of one fails. -/
def AnswersFollowUps (s : Core ι ο δ) : Action ι ο δ → Bool
  | .actor i x => s.entries[i]?.all fun n =>
    (s.followUps i).all fun k => n.accepts k x && n.answers k x
  | _ => true

/-- The result of a transition call says what became of the transition: an error, that its handler
did not complete it, and a snapshot, that the actor produced it afterwards. -/
def Truthful (s : Core ι ο δ) : Prop :=
  ∀ (j : ℕ) (id name : String) (input : ι) (invoked : Option (ℕ × ℕ)) (output : Option ο)
    (result : Except ResourceTransitionError (TransitionOutcome ο (Snapshot δ))),
    s.ops[j]? = some ⟨.runResourceTransition id name input invoked output,
      .done (.transitioned result)⟩ →
    match result with
    | .error _ => ∀ i k n, invoked = some (i, k) → s.entries[i]? = some n →
      ∀ output snapshot, .ended (.transition name input k)
        (.transition (.ok (.completed output snapshot))) ∉ n.actor.log
    | .ok (.completed output snapshot) => ∃ i k n, invoked = some (i, k) ∧
      s.entries[i]? = some n ∧ ∃ before after own k' reply, n.actor.log = before ++ after ∧
        .ended (.transition name input k) (.transition (.ok (.completed output own))) ∈ before ∧
        .ended (.snapshot k') (.snapshot (.ok reply)) ∈ after ∧
        snapshot = n.identify s.node reply
    | .ok (.accepted _ _) => True

/-! ### The invariant of a transition call -/

/-- The handler of call `k` completed the transition before call `k'` was answered. -/
def CompletedBefore (s : Core ι ο δ) (i k k' : ℕ) (name : String) (input : ι) (output : ο) : Prop :=
  ∃ n before after own, s.entries[i]? = some n ∧ n.actor.log = before ++ after ∧
    .ended (.transition name input k) (.transition (.ok (.completed output own))) ∈ before ∧
    ∀ ans, .ended (.snapshot k') ans ∉ before

/-- The snapshot was produced after the transition. -/
def ProducedAfter (s : Core ι ο δ) (i k : ℕ) (name : String) (input : ι) (output : ο)
    (snapshot : Snapshot δ) : Prop :=
  ∃ n before after own k' reply, s.entries[i]? = some n ∧ n.actor.log = before ++ after ∧
    .ended (.transition name input k) (.transition (.ok (.completed output own))) ∈ before ∧
    .ended (.snapshot k') (.snapshot (.ok reply)) ∈ after ∧ snapshot = n.identify s.node reply

/-- Call `k` returned an error. -/
def FailedCall (s : Core ι ο δ) (i k : ℕ) (name : String) (input : ι) : Prop :=
  ∃ n c err, s.entries[i]? = some n ∧ n.actor.calls[k]? = some c ∧
    c.request = .transitionWithCtx name input ∧ c.phase = .returned (.transition (.error err))

theorem CompletedBefore.grows {i k k' : ℕ} {name : String} {input : ι} {output : ο}
    (h : s.CompletedBefore i k k' name input output) (hg : Grows s t) :
    t.CompletedBefore i k k' name input output := by
  obtain ⟨n, before, after, own, hn, hlog, hmem, hnot⟩ := h
  obtain ⟨n', hn', hgn⟩ := hg.entries i n hn
  obtain ⟨rest, hrest⟩ := hgn.log
  exact ⟨n', before, after ++ rest, own, hn', by rw [← hrest, hlog, List.append_assoc], hmem, hnot⟩

theorem ProducedAfter.grows {i k : ℕ} {name : String} {input : ι} {output : ο}
    {snapshot : Snapshot δ} (h : s.ProducedAfter i k name input output snapshot) (hg : Grows s t) :
    t.ProducedAfter i k name input output snapshot := by
  obtain ⟨n, before, after, own, k', reply, hn, hlog, hmem, hmem', hsnap⟩ := h
  obtain ⟨n', hn', hgn⟩ := hg.entries i n hn
  obtain ⟨rest, hrest⟩ := hgn.log
  refine ⟨n', before, after ++ rest, own, k', reply, hn', ?_, hmem, List.mem_append_left _ hmem', ?_⟩
  · rw [← hrest, hlog, List.append_assoc]
  · rw [hsnap, Registered.identify, Registered.identify, hgn.entry, hgn.spec, hg.node]

theorem FailedCall.grows {i k : ℕ} {name : String} {input : ι} (h : s.FailedCall i k name input)
    (hg : Grows s t) : t.FailedCall i k name input := by
  obtain ⟨n, c, err, hn, hc, hr, hp⟩ := h
  obtain ⟨n', hn', hgn⟩ := hg.entries i n hn
  obtain ⟨c', hc', hr', hret⟩ := hgn.calls k c hc
  obtain rfl : c' = c := hret (.inl ⟨_, hp⟩)
  exact ⟨n', c', err, hn', hc', hr, hp⟩

/-- What is known of a transition call, by where it stands. -/
def TransitionOk (s : Core ι ο δ) (op : Op ι ο δ) : Prop :=
  match op.frame, op.pc with
  | .runResourceTransition _ _ _ invoked none, .await i k => invoked = some (i, k)
  | .runResourceTransition _ name input invoked (some output), .await i k =>
    ∃ kt, invoked = some (i, kt) ∧ s.CompletedBefore i kt k name input output
  | .runResourceTransition _ name input invoked (some output), .write p =>
    ∃ kt, invoked = some (p.entry, kt) ∧ s.ProducedAfter p.entry kt name input output p.snapshot
  | .runResourceTransition _ name input invoked _, .done (.transitioned result) =>
    match result with
    | .error _ => ∀ i k, invoked = some (i, k) → s.FailedCall i k name input
    | .ok (.completed output snapshot) =>
      ∃ i k, invoked = some (i, k) ∧ s.ProducedAfter i k name input output snapshot
    | .ok (.accepted _ _) => True
  | _, _ => True

theorem TransitionOk.grows {op : Op ι ο δ} (h : s.TransitionOk op) (hg : Grows s t) :
    t.TransitionOk op := by
  unfold TransitionOk at h ⊢
  split at h
  · exact h
  · obtain ⟨kt, hinv, hb⟩ := h
    exact ⟨kt, hinv, hb.grows hg⟩
  · obtain ⟨kt, hinv, hb⟩ := h
    exact ⟨kt, hinv, hb.grows hg⟩
  · split at h
    · exact fun i k hinv => (h i k hinv).grows hg
    · obtain ⟨i, k, hinv, hp⟩ := h
      exact ⟨i, k, hinv, hp.grows hg⟩
    · trivial
  · trivial

/-- The snapshots of completed transitions are answered well. -/
def FollowUpOk (s : Core ι ο δ) (op : Op ι ο δ) : Prop :=
  match op.frame, op.pc with
  | .runResourceTransition _ _ _ _ (some _), .await i k =>
    Meets (fun ans => ∃ reply, ans = .snapshot (.ok reply)) s i k
  | _, _ => True

/-- What a transition call keeps. -/
structure CallTruth (s : Core ι ο δ) (op : Op ι ο δ) : Prop where
  transition : s.TransitionOk op
  followUp : s.FollowUpOk op

theorem CallTruth.of_kind {op : Op ι ο δ} (h : op.frame.kind ≠ .runResourceTransition) :
    s.CallTruth op := by
  obtain ⟨frame, pc⟩ := op
  cases frame with
  | runResourceTransition _ _ _ _ _ => exact absurd rfl h
  | _ => exact ⟨trivial, trivial⟩

/-- Nothing is known of a transition call that was left. -/
theorem callTruth_abandoned (frame : Frame ι ο δ) (taken : Option ℕ) :
    s.CallTruth ⟨frame, .abandoned taken⟩ := by
  cases frame with
  | runResourceTransition id name input invoked output =>
    cases output <;> exact ⟨trivial, trivial⟩
  | _ => exact ⟨trivial, trivial⟩

/-- The answer of a completed transition comes from its handler. -/
theorem completedBefore_await {i k : ℕ} {n : Registered ι ο δ} {name : String} {input : ι}
    {output : ο} {own : Snapshot δ} {frame : Frame ι ο δ} (hwf : s.Wf)
    (ha : s.Answers i k n (.transition (.ok (.completed output own))))
    (hasks : s.Asks i k (.transitionWithCtx name input)) :
    (s.await j frame i .snapshot).CompletedBefore i k (s.nextCall i) name input output := by
  have hnot := not_ended_nextCall hwf ha.1
  obtain ⟨hn, c, hc, hp⟩ := ha
  obtain ⟨n', c', hn', hc', hr⟩ := hasks
  obtain rfl : n = n' := Option.some.inj (hn.symm.trans hn')
  obtain rfl : c = c' := Option.some.inj (hc.symm.trans hc')
  have hended := (hwf.sound i n hn).ended_of_returned hc hp (by simp)
    (by rw [hr]; simp [Executor.Request.terminated])
    (by rw [hr]; simp [Executor.Request.droppedReply])
  rw [hr] at hended
  have hb : s.CompletedBefore i k (s.nextCall i) name input output :=
    ⟨n, n.actor.log, [], own, hn, by simp, hended, hnot⟩
  exact hb.grows (keeps_await _ _ _ _ _).grows

theorem CompletedBefore.produced {i k k' : ℕ} {n : Registered ι ο δ} {name : String} {input : ι}
    {output : ο} {reply : Snapshot δ} (h : s.CompletedBefore i k k' name input output)
    (hg : s.Genuine ⟨i, k', n.identify s.node reply⟩) :
    s.ProducedAfter i k name input output (n.identify s.node reply) := by
  obtain ⟨m, before, after, own, hm, hlog, hmem, hnot⟩ := h
  obtain ⟨m', reply', hm', hmem', hsnap⟩ := hg
  obtain rfl : m = m' := Option.some.inj (hm.symm.trans hm')
  refine ⟨m, before, after, own, k', reply', hm, hlog, hmem, ?_, hsnap⟩
  rw [hlog] at hmem'
  exact (List.mem_append.mp hmem').resolve_left (hnot _)

theorem callTruth_afterPersist {id name : String} {input : ι} {invoked : Option (ℕ × ℕ)}
    {output : Option ο} {p : Produced δ} {kt : ℕ} {out : ο}
    (h : s.afterPersist j (.runResourceTransition id name input invoked output) p = some t)
    (hout : output = some out) (hinv : invoked = some (p.entry, kt))
    (hp : s.ProducedAfter p.entry kt name input out p.snapshot) :
    ∃ op, t.ops = s.ops.set j op ∧ t.CallTruth op := by
  have hg := (keeps_afterPersist h).grows
  obtain ⟨op, hop, rfl⟩ := afterPersist_some h
  subst hout
  cases hop
  exact ⟨_, rfl, ⟨p.entry, kt, hinv, hp.grows hg⟩, trivial⟩

/-- Writing the follow-up snapshot of a transition keeps its result true. -/
theorem callTruth_write {id name : String} {input : ι} {invoked : Option (ℕ × ℕ)}
    {output : Option ο} {p : Produced δ}
    (ho : s.TransitionOk ⟨.runResourceTransition id name input invoked output, .write p⟩)
    (h : s.upsert j (.runResourceTransition id name input invoked output) p ok = some t) :
    ∃ op, t.ops = s.ops.set j op ∧ t.CallTruth op := by
  cases output with
  | none =>
    unfold upsert at h
    split at h <;> cases h
  | some out =>
    obtain ⟨kt, hinv, hp⟩ := ho
    have hg := (keeps_upsert h).grows
    unfold upsert at h
    split at h
    · obtain ⟨op, hop, rfl⟩ := afterPersist_some h
      cases hop
      exact ⟨_, rfl, ⟨p.entry, kt, hinv, hp.grows hg⟩, trivial⟩
    · exact callTruth_afterPersist h rfl hinv hp

variable [DecidableEq δ]

theorem callTruth_followUp {id name : String} {input : ι} {invoked : Option (ℕ × ℕ)} {output : ο}
    {p : Produced δ} {kt : ℕ} (hinv : invoked = some (p.entry, kt))
    (hp : s.ProducedAfter p.entry kt name input output p.snapshot)
    (h : s.persistLatest j (.runResourceTransition id name input invoked (some output)) p ok =
      some t) : ∃ op, t.ops = s.ops.set j op ∧ t.CallTruth op := by
  obtain ⟨-, h⟩ | rfl := persistLatest_cases h
  · exact callTruth_afterPersist h rfl hinv hp
  · exact ⟨_, rfl, ⟨kt, hinv, hp.grows (keeps_setOp _ _ _).grows⟩, trivial⟩

/-- A step of a transition call keeps what is known of it. -/
theorem CallTruth.move {op : Op ι ο δ} (h : s.CallTruth op) (hwf : s.Wf) (ho : s.OpWf op)
    (hm : Move s j ok op t) : ∃ op', t.ops = s.ops.set j op' ∧ t.CallTruth op' := by
  -- only `runResourceTransition` makes a claim about its call
  by_cases hkind : op.frame.kind = .runResourceTransition
  case neg =>
    obtain ⟨op', hops, hk⟩ := hm.moved
    exact ⟨op', hops, .of_kind (by rw [hk]; exact hkind)⟩
  cases hm with
  | transitionMissing id name input invoked output hid =>
    exact ⟨_, rfl, by simp [TransitionOk], trivial⟩
  | transitionStart id name input invoked output i hid => exact ⟨_, rfl, rfl, trivial⟩
  | transitionFailed id name input invoked i k n err ha =>
    refine ⟨_, rfl, ?_, trivial⟩
    -- the call that failed is the transition's own
    have hinv : invoked = some (i, k) := h.transition
    have hfailed : s.FailedCall i k name input := by
      obtain ⟨n', c', hn', hc', hr⟩ := ho.await i k rfl
      obtain ⟨hn, c, hc, hp⟩ := ha
      obtain rfl : n = n' := Option.some.inj (hn.symm.trans hn')
      obtain rfl : c = c' := Option.some.inj (hc.symm.trans hc')
      exact ⟨n, c, err, hn, hc, hr, hp⟩
    rintro i' k' hinv'
    rw [hinv] at hinv'
    cases hinv'
    exact hfailed.grows (keeps_setOp _ _ _).grows
  | transitionAccepted id name input invoked i k n job output ha =>
    exact ⟨_, rfl, trivial, trivial⟩
  | transitionCompleted id name input invoked i k n output snapshot ha =>
    -- completed: what the actor produced is before the follow-up read
    have hinv : invoked = some (i, k) := h.transition
    exact ⟨_, rfl, ⟨k, hinv, completedBefore_await hwf ha (ho.await i k rfl)⟩,
      meets_await _ _ _ _ _ _⟩
  | followUp id name input invoked output i k n reply _ ha ht =>
    obtain ⟨kt, hinv, hb⟩ := h.transition
    exact callTruth_followUp hinv (hb.produced (hwf.genuine ha (ho.await i k rfl))) ht
  | followUpFailed id name input invoked output i k n err ha =>
    -- the condition lets no follow-up fail
    obtain ⟨hn, c, hc, hp⟩ := ha
    have hmeets := h.followUp n c hn hc
    simp [Executor.Call.Meets, hp] at hmeets
  | write frame p _ ht =>
    cases frame with
    | runResourceTransition id name input invoked output =>
      exact callTruth_write h.transition ht
    | _ => cases hkind
  | _ => cases hkind

/-- A step leaves what is known of a call that does not move. -/
theorem CallTruth.step {op : Op ι ο δ} {a : Action ι ο δ} (h : s.CallTruth op) (hwf : s.Wf)
    (hop : s.ops[j]? = some op) (hG : s.AnswersFollowUps a = true) (hstep : Steps s a t) :
    t.CallTruth op := by
  refine ⟨h.transition.grows hstep.grows, ?_⟩
  have hfollow := h.followUp
  unfold FollowUpOk at hfollow ⊢
  split
  · rename_i id name input invoked output i k hframe hpc
    rw [hframe, hpc] at hfollow
    -- the follow-up is among those of `i` that the condition names
    have hasks := (hwf.ops j op hop).await i k hpc
    rw [hframe] at hasks
    have hmem : k ∈ s.followUps i := by
      refine List.mem_filterMap.mpr ⟨op, List.mem_of_getElem? hop, ?_⟩
      simp [hframe, hpc]
    have hboth : ∀ (n : Registered ι ο δ) (x : Executor.Action ι ο (Snapshot δ)),
        s.entries[i]? = some n → a = .actor i x → n.accepts k x = true ∧ n.answers k x = true := by
      rintro n x hn rfl
      simp only [AnswersFollowUps, hn, Option.all_some, List.all_eq_true, Bool.and_eq_true] at hG
      exact hG k hmem
    refine Meets.step hfollow hwf hasks hstep (fun reply => ⟨reply, rfl⟩) ?_
      (fun n x hn ha => (hboth n x hn ha).2)
    intro n hn ha hrx
    have hacc := (hboth n _ hn ha).1
    simp [Registered.accepts, hrx] at hacc
  · trivial

/-- What holds along runs that answer the snapshots of completed transitions. -/
structure TruthInv (s : Core ι ο δ) : Prop where
  wf : s.Wf
  ops : ∀ (j : ℕ) (op : Op ι ο δ), s.ops[j]? = some op → s.CallTruth op

/-- A step whose follow-ups are answered keeps every transition true to its actor. -/
theorem TruthInv.step {a : Action ι ο δ} (h : s.TruthInv) (hG : s.AnswersFollowUps a = true)
    (hstep : Steps s a t) : t.TruthInv := by
  refine ⟨h.wf.step hstep, fun j op hop => ?_⟩
  have hstep' := hstep
  cases hstep with
  | register entry spec hid => exact (h.ops j op hop).step h.wf hop hG hstep'
  | begin r =>
    rcases append_cases hop with ⟨-, rfl⟩ | hop
    · cases r <;> exact ⟨trivial, trivial⟩
    · exact (h.ops j op hop).step h.wf hop hG hstep'
  | actor i x n e hn hx he => exact (h.ops j op hop).step h.wf hop hG hstep'
  | op j' ok o _ ho hm =>
    obtain ⟨op', hops, htruth⟩ := (h.ops j' o ho).move h.wf (h.wf.ops j' o ho) hm
    rcases ops_set_cases hops hop with ⟨-, rfl⟩ | ⟨-, hop⟩
    · exact htruth
    · exact (h.ops j op hop).step h.wf hop hG hstep'
  | abandon j' o _ ho hl =>
    obtain ⟨taken, hops⟩ := hl.ops
    rcases ops_set_cases hops hop with ⟨-, rfl⟩ | ⟨-, hop⟩
    · exact callTruth_abandoned o.frame taken
    · exact (h.ops j op hop).step h.wf hop hG hstep'

omit [DecidableEq δ] in
/-- What the invariant says of a finished transition is that its result is truthful. -/
theorem TruthInv.truthful (h : s.TruthInv) : s.Truthful := by
  intro j id name input invoked output result hop
  have hok := (h.ops j _ hop).transition
  cases result with
  | error err =>
    have hfailed : ∀ i k, invoked = some (i, k) → s.FailedCall i k name input := by
      cases output <;> exact hok
    intro i k n hinv hn out snapshot hmem
    obtain ⟨n', c, err', hn', hc, hr, hp⟩ := hfailed i k hinv
    obtain rfl : n = n' := Option.some.inj (hn.symm.trans hn')
    have hphase := (h.wf.sound i n hn).phase_of_ended hc (by rw [hr]; simp)
      (by rw [hr]; exact hmem)
    simp [hp] at hphase
  | ok outcome =>
    cases outcome with
    | completed out snapshot =>
      have hprod : ∃ i k, invoked = some (i, k) ∧ s.ProducedAfter i k name input out snapshot := by
        cases output <;> exact hok
      obtain ⟨i, k, hinv, n, before, after, own, k', reply, hn, hrest⟩ := hprod
      exact ⟨i, k, n, hinv, hn, before, after, own, k', reply, hrest⟩
    | accepted job out => trivial

/-- **An error means that the transition did not complete**, in every run that answers the
snapshots of completed transitions. -/
theorem truthful_of_answersFollowUps (node : String) (actorQueueCapacity : ℕ) (persistent : Bool)
    (store : SnapshotStore δ) (as : List (Action ι ο δ))
    (h : (machine ι ο node actorQueueCapacity persistent store).StepsMeet
      (fun s a => s.AnswersFollowUps a = true)
      (machine ι ο node actorQueueCapacity persistent store).init as) :
    (machine ι ο node actorQueueCapacity persistent store).StatesMeet Truthful
      (machine ι ο node actorQueueCapacity persistent store).init as := by
  have hinit : (machine ι ο node actorQueueCapacity persistent store).init.TruthInv :=
    ⟨wf_init _ _ _ _, by simp [machine]⟩
  have hinv := Machine.statesMeet_of_stepsMeet (I := TruthInv)
    (fun s a t hs hG hstep => hs.step hG (step_steps hstep)) hinit h
  exact hinv.mono fun s hs => hs.truthful

/-- The lamp is turned on while the node goes on running. -/
def turnOn : List (Action String String String) :=
  [.register lamp lampReports, .begin (.runResourceTransition "lamp" "turn-on" ""), .op 0 true,
    .actor 0 .start, .actor 0 (.reserve 0), .actor 0 (.send 0), .actor 0 .recv,
    .actor 0 (.reply (.transition (.ok (.completed "" (lampSnapshot "on"))))),
    .actor 0 (.receive 0)]

/-- The snapshot that follows it is answered. -/
def answered : List (Action String String String) :=
  turnOn ++ [.op 0 true, .actor 0 (.reserve 1), .actor 0 (.send 1), .actor 0 .recv,
    .actor 0 (.reply (.snapshot (.ok (lampSnapshot "on")))), .actor 0 (.receive 1), .op 0 true,
    .op 0 true]

theorem truthful_answered :
    (lampMachine.run lampMachine.init answered).isSome = true ∧
      lampMachine.StatesMeet Truthful lampMachine.init answered :=
  ⟨by decide, truthful_of_answersFollowUps "hub" 32 true .empty answered
    (by decide)⟩

/-- The node's shutdown puts its stop between the transition and the snapshot. -/
def stoppedBetween : List (Action String String String) :=
  turnOn ++ [.begin .shutdown, .op 1 true, .actor 0 (.reserve 1), .actor 0 (.send 1), .op 0 true,
    .actor 0 (.reserve 2), .actor 0 (.send 2), .actor 0 .recv, .actor 0 (.reply (.shutdown true)),
    .actor 0 .finish, .actor 0 (.receive 2), .op 0 true]

/-- The caller is told of an internal error, and the lamp is on. -/
theorem error_of_completed :
    ∃ s, lampMachine.run lampMachine.init stoppedBetween = some s ∧
      s.ops[0]? = some ⟨.runResourceTransition "lamp" "turn-on" "" (some (0, 0)) (some ""),
        .done (.transitioned (.error (.internal "actor task dropped reply slot")))⟩ ∧
      ¬ s.Truthful := by
  refine ⟨_, rfl, rfl, fun h => ?_⟩
  exact h 0 _ _ _ _ _ _ rfl 0 0 _ rfl rfl "" (lampSnapshot "on") (by decide)

end Boardwalk.Core
