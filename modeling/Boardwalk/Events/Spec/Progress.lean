import Boardwalk.Events.Spec.Coalesce
import Boardwalk.Events.Spec.Permits
import Boardwalk.Lib.Progress

/-!
# Publish calls come to an end

The safety results say nothing of a bus on which every call is stuck.  Here a *workload* is counted:
what each call in progress has still to do, and what the consumers have still to take.  Every step
of a call, every receive and every cancellation lowers it (`ranks_ofParty`), whatever the schedule.
A state in which no call can take a step is then looked at once: the mutex is free in it, and the
only calls left wait for a slot of a full `Backpressure` queue whose consumer is still there
(`publishers_wait_only_for_backpressure`).  If the consumers keep receiving, not even those are left
(`publishes_finish`).
-/

namespace Boardwalk

/-- A step of a publish call. -/
def BusAction.ofPublisher {δ τ : Type} : BusAction δ τ → Prop
  | .advance _ | .visit _ _ => True
  | _ => False

/-- A step of a publish call, or of a consumer that takes what is there. -/
def BusAction.ofExchange {δ τ : Type} : BusAction δ τ → Prop
  | .recv _ => True
  | a => a.ofPublisher

/-- The same, or the cancellation of a waiting call. -/
def BusAction.ofParty {δ τ : Type} : BusAction δ τ → Prop
  | .cancel _ => True
  | a => a.ofExchange

theorem BusAction.ofExchange_of_ofPublisher {δ τ : Type} {a : BusAction δ τ} (h : a.ofPublisher) :
    a.ofExchange := by
  cases a with
  | advance k | visit k i => exact trivial
  | _ => cases h

theorem BusAction.ofParty_of_ofExchange {δ τ : Type} {a : BusAction δ τ} (h : a.ofExchange) :
    a.ofParty := by
  cases a with
  | advance k | visit k i | recv i => exact trivial
  | _ => cases h

/-- What a call has still to do on a bus that has handed out `n` ids: at most 8 units for each entry
its loop has to visit (a visit, and then what a match costs or a push left to the consumer), and 5
for each match (a send, a grant, a push that is received, a commit). -/
def Call.effort {δ : Type} (n : ℕ) (c : Call δ) : ℕ :=
  match c.phase with
  | .check => 8 * n + 5 * c.guards.length + 6
  | .reject _ => 1
  | .record => 8 * n + 5 * c.guards.length + 4
  | .evict _ => 8 * n + 5 * c.guards.length + 3
  | .acquire => 8 * n + 5 * c.guards.length + 2
  | .fanout => 8 * c.todo.length + 5 * c.guards.length + 1
  | .send => 5 * c.guards.length
  | .await => 5 * c.guards.length - 1
  | .granted => 5 * c.guards.length - 2
  | .commit _ => 5 * c.guards.length - 4
  | .unwind => c.guards.length + 1
  | .returned _ | .rejected _ | .cancelled | .panicked => 0

namespace Bus

variable {δ τ κ : Type} [DecidableEq κ]

/-! ### The backlog -/

/-- The envelopes queued for one subscription. -/
def Local.load (l : Local δ τ) : ℕ := l.mpsc.buf.length + l.coalesce.queue.length

/-- The envelopes queued for all subscriptions. -/
def backlog (b : Bus δ τ) : ℕ := ∑ i ∈ Finset.range b.nextId, (b.view i).load

/-- What is left to do for the calls and the consumers. -/
def workload (b : Bus δ τ) : ℕ := (b.calls.map (Call.effort b.nextId)).sum + b.backlog

section Load

variable {b b' : Bus δ τ} {i : SubscriptionId} {l : Local δ τ}

theorem Local.load_remove (l : Local δ τ) : l.remove.load = l.load := by
  unfold Local.remove
  split <;> rfl

theorem Local.load_reap (l : Local δ τ) : l.reap.load = l.load := by
  unfold Local.reap
  split
  · have hremove := l.load_remove
    have hmpsc : l.remove.mpsc = l.mpsc := by
      unfold Local.remove
      split <;> rfl
    simp [Local.load, CoalesceState.close, hmpsc]
  · exact l.load_remove

theorem Local.load_fireNotice (l : Local δ τ) (sub : SubscriptionInner τ) :
    (l.fireNotice sub).load = l.load := by
  unfold Local.fireNotice
  split <;> rfl

theorem Local.load_commitDelivered (l : Local δ τ) (env : EventEnvelope δ) :
    (Local.commitDelivered env l).load = l.load := by
  unfold Local.commitDelivered
  split
  · rfl
  · dsimp only
    split
    · exact Local.load_remove _
    · rfl

theorem Local.load_refundClaim (l : Local δ τ) : l.refundClaim.load = l.load := by
  unfold Local.refundClaim
  split <;> rfl

theorem Local.load_commitDisconnect (l : Local δ τ) : l.commitDisconnect.load = l.load := by
  unfold Local.commitDisconnect
  split
  · rfl
  · rw [Local.load_remove, Local.load_fireNotice]

theorem Touches.nextId (h : Touches i l b b') : b'.nextId = b.nextId := by
  have hrest := h.rest
  simp only [Bus.rest, Bus.mk.injEq] at hrest
  exact hrest.1

/-- An operation on one subscription adds to the backlog what it adds to its queues. -/
theorem Touches.backlog_le {d : ℕ} (h : Touches i l b b') (hl : l.load ≤ (b.view i).load + d) :
    b'.backlog ≤ b.backlog + d := by
  unfold backlog
  rw [h.nextId]
  apply sum_range_le_add (i := i)
  · rw [h.self]
    exact hl
  · intro j hj
    rw [h.other j hj]

theorem Touches.backlog_kept (h : Touches i l b b') (hl : l.load = (b.view i).load) :
    b'.backlog ≤ b.backlog :=
  h.backlog_le (d := 0) (by omega)

theorem backlog_foldl_reap (l : List SubscriptionId) : (l.foldl reap b).backlog = b.backlog := by
  unfold backlog
  rw [nextId_foldl_reap]
  refine Finset.sum_congr rfl fun i _ => ?_
  rw [view_foldl_reap]
  split
  · exact Local.load_reap _
  · rfl

/-- A push adds at most one envelope to a coalescing queue. -/
theorem CoalesceState.length_push_le (key : EventEnvelope δ → FieldPath → Option κ)
    (s : CoalesceState δ) (env : EventEnvelope δ) :
    (s.push key env).2.queue.length ≤ s.queue.length + 1 := by
  unfold CoalesceState.push
  split
  · exact Nat.le_succ _
  · split
    · rename_i queue hqueue
      obtain ⟨k, -, hreplace⟩ := Option.bind_eq_some_iff.mp hqueue
      obtain ⟨l, e, r, hold, -, -, rfl⟩ := CoalesceState.replaceFirst_eq_some hreplace
      show (l ++ env :: r).length ≤ s.queue.length + 1
      rw [hold]
      simp
    · split
      · simp
      · exact Nat.le_succ _

/-- A visit adds at most one envelope to each of the two queues, and at most one match. -/
theorem Local.load_visit_le (ops : BusOps δ τ κ) (api : PublishApi) (env : EventEnvelope δ)
    (l : Local δ τ) : (l.visit ops api env).1.load ≤ l.load + 2 := by
  -- a visit puts one envelope into the coalesce queue at most
  have hcoalesce : (l.visit ops api env).1.coalesce.queue.length ≤ l.coalesce.queue.length + 1 := by
    unfold Local.visit
    split
    · exact Nat.le_succ _
    · split
      · split
        · unfold Local.visitCoalesce
          have hpush := CoalesceState.length_push_le ops.extractKey l.coalesce env
          dsimp only
          split <;> exact hpush
        · unfold Local.visitTryPublish
          split
          · exact Nat.le_succ _
          · split
            · unfold Local.fireNotice
              split <;> exact Nat.le_succ _
            · exact Nat.le_succ _
          · exact Nat.le_succ _
        · unfold Local.visitPublish
          split <;> exact Nat.le_succ _
      · exact Nat.le_succ _
  unfold Local.load
  -- and one into the channel
  rcases l.visit_mpsc ops api env with hsame | hpush
  · rw [hsame]
    omega
  · have hlen : (l.visit ops api env).1.mpsc.buf.length = l.mpsc.buf.length + 1 := by
      rw [Mpsc.trySend_ok hpush]
      simp [Mpsc.push]
    omega

end Load

/-! ### Every step spends -/

section Spends

variable {ops : BusOps δ τ κ} {b b' : Bus δ τ} {a : BusAction δ τ} {k : ℕ} {c c' : Call δ}

/-- A move of one call that leaves less for it than it adds to the queues. -/
theorem workload_lt (hk : b.calls[k]? = some c) (hcalls : b'.calls = b.calls.set k c')
    (hnext : b'.nextId = b.nextId) {d : ℕ} (hload : b'.backlog ≤ b.backlog + d)
    (heffort : c'.effort b.nextId + d < c.effort b.nextId) : b'.workload < b.workload := by
  unfold workload
  rw [hcalls, hnext]
  have hsum := sum_map_set (Call.effort b.nextId) hk c'
  omega

theorem length_keys_le (b : Bus δ τ) : b.keys.length ≤ b.nextId := by
  unfold keys
  have hle := List.length_filter_le (fun i => (b.subs i).isSome) (List.range b.nextId)
  rwa [List.length_range] at hle

theorem effort_afterMatch (n : ℕ) (c : Call δ) (gs : List Match) :
    (afterMatch c gs).effort n = 5 * gs.length := by
  cases gs <;> simp [afterMatch, Call.effort]

omit [DecidableEq κ] in
/-- **Every step of a call lowers the workload.** -/
theorem workload_advance (hs : b.advance ops k = some b') : b'.workload < b.workload := by
  obtain ⟨c, hk, hadv⟩ := advance_cases hs
  -- each step pays for what it adds to the queues with the effort of its call
  have hquiet : ∀ {b₁ : Bus δ τ} {c' : Call δ}, b₁.calls = b.calls → b₁.nextId = b.nextId →
      b₁.backlog ≤ b.backlog → c'.effort b.nextId < c.effort b.nextId →
      (b₁.setCall k c').workload < b.workload := by
    intro b₁ c' hcalls hnext hload heffort
    exact workload_lt hk (calls_setCall_of hcalls k c') hnext (d := 0) hload heffort
  have hpush : ∀ {m : Match} {q : Mpsc (EventEnvelope δ)} {c' : Call δ},
      q.buf.length ≤ (b.mpsc m.id).buf.length + 1 →
      c'.effort b.nextId + 1 < c.effort b.nextId →
      ((b.setMpsc m.id q).setCall k c').workload < b.workload := by
    intro m q c' hq heffort
    refine workload_lt hk rfl rfl ((b.touches_setMpsc m.id q).backlog_le ?_) heffort
    show q.buf.length + (b.coalesce m.id).queue.length ≤
      (b.mpsc m.id).buf.length + (b.coalesce m.id).queue.length + 1
    omega
  cases hadv with
  | tooLarge hp | fits hp | evict _ hp | reject _ hp =>
    exact hquiet rfl rfl (Nat.le_refl _) (by simp only [Call.effort, hp]; omega)
  | record p hp hnext =>
    refine hquiet rfl rfl (Nat.le_refl _) ?_
    rw [hnext]
    split <;> simp only [Call.effort, hp] <;> omega
  | acquire hp =>
    -- the loop has one visit for each key, and there are no more keys than ids
    refine hquiet rfl rfl (Nat.le_refl _) ?_
    have hkeys := b.length_keys_le
    simp only [Call.effort, hp]
    omega
  | finish hp =>
    refine hquiet (by simp) (by simp) (b.backlog_foldl_reap c.toRemove).le ?_
    rw [effort_afterMatch]
    simp only [Call.effort, hp]
    omega
  | send m rest hp hg =>
    unfold sendMatch
    split
    · rename_i q hq
      refine hpush ?_ ?_
      · rw [Mpsc.trySend_ok hq]
        simp [Mpsc.push]
      · simp only [Call.effort, hp, hg, List.length_cons]
        omega
    · refine hquiet rfl rfl (Nat.le_refl _) ?_
      simp only [Call.effort, hp, hg, List.length_cons]
      omega
    · split <;> refine hquiet rfl rfl (Nat.le_refl _) ?_ <;>
        simp only [Call.effort, hp, hg, List.length_cons] <;> omega
  | permit m rest q hp hg _ hq =>
    refine hquiet rfl rfl ((b.touches_setMpsc m.id q).backlog_kept ?_) ?_
    · rw [Mpsc.reserve_some hq]
      rfl
    · simp only [Call.effort, hp, hg, List.length_cons]
      omega
  | awaitClosed m rest hp hg =>
    refine hquiet rfl rfl (Nat.le_refl _) ?_
    simp only [Call.effort, hp, hg, List.length_cons]
    omega
  | push m rest hp hg =>
    -- the permit's slot is filled: one envelope more in the queue, one step less to go
    refine hpush ?_ ?_
    · simp [Mpsc.pushReserved, Mpsc.push]
    · simp only [Call.effort, hp, hg, List.length_cons]
      omega
  | commit m rest outcome hp hg =>
    -- a commit leaves one guard less
    have heffort : ∀ c' : Call δ,
        (afterMatch c' rest).effort b.nextId < c.effort b.nextId := by
      intro c'
      rw [effort_afterMatch]
      simp only [Call.effort, hp, hg, List.length_cons]
      omega
    cases outcome with
    | delivered =>
      have hload := (b.touches_commitDelivered m.id c.envelope).backlog_kept
        (Local.load_commitDelivered _ _)
      exact hquiet (by simp [recordCommit]) (by simp [recordCommit]) hload (heffort _)
    | dropped =>
      have hload := (b.touches_refundClaim m.id).backlog_kept (Local.load_refundClaim _)
      exact hquiet (by simp) (by simp) hload (heffort _)
    | disconnectSlowConsumer =>
      have hload := (b.touches_commitDisconnect m.id).backlog_kept (Local.load_commitDisconnect _)
      exact hquiet (by simp) (by simp) hload (heffort _)
    | closed =>
      have hload := (b.touches_remove m.id).backlog_kept (Local.load_remove _)
      exact hquiet (by simp) (by simp) hload (heffort _)
  | dropGuard m rest hp hg =>
    have hload := (b.touches_refundClaim m.id).backlog_kept (Local.load_refundClaim _)
    refine hquiet (by simp) (by simp) hload ?_
    simp only [Call.effort, hp, hg, List.length_cons]
    omega
  | unwound hp hg =>
    refine hquiet rfl rfl (Nat.le_refl _) ?_
    simp only [Call.effort, hp]
    omega

/-- An iteration of a loop costs what its entry was counted for. -/
theorem workload_visit {j : SubscriptionId} (hwf : b.WellFormed) (hs : b.visit ops k j = some b') :
    b'.workload < b.workload := by
  obtain ⟨c, hk, hp, hj, b₂, c₂, hentry, rfl⟩ := visit_cases hs
  obtain ⟨hnext, hcalls, -⟩ := visitEntry_call hentry
  obtain ⟨htouch, hcall⟩ :=
    visitEntry_spec ops { c with todo := c.todo.erase j } (hwf.view_fits j)
  rw [hentry] at htouch hcall
  dsimp only at htouch hcall
  refine workload_lt hk (calls_setCall_of hcalls k c₂) hnext
    (htouch.backlog_le (Local.load_visit_le ops c.api c.envelope (b.view j))) ?_
  have htodo : (c.todo.erase j).length + 1 = c.todo.length := List.length_erase_add_one hj
  -- at most one match is added
  have hguards : c₂.guards.length ≤ c.guards.length + 1 := by
    rw [hcall]
    simp only [addDelta, List.length_append]
    have hone : ∀ o : Option Match, o.toList.length ≤ 1 := by
      intro o
      cases o <;> simp
    have := hone ((Local.visit ops c.api c.envelope (b.view j)).2.claimed.map (Match.mk j))
    omega
  have hphase : c₂.phase = .fanout := by rw [hcall]; exact hp
  have hleft : c₂.todo = c.todo.erase j := by rw [hcall]; rfl
  simp only [Call.effort, hp, hphase, hleft]
  omega

omit [DecidableEq κ] in
/-- Cancelling a call lowers what is left to do. -/
theorem workload_cancel (h : ∀ c ∈ b.calls, c.Poised) (hs : b.cancel k = some b') :
    b'.workload < b.workload := by
  obtain ⟨c, hk, ⟨hp, rfl⟩ | ⟨m, rest, hp, hg, rfl⟩⟩ := cancel_cases hs
  · refine workload_lt hk rfl rfl (d := 0) (Nat.le_refl _) ?_
    have hne := (h c (List.mem_of_getElem? hk)).pending (by simp [hp, Phase.sends])
    have hpos := List.length_pos_iff.mpr hne
    simp only [Call.effort, hp]
    omega
  · refine workload_lt hk rfl rfl (d := 0)
      ((b.touches_setMpsc m.id _).backlog_kept rfl) ?_
    simp only [Call.effort, hp, hg, List.length_cons]
    omega

omit [DecidableEq κ] in
/-- A receive takes an envelope off the backlog. -/
theorem workload_recv {i : SubscriptionId} {env : EventEnvelope δ} (hwf : b.WellFormed)
    (hr : b.recv i = some (env, b')) : b'.workload < b.workload := by
  -- only a subscription with options can be asked
  have hi : i < b.nextId := by
    cases hopts : (b.hist i).opts with
    | none =>
      unfold Bus.recv at hr
      rw [hopts] at hr
      cases hr
    | some opts => exact hwf.lt_nextId_of_opts hopts
  have hcalls := (frame_recv (i := i) hr).2
  -- its own queue loses an envelope, and no other one is touched
  have htouch : b'.nextId = b.nextId ∧ (∀ j, j ≠ i → b'.view j = b.view j) ∧
      (b'.view i).load < (b.view i).load := by
    unfold Bus.recv at hr
    split at hr
    · cases hr
    · obtain ⟨⟨e, q⟩, hq, he⟩ := Option.map_eq_some_iff.mp hr
      cases he
      obtain ⟨hbuf, -, -⟩ := Mpsc.recv_some hq
      refine ⟨rfl, (b.touches_setMpsc i q).other, ?_⟩
      rw [(b.touches_setMpsc i q).self]
      show q.buf.length + (b.coalesce i).queue.length <
        (b.mpsc i).buf.length + (b.coalesce i).queue.length
      rw [hbuf, List.length_cons]
      omega
    · obtain ⟨⟨e, state⟩, hstate, he⟩ := Option.map_eq_some_iff.mp hr
      cases he
      refine ⟨rfl, (b.touches_setCoalesce i state).other, ?_⟩
      rw [(b.touches_setCoalesce i state).self]
      unfold CoalesceState.pop at hstate
      split at hstate
      · cases hstate
      · rename_i hqueue
        cases hstate
        show _ < (b.mpsc i).buf.length + (b.coalesce i).queue.length
        rw [hqueue, List.length_cons]
        exact Nat.lt_succ_self _
  obtain ⟨hnext, hother, hless⟩ := htouch
  unfold workload backlog
  rw [hcalls, hnext]
  have hsum : ∑ j ∈ Finset.range b.nextId, (b'.view j).load <
      ∑ j ∈ Finset.range b.nextId, (b.view j).load :=
    sum_range_lt hi hless fun j hj => by rw [hother j hj]
  omega

/-- **The parties of an exchange wear the workload down.** -/
theorem ranks_ofParty (ops : BusOps δ τ κ) (replayCapacity : ℕ) :
    (machine ops replayCapacity).Ranks BusAction.ofParty Serviced (@workload δ τ) where
  keeps _ _ _ h _ hs := serviced_step h hs
  lowers b a b' h ha hstep := by
    have hs : step ops b a = some b' := hstep
    cases a with
    | advance k => exact workload_advance hs
    | visit k i => exact workload_visit h.wellFormed hs
    | cancel k => exact workload_cancel h.poised hs
    | recv i =>
      obtain ⟨env, hr⟩ := step_recv hs
      exact workload_recv h.wellFormed hr
    | _ => cases ha

end Spends

/-! ### A bus at rest -/

section AtRest

variable {ops : BusOps δ τ κ} {b b' : Bus δ τ} {k : ℕ} {c : Call δ}

/-- The call awaits a slot of a full `Backpressure` queue, and the consumer of the queue is there. -/
def WaitsForSlot (b : Bus δ τ) (c : Call δ) : Prop :=
  c.phase = .await ∧ ∃ m rest, c.guards = m :: rest ∧ m.slowConsumerPolicy = .backpressure ∧
    (b.mpsc m.id).rxAlive = true ∧ (b.mpsc m.id).buf.length = (b.mpsc m.id).capacity

/-- No publish call can take a step. -/
def Stuck (ops : BusOps δ τ κ) (b : Bus δ τ) : Prop :=
  ∀ a : BusAction δ τ, a.ofPublisher → step ops b a = none

/-- In a stuck bus no call is still in its fan-out. -/
theorem Stuck.not_fanout (h : b.Stuck ops) (hk : b.calls[k]? = some c) : c.phase ≠ .fanout := by
  intro hp
  have hadv : b.advance ops k = none := h (.advance k) trivial
  unfold advance at hadv
  simp only [hk, hp] at hadv
  cases htodo : c.todo with
  | nil => simp [htodo] at hadv
  | cons i rest =>
    -- an entry is left to visit
    have hvisit : b.visit ops k i = none := h (.visit k i) trivial
    unfold visit at hvisit
    simp [hk, hp, htodo] at hvisit

/-- **Nobody holds the mutex of a stuck bus**: its holder would be in its loop. -/
theorem Stuck.lock (hb : b.Serviced) (h : b.Stuck ops) : b.lock = none := by
  cases hlock : b.lock with
  | none => rfl
  | some k =>
    obtain ⟨c, hk, hp⟩ := hb.accounted.lock k hlock
    rcases hp with hp | hp
    · exact absurd hp (h.not_fanout hk)
    · exact absurd hp (hb.poised c (List.mem_of_getElem? hk)).sound

omit [DecidableEq κ] in
/-- What is left of a call that cannot go on although the mutex is free: nothing, or an awaited
permit. -/
theorem ended_or_awaits (hc : c.Poised) (hfree : b.lock = none) (hk : b.calls[k]? = some c)
    (hfanout : c.phase ≠ .fanout) (hadv : b.advance ops k = none) :
    c.phase.ended = true ∨ c.phase = .await ∧ ∃ m rest, c.guards = m :: rest ∧
      (b.mpsc m.id).rxAlive = true ∧ (b.mpsc m.id).reserve = none := by
  -- a call that sends has a guard to send for
  have hmatch : c.phase.sends = true → ∃ m rest, c.guards = m :: rest :=
    fun hsends => List.exists_cons_of_ne_nil (hc.pending hsends)
  unfold advance at hadv
  rw [hk] at hadv
  dsimp only at hadv
  -- one case for each phase; nothing else than a permit and the mutex can be missing
  split at hadv
  case h_1 =>
    split at hadv <;> cases hadv
  case h_5 => simp [hfree] at hadv
  case h_6 hp => exact absurd hp hfanout
  case h_7 hp =>
    obtain ⟨m, rest, hg⟩ := hmatch (by rw [hp]; rfl)
    simp [hg] at hadv
  case h_8 hp =>
    obtain ⟨m, rest, hg⟩ := hmatch (by rw [hp]; rfl)
    rw [hg] at hadv
    simp only [awaitPermit] at hadv
    -- the receiver is there, or the wait would have ended
    split at hadv
    · rename_i halive
      exact .inr ⟨hp, m, rest, hg, halive, Option.map_eq_none_iff.mp hadv⟩
    · cases hadv
  case h_9 hp =>
    obtain ⟨m, rest, hg⟩ := hmatch (by rw [hp]; rfl)
    simp [hg] at hadv
  case h_10 outcome hp =>
    obtain ⟨m, rest, hg⟩ := hmatch (by rw [hp]; rfl)
    simp [hg, hfree] at hadv
  case h_11 =>
    split at hadv
    · cases hadv
    · simp [hfree] at hadv
  case h_12 hp => exact .inl (by rw [hp]; rfl)
  case h_13 hp => exact .inl (by rw [hp]; rfl)
  case h_14 hp => exact .inl (by rw [hp]; rfl)
  -- `unreachable!` is not reached
  case h_15 hp => exact absurd hp hc.sound
  all_goals cases hadv

/-- No call of a stuck bus holds a permit: it would push. -/
theorem Stuck.permits (hb : b.Serviced) (h : b.Stuck ops) (i : SubscriptionId) :
    b.permits i = 0 := by
  unfold Bus.permits
  refine List.sum_eq_zero fun n hn => ?_
  obtain ⟨c, hc, rfl⟩ := List.mem_map.mp hn
  apply Call.permitFor_of_ne
  intro hp
  obtain ⟨k, hk⟩ := List.mem_iff_getElem?.mp hc
  have hrest := ended_or_awaits (hb.poised c hc) (h.lock hb) hk (by simp [hp]) (h (.advance k) trivial)
  rcases hrest with hended | ⟨hawait, -⟩
  · rw [hp] at hended
    cases hended
  · rw [hp] at hawait
    cases hawait

/-- **What a stuck call waits for.** -/
theorem Stuck.ended_or_waits (hb : b.Serviced) (h : b.Stuck ops) :
    ∀ c ∈ b.calls, c.phase.ended = true ∨ b.WaitsForSlot c := by
  intro c hc
  obtain ⟨k, hk⟩ := List.mem_iff_getElem?.mp hc
  have hpoised := hb.poised c hc
  rcases ended_or_awaits hpoised (h.lock hb) hk (h.not_fanout hk) (h (.advance k) trivial) with
    hended | ⟨hp, m, rest, hg, halive, hfull⟩
  · exact .inl hended
  · refine .inr ⟨hp, m, rest, hg, ?_, halive, ?_⟩
    · have hpolicy := hpoised.awaits hp
      simpa [hg] using hpolicy
    · -- no slot is reserved, so the queue itself is full
      have hnone := h.permits hb m.id
      have hreserved := hb.permitted.reserved m.id
      have hbound := hb.permitted.bounded m.id
      have hroom : ¬ (b.mpsc m.id).buf.length + (b.mpsc m.id).reserved < (b.mpsc m.id).capacity := by
        simpa [Mpsc.reserve, Mpsc.hasRoom] using hfull
      omega

/-- A consumer with a full queue can receive. -/
theorem recv_of_waits (hb : b.Serviced) (hc : c ∈ b.calls) (h : b.WaitsForSlot c) :
    ∃ i t, step ops b (.recv i) = some t := by
  obtain ⟨-, m, rest, hg, hpolicy, -, hfull⟩ := h
  obtain ⟨opts, hopts, hpol⟩ := hb.wellFormed.policies c hc m (hg ▸ List.mem_cons_self)
  have hmpsc : opts.slowConsumerPolicy = .backpressure := hpol ▸ hpolicy
  obtain ⟨-, hpos⟩ := hb.permitted.capacity m.id opts hopts (by rw [hmpsc]; rfl)
  have hne : (b.mpsc m.id).buf ≠ [] := by
    intro hnil
    rw [hnil, List.length_nil] at hfull
    omega
  obtain ⟨env, rest', hbuf⟩ := List.exists_cons_of_ne_nil hne
  refine ⟨m.id, ?_⟩
  simp [step, recv, hopts, hmpsc, SlowConsumerPolicy.outbound, Mpsc.recv, hbuf]

/-- **Publishers wait for nothing but backpressure.**  On any reachable bus, a schedule of steps of
the publish calls, of receives and of cancellations is no longer than the workload it starts from;
steps of the calls alone bring it to a state in which none of them can take a step, and in every
such state the mutex is free, every call has ended or awaits a slot of a full `Backpressure` queue
whose consumer is still there, and no `unreachable!` was hit. -/
theorem publishers_wait_only_for_backpressure (ops : BusOps δ τ κ) (replayCapacity : ℕ)
    (h : (machine ops replayCapacity).Reachable b) {as : List (BusAction δ τ)}
    (has : ∀ a ∈ as, a.ofParty) (hr : (machine ops replayCapacity).run b as = some b') :
    as.length ≤ b.workload ∧
      (∃ bs b'', (∀ a ∈ bs, a.ofPublisher) ∧ (machine ops replayCapacity).run b' bs = some b'' ∧
        b''.Stuck ops) ∧
      (b'.Stuck ops → b'.lock = none ∧ ∀ c ∈ b'.calls, c.phase.ended = true ∨ b'.WaitsForSlot c) := by
  have hb := serviced_of_reachable h
  obtain ⟨hlen, hb', -⟩ := (ranks_ofParty ops replayCapacity).settles hb has hr
  have hpublisher : (machine ops replayCapacity).Ranks BusAction.ofPublisher Serviced
      (@workload δ τ) := by
    apply (ranks_ofParty ops replayCapacity).mono
    intro a ha
    exact BusAction.ofParty_of_ofExchange (BusAction.ofExchange_of_ofPublisher ha)
  obtain ⟨bs, b'', hbs, hrun, hrest⟩ := hpublisher.exists_atRest hb'
  exact ⟨hlen, ⟨bs, b'', hbs, hrun, hrest⟩, fun hstuck => ⟨hstuck.lock hb', hstuck.ended_or_waits hb'⟩⟩

/-- **Publish calls finish while the consumers receive.**  On any reachable bus, a schedule of steps
of the publish calls and of receives is no longer than the workload it starts from, and it can be
completed; when it can go no further, every publish call has returned, was rejected or has unwound,
and nothing is left in a queue. -/
theorem publishes_finish (ops : BusOps δ τ κ) (replayCapacity : ℕ)
    (h : (machine ops replayCapacity).Reachable b) {as : List (BusAction δ τ)}
    (has : ∀ a ∈ as, a.ofExchange) (hr : (machine ops replayCapacity).run b as = some b') :
    as.length ≤ b.workload ∧
      (∃ bs b'', (∀ a ∈ bs, a.ofExchange) ∧ (machine ops replayCapacity).run b' bs = some b'' ∧
        b''.Idle) ∧
      ((∀ a : BusAction δ τ, a.ofExchange → step ops b' a = none) →
        b'.Idle ∧ ∀ i, b'.recv i = none) := by
  have hb := serviced_of_reachable h
  have hexchange : (machine ops replayCapacity).Ranks BusAction.ofExchange Serviced
      (@workload δ τ) := by
    apply (ranks_ofParty ops replayCapacity).mono
    intro a ha
    exact BusAction.ofParty_of_ofExchange ha
  -- at rest no receive is enabled, so no call waits for a slot
  have hidle : ∀ {b : Bus δ τ}, b.Serviced →
      (∀ a : BusAction δ τ, a.ofExchange → step ops b a = none) → b.Idle := by
    intro b hb hrest c hc
    have hstuck : b.Stuck ops := fun a ha => hrest a (BusAction.ofExchange_of_ofPublisher ha)
    rcases hstuck.ended_or_waits hb c hc with hended | hwaits
    · exact hended
    · obtain ⟨i, t, ht⟩ : ∃ i t, step ops b (.recv i) = some t := recv_of_waits hb hc hwaits
      rw [hrest (.recv i) trivial] at ht
      cases ht
  obtain ⟨hlen, hb', bs, b'', hbs, hrun, hb'', hrest⟩ := hexchange.settles hb has hr
  refine ⟨hlen, ⟨bs, b'', hbs, hrun, hidle hb'' hrest⟩, fun hdone => ⟨hidle hb' hdone, fun i => ?_⟩⟩
  have hnone := hdone (.recv i) trivial
  simpa [step] using hnone

end AtRest

/-! ### Witnesses -/

/-- The schedule of `grantedSlot` up to the wait of the second call. -/
def waitingForSlot : List (BusAction Unit Unit) := grantedSlot.take 16

/-- What is left to do then. -/
def afterTheWait : List (BusAction Unit Unit) :=
  [.recv 1, .advance 1, .advance 1, .advance 1, .recv 1]

theorem publishers_wait_only_for_backpressure_waitingForSlot : ∃ b : Bus Unit Unit,
    (machine BusOps.matchAll 8).run (machine BusOps.matchAll 8).init waitingForSlot = some b ∧
      (∃ c ∈ b.calls, b.WaitsForSlot c) ∧ (b.Stuck BusOps.matchAll → b.lock = none) := by
  refine ⟨_, rfl, ?_, ?_⟩
  · refine ⟨_, List.mem_cons_of_mem _ List.mem_cons_self, rfl, _, _, rfl, rfl, rfl, rfl⟩
  · intro hstuck
    have hnil : ∀ a ∈ ([] : List (BusAction Unit Unit)), a.ofParty := by simp
    exact ((publishers_wait_only_for_backpressure BusOps.matchAll 8 ⟨waitingForSlot, rfl⟩
      hnil rfl).2.2 hstuck).1

theorem publishes_finish_afterTheWait : ∃ b b' : Bus Unit Unit,
    (machine BusOps.matchAll 8).run (machine BusOps.matchAll 8).init waitingForSlot = some b ∧
      (machine BusOps.matchAll 8).run b afterTheWait = some b' ∧
      (b'.calls.all fun c => c.phase.ended) = true ∧ afterTheWait.length ≤ b.workload := by
  refine ⟨_, _, rfl, rfl, rfl, ?_⟩
  have hown : ∀ a ∈ afterTheWait, a.ofExchange := by
    intro a ha
    simp only [afterTheWait, List.mem_cons, List.not_mem_nil, or_false] at ha
    rcases ha with rfl | rfl | rfl | rfl | rfl <;> exact trivial
  exact (publishes_finish BusOps.matchAll 8 ⟨waitingForSlot, rfl⟩ hown rfl).1

end Bus

end Boardwalk
