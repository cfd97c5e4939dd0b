import Boardwalk.Events.Spec.Offered
import Boardwalk.Events.Spec.Once

/-!
# Nothing lost

A subscription without a limit keeps its entry while its consumer is there, unless a call finds its
queue full and disconnects it.  If that does not happen, and no future is dropped that still owes it
an envelope (`Lossless`), then every matching envelope whose loop starts reaches its queue
(`FeedsAll.step`, `FeedsAll.enqueued_of_idle`).
-/

namespace Boardwalk

namespace Call

variable {δ : Type}

/-- The call does not end the subscription `i`, and owes it nothing if its future was dropped. -/
structure Serves (i : SubscriptionId) (c : Call δ) : Prop where
  toRemove : i ∉ c.toRemove
  commits : c.guards.head?.map (·.id) = some i →
    c.phase ≠ .commit .disconnectSlowConsumer ∧ c.phase ≠ .commit .closed
  unwinding : c.phase = .unwind → c.outstanding i = 0

/-- The loop of the call is about to visit `i`, or the call holds a claim it has not used. -/
def Owes (i : SubscriptionId) (c : Call δ) : Prop := c.phase = .fanout ∧ i ∈ c.todo ∨ c.Unsent i

variable {i : SubscriptionId} {c : Call δ}

theorem Serves.phase (h : c.Serves i) {p : Phase}
    (hp : p ≠ .commit .disconnectSlowConsumer ∧ p ≠ .commit .closed ∧ p ≠ .unwind) :
    { c with phase := p }.Serves i :=
  ⟨h.toRemove, fun _ => ⟨hp.1, hp.2.1⟩, fun h => absurd h hp.2.2⟩

/-- A call at work for another subscription. -/
theorem Serves.other (h : c.Serves i) {m : Match} {rest : List Match} (hg : c.guards = m :: rest)
    (hm : m.id ≠ i) {p : Phase} (hp : p ≠ .unwind) : { c with phase := p }.Serves i :=
  ⟨h.toRemove, fun hhead => absurd (by simpa [hg] using hhead) hm, fun h => absurd h hp⟩

theorem serves_afterMatch {gs : List Match} (h : i ∉ c.toRemove) :
    (Bus.afterMatch c gs).Serves i := by
  cases gs with
  | nil => exact ⟨h, by simp [Bus.afterMatch], by simp [Bus.afterMatch]⟩
  | cons m gs => exact ⟨h, by simp [Bus.afterMatch], by simp [Bus.afterMatch]⟩

end Call

namespace Bus

variable {δ τ κ : Type} [DecidableEq κ]

/-- The subscription has its entry, without a limit, and its consumer. -/
structure Attached (b : Bus δ τ) (i : SubscriptionId) : Prop where
  entry : ∃ sub, b.subs i = some sub ∧ sub.remaining = none
  receiving : (b.mpsc i).rxAlive = true
  calls : ∀ c ∈ b.calls, c.Serves i

/-- The action does not find the queue of a `Disconnect` subscription full, and does not drop a
future that owes an envelope. -/
def Lossless (i : SubscriptionId) (b : Bus δ τ) : BusAction δ τ → Prop
  | .advance k => ∀ c ∈ b.calls[k]?, c.phase = .send → ∀ m ∈ c.guards.head?, m.id = i →
      m.slowConsumerPolicy = .disconnect → (b.mpsc i).hasRoom = true
  | .cancel k => ∀ c ∈ b.calls[k]?, ¬ c.Unsent i
  | _ => True

instance (i : SubscriptionId) (b : Bus δ τ) : ∀ a, Decidable (Lossless i b a)
  | .advance k => inferInstanceAs (Decidable (∀ c ∈ b.calls[k]?, _))
  | .cancel k => inferInstanceAs (Decidable (∀ c ∈ b.calls[k]?, _))
  | .subscribe _ _ | .unsubscribe _ | .publish _ | .tryPublish _ | .visit _ _ | .recv _
  | .dropRx _ | .withMaxEventSize _ => isTrue True.intro

/-! ### The entry stays -/

section Entry

variable {ops : BusOps δ τ κ} {b b' : Bus δ τ} {a : BusAction δ τ} {i j : SubscriptionId} {k : ℕ}

theorem entry_commitDelivered {env : EventEnvelope δ}
    (h : ∃ sub, b.subs i = some sub ∧ sub.remaining = none) :
    ∃ sub, (b.commitDelivered j env).subs i = some sub ∧ sub.remaining = none := by
  by_cases hij : i = j
  · subst hij
    obtain ⟨sub, hsub, hrem⟩ := h
    have hkeep : (sub.deliver env.position).exhausted = false := by
      simp [SubscriptionInner.exhausted, SubscriptionInner.deliver, hrem]
    exact ⟨sub.deliver env.position, by simp [commitDelivered, hsub, hkeep, setSub], hrem⟩
  · rwa [(b.frame_commitDelivered hij env).subs]

theorem entry_refundClaim (h : ∃ sub, b.subs i = some sub ∧ sub.remaining = none) :
    ∃ sub, (b.refundClaim j).subs i = some sub ∧ sub.remaining = none := by
  by_cases hij : i = j
  · subst hij
    obtain ⟨sub, hsub, hrem⟩ := h
    exact ⟨sub.refund, by simp [refundClaim, hsub, setSub],
      by simp [SubscriptionInner.refund, hrem]⟩
  · rwa [(b.frame_refundClaim hij).subs]

theorem rxAlive_setMpsc {q : Mpsc (EventEnvelope δ)} (h : (b.mpsc i).rxAlive = true)
    (hq : q.rxAlive = (b.mpsc j).rxAlive) : ((b.setMpsc j q).mpsc i).rxAlive = true := by
  by_cases hij : i = j
  · subst hij; simpa [setMpsc, hq] using h
  · simpa [setMpsc, hij] using h

/-- A call moves, with a state that serves `i`. -/
theorem Attached.setCall (h : b.Attached i) {b₁ : Bus δ τ} {c' : Call δ}
    (hcalls : b₁.calls = b.calls) (hentry : ∃ sub, b₁.subs i = some sub ∧ sub.remaining = none)
    (hrx : (b₁.mpsc i).rxAlive = true) (hc' : c'.Serves i) : (b₁.setCall k c').Attached i where
  entry := hentry
  receiving := hrx
  calls := Party.forall_mem_set (calls_setCall_of hcalls k c') h.calls hc'

/-- A match handed on keeps a subscription attached, if its queue has room whenever it would
disconnect. -/
theorem Attached.sendMatch {c : Call δ} {m : Match} {rest : List Match} (h : b.Attached i)
    (hc : c.Serves i) (hg : c.guards = m :: rest)
    (hroom : m.id = i → m.slowConsumerPolicy = .disconnect → (b.mpsc i).hasRoom = true) :
    (b.sendMatch k c m).Attached i := by
  unfold Bus.sendMatch
  -- sent: the receiver stays
  split
  · rename_i q hq
    refine h.setCall rfl h.entry (rxAlive_setMpsc h.receiving ?_) (hc.phase (by simp))
    rw [Mpsc.trySend_ok hq]
    rfl
  · -- closed contradicts that the receiver is there
    rename_i hclosed
    refine h.setCall rfl h.entry h.receiving (hc.other hg ?_ (by simp))
    rintro rfl
    have hgone := Mpsc.rxAlive_of_closed hclosed
    rw [h.receiving] at hgone
    cases hgone
  · -- full: `disconnect` is excluded by the condition, and the other policies wait or drop
    rename_i hfull
    split
    · exact h.setCall rfl h.entry h.receiving (hc.phase (by simp))
    · exact h.setCall rfl h.entry h.receiving (hc.phase (by simp))
    · rename_i hpol
      refine h.setCall rfl h.entry h.receiving (hc.other hg ?_ (by simp))
      rintro rfl
      rw [Mpsc.trySend_of_rxAlive h.receiving, hroom rfl hpol] at hfull
      cases hfull
    · exact h.setCall rfl h.entry h.receiving (hc.phase (by simp))

/-- Committing the first match of a call keeps a subscription attached. -/
theorem Attached.commitMatch {c : Call δ} {m : Match} {rest : List Match} {outcome : SendResult}
    (h : b.Attached i) (hc : c.Serves i) (hp : c.phase = .commit outcome)
    (hg : c.guards = m :: rest) : (b.commitMatch k c m rest outcome).Attached i := by
  have hhead : m.id = i → c.guards.head?.map (·.id) = some i := fun hm => by simp [hg, hm]
  cases outcome with
  | delivered =>
    exact h.setCall (by simp [recordCommit]) (entry_commitDelivered h.entry)
      (by simpa [recordCommit] using h.receiving) (Call.serves_afterMatch hc.toRemove)
  | dropped =>
    exact h.setCall (by simp) (entry_refundClaim h.entry) (by simpa using h.receiving)
      (Call.serves_afterMatch hc.toRemove)
  | disconnectSlowConsumer =>
    have hm : i ≠ m.id := fun hm => (hc.commits (hhead hm.symm)).1 hp
    refine h.setCall (by simp) ?_ (by simpa using h.receiving) (Call.serves_afterMatch hc.toRemove)
    rw [(b.frame_commitDisconnect hm).subs]
    exact h.entry
  | closed =>
    have hm : i ≠ m.id := fun hm => (hc.commits (hhead hm.symm)).2 hp
    refine h.setCall (by simp) ?_ (by simpa using h.receiving) (Call.serves_afterMatch hc.toRemove)
    rw [(b.frame_remove hm).subs]
    exact h.entry

/-- The end of a call's loop keeps a subscription attached. -/
theorem Attached.finishLoop {c : Call δ} (h : b.Attached i) (hc : c.Serves i) :
    (b.finishLoop k c).Attached i := by
  have hview : (c.toRemove.foldl reap b).view i = b.view i := by
    rw [view_foldl_reap, if_neg hc.toRemove]
  have hentry : (c.toRemove.foldl reap b).subs i = b.subs i := congrArg Local.entry hview
  refine h.setCall (calls_foldl_reap b c.toRemove) ?_ ?_ (Call.serves_afterMatch (by simp))
  · show ∃ sub, (c.toRemove.foldl reap b).subs i = some sub ∧ sub.remaining = none
    rw [hentry]
    exact h.entry
  · show ((c.toRemove.foldl reap b).mpsc i).rxAlive = true
    rw [mpsc_foldl_reap]
    exact h.receiving

omit [DecidableEq κ] in
/-- A lossless step of a call keeps a subscription attached. -/
theorem Attached.advance (h : b.Attached i) (hG : Lossless i b (.advance k))
    (hs : b.advance ops k = some b') : b'.Attached i := by
  obtain ⟨c, hk, hadv⟩ := advance_cases hs
  have hc := h.calls c (List.mem_of_getElem? hk)
  cases hadv with
  | tooLarge | fits | reject | evict => exact h.setCall rfl h.entry h.receiving (hc.phase (by simp))
  | record p _ hnext =>
    refine h.setCall rfl h.entry h.receiving (hc.phase ?_)
    split at hnext <;> simp [hnext]
  | acquire =>
    -- the call begins its loop with nothing to remove
    exact h.setCall rfl h.entry h.receiving ⟨hc.toRemove, by simp, by simp⟩
  | finish => exact h.finishLoop hc
  | send m rest hp hg =>
    exact h.sendMatch hc hg fun hm hpol => hG c hk hp m (by simp [hg]) hm hpol
  | permit m rest q _ _ _ hq =>
    refine h.setCall rfl h.entry (rxAlive_setMpsc h.receiving ?_) (hc.phase (by simp))
    rw [Mpsc.reserve_some hq]
  | awaitClosed m rest _ hg hgone =>
    -- a call that waits gives up only when the receiver is gone
    refine h.setCall rfl h.entry h.receiving (hc.other hg ?_ (by simp))
    rintro rfl
    exact hgone h.receiving
  | push m rest =>
    exact h.setCall rfl h.entry (rxAlive_setMpsc h.receiving rfl) (hc.phase (by simp))
  | commit m rest outcome hp hg => exact h.commitMatch hc hp hg
  | dropGuard m rest hp hg =>
    refine h.setCall (by simp) (entry_refundClaim h.entry) (by simpa using h.receiving)
      ⟨hc.toRemove, by simp [hp], fun _ => ?_⟩
    have h0 := hc.unwinding hp
    rw [Call.outstanding_cons hg] at h0
    exact Nat.eq_zero_of_add_eq_zero_right h0
  | unwound => exact h.setCall rfl h.entry h.receiving ⟨hc.toRemove, by simp, by simp⟩

/-- One iteration of the loop of a `publish` keeps an entry with a bounded channel. -/
theorem entry_visitEntry {c c₂ : Call δ} {b₂ : Bus δ τ} (hapi : c.api = .publish)
    (hout : ∀ sub, b.subs i = some sub → sub.outbound = .mpsc)
    (h : ∃ sub, b.subs i = some sub ∧ sub.remaining = none)
    (hv : b.visitEntry ops c j = (b₂, c₂)) :
    (∃ sub, b₂.subs i = some sub ∧ sub.remaining = none) ∧ b₂.mpsc = b.mpsc := by
  unfold visitEntry at hv
  split at hv
  · cases hv
    exact ⟨h, rfl⟩
  rename_i sub hsub
  split at hv
  · split at hv
    · -- a subscription with a channel is not a coalesce entry
      rename_i houtbound
      have hij : i ≠ j := by
        rintro rfl
        rw [hout sub hsub] at houtbound
        cases houtbound
      unfold coalesceEntry at hv
      dsimp only at hv
      split at hv <;> cases hv
      · exact ⟨by simpa [setSub, hij] using h, rfl⟩
      · exact ⟨h, rfl⟩
      · exact ⟨h, rfl⟩
      · exact ⟨h, rfl⟩
    · rename_i hapi'
      rw [hapi] at hapi'
      cases hapi'
    · unfold publishEntry at hv
      split at hv <;> cases hv
      · exact ⟨h, rfl⟩
      · -- a claim counts, and there is no limit to count against
        rename_i sub' hclaim
        refine ⟨?_, rfl⟩
        by_cases hij : i = j
        · subst hij
          obtain ⟨sub₀, hsub₀, hrem⟩ := h
          obtain rfl := Option.some.inj (hsub.symm.trans hsub₀)
          obtain ⟨rfl, -⟩ := SubscriptionInner.claim_some hclaim
          exact ⟨_, by simp [recordClaim, setSub]; rfl, by simp [hrem]⟩
        · simpa [recordClaim, setSub, hij] using h
  · cases hv
    exact ⟨h, rfl⟩

/-- **The subscription stays attached** while nothing is lost. -/
theorem Attached.step (h : b.Attached i) (hb : b.WellFormed) (hasync : b.AllAsync)
    {opts : SubscribeOpts} (hopts : (b.hist i).opts = some opts)
    (hmpsc : opts.slowConsumerPolicy.isMpsc = true) (hun : a ≠ .unsubscribe i)
    (hdrop : a ≠ .dropRx i) (hG : Lossless i b a) (hs : Bus.step ops b a = some b') :
    b'.Attached i := by
  -- the subscription has a channel, whatever the step
  have hout := hb.outbound_mpsc hopts hmpsc
  cases a with
  | subscribe topic sopts =>
    have hi : i ≠ b.nextId := (hb.lt_nextId_of_opts hopts).ne
    obtain rfl := step_subscribe hs
    refine ⟨?_, ?_, by rw [calls_subscribe]; exact h.calls⟩
    · unfold subscribe
      dsimp only
      split
      · simpa [setSub, hi] using h.entry
      · split
        · simpa [setSub, setMpsc, hi] using h.entry
        · exact h.entry
    · unfold subscribe
      dsimp only
      split
      · exact h.receiving
      · split
        · simpa [setSub, setMpsc, hi] using h.receiving
        · exact h.receiving
  | unsubscribe j =>
    have hij : i ≠ j := fun hij => hun (by rw [hij])
    obtain rfl := step_unsubscribe hs
    refine ⟨?_, by simpa using h.receiving, by simpa using h.calls⟩
    rw [(b.frame_reap hij).subs]
    exact h.entry
  | publish env =>
    obtain rfl := Option.some.inj hs
    exact ⟨h.entry, h.receiving, Party.forall_mem_concat rfl h.calls ⟨by simp, by simp, by simp⟩⟩
  | tryPublish env =>
    obtain rfl := Option.some.inj hs
    exact ⟨h.entry, h.receiving, Party.forall_mem_concat rfl h.calls ⟨by simp, by simp, by simp⟩⟩
  | advance k => exact h.advance hG hs
  | visit k j =>
    -- a visit marks no entry but a coalesce one
    obtain ⟨c, hk, hp, -, b₂, c₂, hentry, rfl⟩ := visit_cases hs
    have hc := h.calls c (List.mem_of_getElem? hk)
    have hapi : { c with todo := c.todo.erase j }.api = .publish :=
      hasync c (List.mem_of_getElem? hk)
    obtain ⟨hkept, hq⟩ := entry_visitEntry hapi hout h.entry hentry
    obtain ⟨hcalls, -, hphase, -, -, -, hremove⟩ := visitEntry_async hapi hentry
    have hphase : c₂.phase = .fanout := hphase.trans hp
    refine h.setCall hcalls hkept (by rw [hq]; exact h.receiving)
      ⟨fun hi => ?_, by simp [hphase], by simp [hphase]⟩
    rcases hremove i hi with hold | ⟨rfl, sub, hsub, hco⟩
    · exact hc.toRemove hold
    · rw [hout sub hsub] at hco
      cases hco
  | cancel k =>
    obtain ⟨c, hk, hcases⟩ := cancel_cases hs
    have hc := h.calls c (List.mem_of_getElem? hk)
    -- a call that is dropped here owed this subscription nothing
    have hunsent : ¬ c.Unsent i := hG c hk
    have h0 : c.phase ≠ .commit .delivered → c.outstanding i = 0 := by
      intro hp
      rw [Call.Unsent, Call.landed_eq_zero hp] at hunsent
      omega
    rcases hcases with ⟨hp, rfl⟩ | ⟨m, rest, hp, -, rfl⟩
    · exact h.setCall rfl h.entry h.receiving
        ⟨hc.toRemove, by simp, fun _ => h0 (by simp [hp])⟩
    · exact h.setCall rfl h.entry (rxAlive_setMpsc h.receiving rfl)
        ⟨hc.toRemove, by simp, fun _ => h0 (by simp [hp])⟩
  | recv j =>
    obtain ⟨env, hr⟩ := step_recv hs
    rcases recv_cases hr with ⟨q, hq, rfl⟩ | ⟨state, rfl⟩
    · exact ⟨h.entry, rxAlive_setMpsc h.receiving (Mpsc.recv_some hq).2.2, h.calls⟩
    · exact ⟨h.entry, h.receiving, h.calls⟩
  | dropRx j =>
    have hij : i ≠ j := fun hij => hdrop (by rw [hij])
    obtain rfl := Option.some.inj hs
    exact ⟨h.entry, by simpa [dropRx, setMpsc, hij] using h.receiving, h.calls⟩
  | withMaxEventSize limit =>
    obtain rfl := Option.some.inj hs
    exact ⟨h.entry, h.receiving, h.calls⟩

/-- A new subscription without a limit is attached. -/
theorem attached_subscribe (hb : b.WellFormed) (hr : b.RecordsOnce) {topic : τ}
    {opts : SubscribeOpts} (hlimit : opts.limit = none)
    (hmpsc : opts.slowConsumerPolicy.isMpsc = true)
    (hs : Bus.step ops b (.subscribe topic opts) = some b')
    (hsome : (b'.subs b.nextId).isSome = true) : b'.Attached b.nextId := by
  have hu := hb.untouched b.nextId (Nat.le_refl _)
  obtain rfl := step_subscribe hs
  refine ⟨?_, ?_, ?_⟩
  · -- the entry that the options make has no limit
    rcases subscribe_cases b topic opts hu with hnone | ⟨sub, hsub, rfl, -⟩
    · rw [hnone.subs] at hsome
      cases hsome
    · exact ⟨_, hsub, hlimit⟩
  · unfold subscribe at hsome ⊢
    dsimp only at hsome ⊢
    split at hsome
    · rename_i path hpol
      rw [hpol] at hmpsc
      cases hmpsc
    · split at hsome
      · rename_i hcap
        simp only [hcap, and_self, if_true]
        simp [setMpsc]
      · rw [hu.subs] at hsome
        cases hsome
  · -- no call knows the new id
    rw [calls_subscribe]
    intro c hc
    have h0 := (hu.calls c hc).1
    refine ⟨fun hi => absurd ((hr.known c hc).2 _ hi) (Nat.lt_irrefl _), fun hhead => ?_,
      fun _ => h0⟩
    obtain ⟨m, rest, hg, hm⟩ := Call.guards_of_head hhead
    rw [Call.outstanding_cons hg, hm, if_pos rfl] at h0
    omega

end Entry

/-! ### What is owed is enqueued -/

section Owed

variable {ops : BusOps δ τ κ} {b b' : Bus δ τ} {a : BusAction δ τ} {i : SubscriptionId}
  {e : EventEnvelope δ} {p : τ} {opts : SubscribeOpts}

omit [DecidableEq κ] in
/-- An envelope some call still owes stays owed while the calls keep. -/
theorem unsent_of_callsKeep (h : CallsKeep i b b')
    (hex : ∃ c ∈ b.calls, c.envelope = e ∧ c.Unsent i) :
    ∃ c ∈ b'.calls, c.envelope = e ∧ c.Unsent i := by
  cases h with
  | same hcalls => rwa [hcalls]
  | start api env hcalls =>
    obtain ⟨c, hc, hP⟩ := hex
    exact ⟨c, by rw [hcalls]; exact List.mem_append_left _ hc, hP⟩
  | move k c c' hk hcalls hkeeps =>
    rw [hcalls]
    refine Party.exists_mem_set hk hex fun hP => ⟨hkeeps.envelope.trans hP.1, ?_⟩
    rw [Call.Unsent, hkeeps.landed, hkeeps.outstanding]
    exact hP.2

omit [DecidableEq κ] in
/-- **A claim that is not used yet stays, or its envelope is enqueued.** -/
theorem unsent_of_effect (h : b.Attached i) (h' : b'.Attached i) (hb : b.WellFormed)
    (horderly : ∀ c ∈ b.calls, c.Orderly i) (hopts : (b.hist i).opts = some opts)
    (hpol : opts.slowConsumerPolicy ≠ .dropNewest) (heff : Effect i b a b')
    (hno : e ∉ (b'.mpsc i).enqueued) (hex : ∃ c ∈ b.calls, c.envelope = e ∧ c.Unsent i) :
    ∃ c ∈ b'.calls, c.envelope = e ∧ c.Unsent i := by
  obtain ⟨sub, hsub, -⟩ := h.entry
  obtain ⟨sub', hsub', -⟩ := h'.entry
  cases heff with
  -- the call that owes the envelope still owes it, unless this step is its delivery
  | quiet _ hc => exact unsent_of_callsKeep hc hex
  | claim k c c' _ _ hk hcalls _ _ _ _ _ _ _ henv ho hl =>
    rw [hcalls]
    refine Party.exists_mem_set hk hex fun hP => ⟨henv.trans hP.1, ?_⟩
    rw [Call.Unsent, hl, ho]
    exact Nat.lt_succ_of_lt hP.2
  | land k c c' hk hcalls _ _ _ hq =>
    rw [hcalls]
    refine Party.exists_mem_set hk hex fun hP => absurd ?_ hno
    -- the envelope came into the queue, against `hno`
    rw [hq, hP.1]
    exact List.mem_append_right _ List.mem_cons_self
  | delivered k c c' hk hcalls hsent =>
    rw [hcalls]
    refine Party.exists_mem_set hk hex fun hP => ?_
    -- a call has one guard at most for a subscription, so the delivered one was the envelope's
    have honce := (horderly c (List.mem_of_getElem? hk)).once
    have hun := hP.2
    rw [Call.Unsent, hsent] at hun
    omega
  | refund k c c' hk hcalls hun _ hcause =>
    have hc := List.mem_of_getElem? hk
    rw [hcalls]
    refine Party.exists_mem_set hk hex fun hP => ?_
    rcases hcause with hp | ⟨hp, hhead⟩ | hnone
    · have hpos := hP.2
      rw [Call.Unsent, (h.calls c hc).unwinding hp] at hpos
      omega
    · -- only `DropNewest` drops
      obtain ⟨m, rest, hg, hm⟩ := Call.guards_of_head hhead
      obtain ⟨opts', hopts', hmpol⟩ := hb.policies c hc m (by simp [hg])
      rw [hm] at hopts'
      obtain rfl := Option.some.inj (hopts.symm.trans hopts')
      have hdrop := hb.dropping c hc hp
      rw [hg] at hdrop
      exact absurd (hmpol.symm.trans (Option.some.inj hdrop)) hpol
    · rw [hsub] at hnone
      cases hnone
  | disconnect _ _ _ _ _ _ _ _ _ _ _ _ hs => rw [hs] at hsub'; cases hsub'
  | closed _ _ _ _ _ _ _ hg => rw [hg.subs] at hsub'; cases hsub'
  | removed hg => rw [hg.subs] at hsub'; cases hsub'
  | fired _ _ _ _ _ _ _ _ _ _ _ hc => exact unsent_of_callsKeep hc hex
  | coalesced _ _ _ _ _ _ _ _ hc => exact unsent_of_callsKeep hc hex

/-- **The visit of a matching entry claims it.** -/
theorem unsent_of_visit {c c₂ : Call δ} {b₂ : Bus δ τ} (h : b.Attached i)
    (hentry : ∀ sub, b.subs i = some sub → sub.topic = p ∧ sub.outbound = .mpsc)
    (hapi : c.api = .publish) (hp : c.phase = .fanout) (hm : ops.Matches p c.envelope)
    (hv : b.visitEntry ops c i = (b₂, c₂)) : c₂.envelope = c.envelope ∧ c₂.Unsent i := by
  obtain ⟨sub, hsub, hrem⟩ := h.entry
  obtain ⟨rfl, hout⟩ := hentry sub hsub
  obtain ⟨sub', hclaim⟩ : ∃ sub', sub.claim = some sub' := by simp [SubscriptionInner.claim, hrem]
  rw [visitEntry_of_match hsub hm] at hv
  simp only [offer, hout, hapi, publishEntry, hclaim] at hv
  cases hv
  refine ⟨rfl, ?_⟩
  rw [Call.Unsent, Call.landed_eq_zero (by simp [hp])]
  simp [Call.outstanding]

/-- One iteration of the loop of a `publish` leaves what its call owes, or claims it. -/
theorem owes_of_visit {c c₂ : Call δ} {b₂ : Bus δ τ} {j : SubscriptionId} (h : b.Attached i)
    (hentry : ∀ sub, b.subs i = some sub → sub.topic = p ∧ sub.outbound = .mpsc)
    (hapi : c.api = .publish) (hp : c.phase = .fanout) (hm : ops.Matches p c.envelope)
    (hv : b.visitEntry ops { c with todo := c.todo.erase j } j = (b₂, c₂)) (hc : c.Owes i) :
    c₂.Owes i := by
  have hapi' : { c with todo := c.todo.erase j }.api = .publish := hapi
  obtain ⟨-, -, hphase, htodo, -, hguards, -⟩ := visitEntry_async hapi' hv
  have hphase : c₂.phase = .fanout := hphase.trans hp
  rcases hc with ⟨-, hi⟩ | hun
  · -- the visit of its own entry makes the claim that it owed
    by_cases hij : j = i
    · subst hij
      exact .inr (unsent_of_visit (c := { c with todo := c.todo.erase j }) h hentry hapi hp hm hv).2
    · refine .inl ⟨hphase, ?_⟩
      rw [htodo]
      exact (List.mem_erase_of_ne (Ne.symm hij)).mpr hi
  · -- a loop adds to the claims of its call
    have hle : c.outstanding i ≤ c₂.outstanding i := by
      rcases hguards with hg | ⟨policy, hg⟩
      · exact le_of_eq (by rw [Call.outstanding, Call.outstanding, hg])
      · simp [Call.outstanding, hg]
    rw [Call.Unsent, Call.landed_eq_zero (by simp [hp])] at hun
    exact .inr (by rw [Call.Unsent, Call.landed_eq_zero (by simp [hphase])]; omega)

/-- A loop that has `i` ahead of it moves by visits only. -/
theorem ahead_of_step (hvisit : ∀ k j, a ≠ .visit k j) (hs : Bus.step ops b a = some b')
    (hex : ∃ c ∈ b.calls, c.envelope = e ∧ c.phase = .fanout ∧ i ∈ c.todo) :
    ∃ c ∈ b'.calls, c.envelope = e ∧ c.phase = .fanout ∧ i ∈ c.todo := by
  have happend : ∀ {d : Call δ}, b'.calls = b.calls ++ [d] →
      ∃ c ∈ b'.calls, c.envelope = e ∧ c.phase = .fanout ∧ i ∈ c.todo := by
    intro d hcalls
    obtain ⟨c, hc, hP⟩ := hex
    exact ⟨c, by rw [hcalls]; exact List.mem_append_left _ hc, hP⟩
  have hsame : b'.calls = b.calls →
      ∃ c ∈ b'.calls, c.envelope = e ∧ c.phase = .fanout ∧ i ∈ c.todo := fun hcalls => by
    rwa [hcalls]
  cases a with
  | subscribe topic sopts =>
    obtain rfl := step_subscribe hs
    exact hsame (calls_subscribe b topic sopts)
  | unsubscribe j =>
    obtain rfl := step_unsubscribe hs
    exact hsame (b.calls_reap j)
  | publish env => obtain rfl := Option.some.inj hs; exact happend rfl
  | tryPublish env => obtain rfl := Option.some.inj hs; exact happend rfl
  | advance k =>
    obtain ⟨c, c', hk, hcalls, -⟩ := next_of_advance hs
    rw [hcalls]
    refine Party.exists_mem_set hk hex ?_
    -- a call in its loop can step only when it has nothing left to visit
    rintro ⟨-, hp, hi⟩
    rw [todo_of_advance hk hp hs] at hi
    cases hi
  | visit k j => exact absurd rfl (hvisit k j)
  | cancel k =>
    obtain ⟨c, hk, ⟨hp, rfl⟩ | ⟨m, rest, hp, -, rfl⟩⟩ := cancel_cases hs
    · exact Party.exists_mem_set hk hex fun hP => by rw [hp] at hP; cases hP.2.1
    · exact Party.exists_mem_set hk hex fun hP => by rw [hp] at hP; cases hP.2.1
  | recv j =>
    obtain ⟨env, hr⟩ := step_recv hs
    exact hsame (frame_recv (i := j) hr).2
  | dropRx j => obtain rfl := Option.some.inj hs; exact hsame rfl
  | withMaxEventSize limit => obtain rfl := Option.some.inj hs; exact hsame rfl

/-- **What is owed to an attached subscription stays owed until it is enqueued.** -/
theorem owes_of_step (h : b.Attached i) (h' : b'.Attached i) (hb : b.WellFormed)
    (hb₁ : b.RecordsOnce) (ht : b.OnTopic ops i p) (hopts : (b.hist i).opts = some opts)
    (hmpsc : opts.slowConsumerPolicy.isMpsc = true)
    (hpol : opts.slowConsumerPolicy ≠ .dropNewest) (hm : ops.Matches p e)
    (hs : Bus.step ops b a = some b') (hno : e ∉ (b'.mpsc i).enqueued)
    (hex : ∃ c ∈ b.calls, c.envelope = e ∧ c.Owes i) :
    ∃ c ∈ b'.calls, c.envelope = e ∧ c.Owes i := by
  have heff : Effect i b a b' := (ht.effect hs).resolve_right hb₁.async.not_direct
  -- only a visit moves an entry out of `todo`, and it then claims
  by_cases hvisit : ∃ k j, a = .visit k j
  · obtain ⟨k, j, rfl⟩ := hvisit
    obtain ⟨c, hk, hp, -, b₂, c₂, hentry, rfl⟩ := visit_cases hs
    have hapi : c.api = .publish := hb₁.async c (List.mem_of_getElem? hk)
    have hapi' : { c with todo := c.todo.erase j }.api = .publish := hapi
    obtain ⟨hcalls, -, -, -, henv, -⟩ := visitEntry_async hapi' hentry
    rw [calls_setCall_of hcalls]
    refine Party.exists_mem_set hk hex ?_
    rintro ⟨rfl, howes⟩
    exact ⟨henv, owes_of_visit h
      (fun sub hsub => ⟨ht.entry sub hsub, hb.outbound_mpsc hopts hmpsc sub hsub⟩) hapi hp hm hentry
      howes⟩
  · push Not at hvisit
    obtain ⟨c, hc, henv, hfan | hun⟩ := hex
    · -- what is still to be visited stays so, and what is claimed and not sent stays so
      obtain ⟨c', hc', henv', hfan'⟩ := ahead_of_step hvisit hs ⟨c, hc, henv, hfan⟩
      exact ⟨c', hc', henv', .inl hfan'⟩
    · obtain ⟨c', hc', henv', hun'⟩ := unsent_of_effect h h' hb (hb₁.orderly i) hopts hpol heff hno
        ⟨c, hc, henv, hun⟩
      exact ⟨c', hc', henv', .inr hun'⟩

end Owed

/-! ### The feed of a subscription -/

/-- The queue of subscription `i`, which has the pattern `p` and the options `opts`, is fed with
matching envelopes, none of them twice. -/
structure Feeds (b : Bus δ τ) (ops : BusOps δ τ κ) (i : SubscriptionId) (p : τ)
    (opts : SubscribeOpts) : Prop where
  onTopic : b.OnTopic ops i p
  opts : (b.hist i).opts = some opts
  once : b.EnqueuesOnce i

/-- The subscription is attached, and what it was offered was enqueued or is owed to it. -/
structure FeedsAll (b : Bus δ τ) (ops : BusOps δ τ κ) (i : SubscriptionId) (p : τ)
    (offered : List (EventEnvelope δ)) : Prop where
  attached : b.Attached i
  owed : ∀ e ∈ offered, ops.Matches p e →
    e ∈ (b.mpsc i).enqueued ∨ ∃ c ∈ b.calls, c.envelope = e ∧ c.Owes i

section Feed

variable {ops : BusOps δ τ κ} {b b' : Bus δ τ} {a : BusAction δ τ} {i : SubscriptionId} {p : τ}
  {opts : SubscribeOpts} {offered : List (EventEnvelope δ)} {k : ℕ}

theorem Feeds.effect (h : b.Feeds ops i p opts) (hr : b.RecordsOnce)
    (hs : Bus.step ops b a = some b') : Effect i b a b' :=
  (h.onTopic.effect hs).resolve_right hr.async.not_direct

theorem Feeds.step (h : b.Feeds ops i p opts) (hb : b.WellFormed) (hr : b.RecordsOnce)
    (hr' : b'.RecordsOnce) (ha : ∀ env, a ≠ .tryPublish env) (hs : Bus.step ops b a = some b') :
    b'.Feeds ops i p opts where
  onTopic := h.onTopic.step hs
  opts := hb.opts_step h.opts hs
  once := h.once.step hr hr' ha (h.effect hr hs) hs

/-- What was enqueued stays enqueued. -/
theorem Feeds.enqueued_step (h : b.Feeds ops i p opts) (hr : b.RecordsOnce)
    (hs : Bus.step ops b a = some b') {e : EventEnvelope δ} (he : e ∈ (b.mpsc i).enqueued) :
    e ∈ (b'.mpsc i).enqueued := by
  rcases enqueued_of_effect (h.effect hr hs) with heq | ⟨_, _, _, _, _, heq, _⟩
  · rwa [heq]
  · rw [heq]
    exact List.mem_append_left _ he

/-- **What is offered reaches the queue** or stays owed. -/
theorem FeedsAll.step (h : b.FeedsAll ops i p offered) (hf : b.Feeds ops i p opts)
    (hb : b.WellFormed) (hr : b.RecordsOnce) (hmpsc : opts.slowConsumerPolicy.isMpsc = true)
    (hpol : opts.slowConsumerPolicy ≠ .dropNewest) (hun : a ≠ .unsubscribe i)
    (hdrop : a ≠ .dropRx i) (hG : Lossless i b a) (hs : Bus.step ops b a = some b') :
    b'.FeedsAll ops i p offered := by
  have hattached := h.attached.step hb hr.async hf.opts hmpsc hun hdrop hG hs
  refine ⟨hattached, fun e he hm => ?_⟩
  rcases h.owed e he hm with henq | howes
  · exact .inl (hf.enqueued_step hr hs henq)
  · by_cases hno : e ∈ (b'.mpsc i).enqueued
    · exact .inl hno
    · exact .inr (owes_of_step h.attached hattached hb hr hf.onTopic hf.opts hmpsc hpol hm hs hno
        howes)

omit [DecidableEq κ] in
/-- A loop that starts owes its envelope. -/
theorem FeedsAll.acquire (h : b'.FeedsAll ops i p offered) (hattached : b.Attached i)
    (hcreated : i < b.nextId) {c : Call δ} (hk : b.calls[k]? = some c) (hp : c.phase = .acquire)
    (hs : b.advance ops k = some b') : b'.FeedsAll ops i p (offered ++ [c.envelope]) := by
  refine ⟨h.attached, fun e he hm => ?_⟩
  rcases List.mem_append.mp he with he | he
  · exact h.owed e he hm
  · obtain rfl := List.mem_singleton.mp he
    obtain ⟨sub, hsub, -⟩ := hattached.entry
    obtain ⟨c', hk', hp', henv, hi⟩ := mem_todo_of_acquire hk hp hs hcreated hsub
    exact .inr ⟨c', List.mem_of_getElem? hk', henv, .inl ⟨hp', hi⟩⟩

omit [DecidableEq κ] in
/-- **When no publish is in progress, all that was offered was enqueued.** -/
theorem FeedsAll.enqueued_of_idle (h : b.FeedsAll ops i p offered) (hr : b.RecordsOnce)
    (hidle : b.Idle) {e : EventEnvelope δ} (he : e ∈ offered) (hm : ops.Matches p e) :
    e ∈ (b.mpsc i).enqueued := by
  rcases h.owed e he hm with henq | ⟨c, hc, -, ⟨hp, -⟩ | hun⟩
  · exact henq
  · have hended := hidle c hc
    rw [hp] at hended
    cases hended
  · have h0 := (hr.orderly i c hc).ended (hidle c hc)
    rw [Call.Unsent, h0] at hun
    cases hun

/-- A new subscription has been fed nothing. -/
theorem feeds_subscribe (hb : b.WellFormed) (hq : b.FreshQueues)
    (hs : Bus.step ops b (.subscribe p opts) = some b')
    (hsome : (b'.subs b.nextId).isSome = true) : b'.Feeds ops b.nextId p opts ∧
      (b'.mpsc b.nextId).enqueued = [] := by
  have htopic := onTopic_subscribe hb hq hs hsome
  obtain rfl := step_subscribe hs
  rcases subscribe_cases b p opts (hb.untouched b.nextId (Nat.le_refl _)) with
    hnone | ⟨sub, -, -, hhist, -, henq⟩
  · rw [hnone.subs] at hsome
    cases hsome
  · refine ⟨⟨htopic, by rw [hhist], ?_, ?_⟩, henq⟩
    · rw [henq]
      exact fun e he => absurd he List.not_mem_nil
    · rw [henq]
      exact List.nodup_nil

end Feed

end Bus

end Boardwalk
