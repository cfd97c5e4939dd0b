import Boardwalk.Events.Spec.Effect
import Boardwalk.Lib.Party

/-!
# Invariants of the bus

What holds in every reachable state, whatever the publishers and consumers do.  Ids that were not
handed out yet are untouched; an entry of the map, and a match a call holds, agree with the options
the subscription was created with; a call that holds a claim also holds a clone of the sender it
will use.  `WellFormed` collects these facts, and `wellFormed_step` keeps them: subscription by
subscription from the list of effects, and call by call from `CallsNext`, the list of what a step
can do to the calls.
-/

namespace Boardwalk

namespace Bus

variable {δ τ κ : Type} [DecidableEq κ]

/-! ### Ids -/

section NextId

variable (b : Bus δ τ) (i : SubscriptionId)

@[simp] theorem nextId_remove : (b.remove i).nextId = b.nextId := by
  unfold remove; split <;> rfl

@[simp] theorem nextId_reap : (b.reap i).nextId = b.nextId := by
  unfold reap; split <;> simp

@[simp] theorem nextId_foldl_reap (l : List SubscriptionId) :
    (l.foldl reap b).nextId = b.nextId := by
  induction l generalizing b with
  | nil => rfl
  | cons j l ih => rw [List.foldl_cons, ih, nextId_reap]

@[simp] theorem nextId_fireNotice (sub : SubscriptionInner τ) :
    (b.fireNotice i sub).nextId = b.nextId := by
  unfold fireNotice; split <;> rfl

@[simp] theorem nextId_commitDelivered (env : EventEnvelope δ) :
    (b.commitDelivered i env).nextId = b.nextId := by
  unfold commitDelivered
  split
  · rfl
  · dsimp only
    split
    · rw [nextId_remove]; rfl
    · rfl

@[simp] theorem nextId_refundClaim : (b.refundClaim i).nextId = b.nextId := by
  unfold refundClaim; split <;> rfl

@[simp] theorem nextId_commitDisconnect : (b.commitDisconnect i).nextId = b.nextId := by
  unfold commitDisconnect; split <;> simp

theorem nextId_subscribe (topic : τ) (opts : SubscribeOpts) :
    (b.subscribe topic opts).nextId = b.nextId + 1 := by
  unfold subscribe
  dsimp only
  split
  · rfl
  · split <;> rfl

end NextId

/-! ### What the consumer has taken -/

section Received

variable (b : Bus δ τ) (i : SubscriptionId)

@[simp] theorem mpsc_remove : (b.remove i).mpsc = b.mpsc := by
  unfold remove; split <;> rfl

@[simp] theorem mpsc_reap : (b.reap i).mpsc = b.mpsc := by
  unfold reap; split <;> simp

@[simp] theorem mpsc_foldl_reap (l : List SubscriptionId) : (l.foldl reap b).mpsc = b.mpsc := by
  induction l generalizing b with
  | nil => rfl
  | cons j l ih => rw [List.foldl_cons, ih, mpsc_reap]

@[simp] theorem mpsc_fireNotice (sub : SubscriptionInner τ) :
    (b.fireNotice i sub).mpsc = b.mpsc := by
  unfold fireNotice; split <;> rfl

@[simp] theorem mpsc_commitDelivered (env : EventEnvelope δ) :
    (b.commitDelivered i env).mpsc = b.mpsc := by
  unfold commitDelivered
  split
  · rfl
  · dsimp only
    split
    · rw [mpsc_remove]; rfl
    · rfl

@[simp] theorem mpsc_refundClaim : (b.refundClaim i).mpsc = b.mpsc := by
  unfold refundClaim; split <;> rfl

@[simp] theorem mpsc_commitDisconnect : (b.commitDisconnect i).mpsc = b.mpsc := by
  unfold commitDisconnect; split <;> simp

theorem received_setMpsc {j : SubscriptionId} {q : Mpsc (EventEnvelope δ)}
    (h : q.received = (b.mpsc j).received) :
    ((b.setMpsc j q).mpsc i).received = (b.mpsc i).received := by
  by_cases hij : i = j
  · subst hij; simpa [setMpsc] using h
  · simp [setMpsc, hij]

theorem received_sendMatch (k : ℕ) (c : Call δ) (m : Match) :
    ((b.sendMatch k c m).mpsc i).received = (b.mpsc i).received := by
  unfold sendMatch
  split
  · rename_i q hq
    exact received_setMpsc b i (by rw [Mpsc.trySend_ok hq]; rfl)
  · rfl
  · split <;> rfl

theorem mpsc_commitMatch (k : ℕ) (c : Call δ) (m : Match) (rest : List Match) (o : SendResult) :
    (b.commitMatch k c m rest o).mpsc = b.mpsc := by
  cases o <;> simp [commitMatch, setCall, recordCommit]

end Received

/-- **One iteration of a loop**: nobody receives, no call moves, and the call whose loop it is may
gain a match with the policy of the entry it visits. -/
theorem visitEntry_call {ops : BusOps δ τ κ} {b b₂ : Bus δ τ} {c c₂ : Call δ} {j : SubscriptionId}
    (h : b.visitEntry ops c j = (b₂, c₂)) :
    b₂.nextId = b.nextId ∧ b₂.calls = b.calls ∧
      (∀ i, (b₂.mpsc i).received = (b.mpsc i).received) ∧ c₂.api = c.api ∧
      (c₂.phase = c.phase ∨ c₂.phase = .panicked) ∧
      (c₂.guards = c.guards ∨ ∃ sub, b.subs j = some sub ∧
        c₂.guards = c.guards ++ [{ id := j, slowConsumerPolicy := sub.slowConsumerPolicy }]) := by
  unfold visitEntry at h
  split at h
  · cases h
    exact ⟨rfl, rfl, fun _ => rfl, rfl, .inl rfl, .inl rfl⟩
  rename_i sub hsub
  -- a matching entry; the three ways to serve it leave the calls of the bus alone
  split at h
  · split at h
    · unfold coalesceEntry at h
      dsimp only at h
      split at h <;> cases h <;> exact ⟨rfl, rfl, fun _ => rfl, rfl, .inl rfl, .inl rfl⟩
    · unfold tryPublishEntry at h
      split at h
      · rename_i q hq
        cases h
        have hrec : q.received = (b.mpsc j).received := by rw [Mpsc.trySend_ok hq]; rfl
        exact ⟨rfl, rfl, fun i => received_setMpsc b i hrec, rfl, .inl rfl, .inl rfl⟩
      · split at h <;> cases h
        · exact ⟨by simp, by simp, by simp, rfl, .inl rfl, .inl rfl⟩
        · exact ⟨rfl, rfl, fun _ => rfl, rfl, .inl rfl, .inl rfl⟩
        · exact ⟨rfl, rfl, fun _ => rfl, rfl, .inl rfl, .inl rfl⟩
        · -- the branch the source marks unreachable
          exact ⟨rfl, rfl, fun _ => rfl, rfl, .inr rfl, .inl rfl⟩
      · cases h
        exact ⟨rfl, rfl, fun _ => rfl, rfl, .inl rfl, .inl rfl⟩
    · unfold publishEntry at h
      split at h <;> cases h
      · exact ⟨rfl, rfl, fun _ => rfl, rfl, .inl rfl, .inl rfl⟩
      · exact ⟨rfl, rfl, fun _ => rfl, rfl, .inl rfl, .inr ⟨sub, hsub, rfl⟩⟩
  · cases h
    exact ⟨rfl, rfl, fun _ => rfl, rfl, .inl rfl, .inl rfl⟩

omit [DecidableEq κ] in
theorem received_advance {ops : BusOps δ τ κ} {b b' : Bus δ τ} {k : ℕ} (i : SubscriptionId)
    (hs : b.advance ops k = some b') : (b'.mpsc i).received = (b.mpsc i).received := by
  obtain ⟨c, -, hadv⟩ := advance_cases hs
  cases hadv with
  | tooLarge | fits | reject | record | evict | acquire | awaitClosed | unwound => rfl
  | finish => simp [finishLoop, setCall]
  | send m => exact received_sendMatch b i k c m
  | permit m rest q _ _ _ hq => exact received_setMpsc b i (by rw [Mpsc.reserve_some hq])
  | push m => exact received_setMpsc b i rfl
  | commit => rw [mpsc_commitMatch]
  | dropGuard => simp [setCall]

/-- **Only the consumer of `i` takes from its queue.** -/
theorem received_of_step {ops : BusOps δ τ κ} {b b' : Bus δ τ} {a : BusAction δ τ}
    {i : SubscriptionId} (hi : i ≠ b.nextId) (ha : a ≠ .recv i) (hs : step ops b a = some b') :
    (b'.mpsc i).received = (b.mpsc i).received := by
  -- only `recv` of the subscription itself takes from its queue
  cases a with
  | subscribe topic opts =>
    obtain rfl := step_subscribe hs
    unfold subscribe
    dsimp only
    split
    · rfl
    · split
      · simp [setMpsc, setSub, hi]
      · rfl
  | unsubscribe j =>
    obtain rfl := step_unsubscribe hs
    rw [mpsc_reap]
  | publish env => obtain rfl := Option.some.inj hs; rfl
  | tryPublish env => obtain rfl := Option.some.inj hs; rfl
  | advance k => exact received_advance i hs
  | visit k j =>
    obtain ⟨c, -, -, -, b₂, c₂, hentry, rfl⟩ := visit_cases hs
    obtain ⟨-, -, hrec, -⟩ := visitEntry_call hentry
    exact hrec i
  | cancel k =>
    obtain ⟨c, -, ⟨-, rfl⟩ | ⟨m, rest, -, -, rfl⟩⟩ := cancel_cases hs
    · rfl
    · exact received_setMpsc b i rfl
  | recv j =>
    have hij : i ≠ j := fun h => ha (h ▸ rfl)
    obtain ⟨env, hr⟩ := step_recv hs
    rcases recv_cases hr with ⟨q, -, rfl⟩ | ⟨state, rfl⟩
    · simp [setMpsc, hij]
    · rfl
  | dropRx j =>
    obtain rfl := Option.some.inj hs
    exact received_setMpsc b i rfl
  | withMaxEventSize limit => obtain rfl := Option.some.inj hs; rfl

/-! ### What a step does to the call that takes it -/

end Bus

/-- How a call can change when it advances: it resolves guards from the front, and it decides on
`Dropped` only for a `DropNewest` match. -/
structure Call.Advances {δ : Type} (c c' : Call δ) : Prop where
  api : c'.api = c.api
  guards : c'.guards <:+ c.guards
  dropping : c'.phase = .commit .dropped →
    c'.guards.head?.map (·.slowConsumerPolicy) = some .dropNewest
  unwinding : c'.phase = .unwind → c.phase = .unwind

namespace Bus

variable {δ τ κ : Type} [DecidableEq κ]

section Advance

variable {b b' : Bus δ τ} {k : ℕ} {c : Call δ}

theorem advances_phase {p : Phase} (hd : p ≠ .commit .dropped) (hu : p ≠ .unwind) :
    c.Advances { c with phase := p } :=
  ⟨rfl, List.suffix_rfl, fun h => absurd h hd, fun h => absurd h hu⟩

theorem advances_afterMatch {c' : Call δ} {gs : List Match} (hapi : c'.api = c.api)
    (hg : gs <:+ c.guards) : c.Advances (afterMatch c' gs) := by
  cases gs with
  | nil => exact ⟨hapi, hg, by simp [afterMatch], by simp [afterMatch]⟩
  | cons m gs => exact ⟨hapi, hg, by simp [afterMatch], by simp [afterMatch]⟩

/-- The bus after an operation of call `k`, as far as the calls and the ids go. -/
def Moved (b : Bus δ τ) (k : ℕ) (c : Call δ) (b' : Bus δ τ) : Prop :=
  b'.nextId = b.nextId ∧ ∃ c', b'.calls = b.calls.set k c' ∧ c.Advances c'

theorem moved_setCall {b₁ : Bus δ τ} {c' : Call δ} (hn : b₁.nextId = b.nextId)
    (hc : b₁.calls = b.calls) (h : c.Advances c') : Moved b k c (b₁.setCall k c') :=
  ⟨hn, c', by simp [setCall, hc], h⟩

/-- Handing a match on moves only its own call and its own subscription. -/
theorem moved_sendMatch {m : Match} {rest : List Match} (hg : c.guards = m :: rest) :
    Moved b k c (b.sendMatch k c m) := by
  unfold sendMatch
  split
  · exact moved_setCall rfl rfl (advances_phase (by simp) (by simp))
  · exact moved_setCall rfl rfl (advances_phase (by simp) (by simp))
  · split
    · exact moved_setCall rfl rfl (advances_phase (by simp) (by simp))
    · rename_i hpolicy
      refine moved_setCall rfl rfl ⟨rfl, List.suffix_rfl, fun _ => ?_, by simp⟩
      simp [hg, hpolicy]
    · exact moved_setCall rfl rfl (advances_phase (by simp) (by simp))
    · exact moved_setCall rfl rfl (advances_phase (by simp) (by simp))

theorem moved_commitMatch {m : Match} {rest : List Match} (hg : c.guards = m :: rest)
    (o : SendResult) : Moved b k c (b.commitMatch k c m rest o) := by
  have hsuf : rest <:+ c.guards := hg ▸ List.suffix_cons m rest
  cases o with
  | delivered =>
    exact moved_setCall (by simp [recordCommit]) (by simp [recordCommit])
      (advances_afterMatch rfl hsuf)
  | dropped => exact moved_setCall (by simp) (by simp) (advances_afterMatch rfl hsuf)
  | disconnectSlowConsumer => exact moved_setCall (by simp) (by simp) (advances_afterMatch rfl hsuf)
  | closed => exact moved_setCall (by simp) (by simp) (advances_afterMatch rfl hsuf)

omit [DecidableEq κ] in
/-- A step of a call moves that call only. -/
theorem moved_advance {ops : BusOps δ τ κ} (hs : b.advance ops k = some b') :
    ∃ c, b.calls[k]? = some c ∧ Moved b k c b' := by
  obtain ⟨c, hk, hadv⟩ := advance_cases hs
  refine ⟨c, hk, ?_⟩
  cases hadv with
  | tooLarge | fits | reject | evict | permit | awaitClosed | push =>
    exact moved_setCall rfl rfl (advances_phase (by simp) (by simp))
  | record p _ hnext =>
    refine moved_setCall rfl rfl (advances_phase ?_ ?_) <;> rw [hnext] <;> split <;> simp
  | acquire => exact moved_setCall rfl rfl ⟨rfl, List.suffix_rfl, by simp, by simp⟩
  | finish =>
    exact moved_setCall (by simp) (by simp) (advances_afterMatch rfl List.suffix_rfl)
  | send m rest _ hg => exact moved_sendMatch hg
  | commit m rest outcome _ hg => exact moved_commitMatch hg outcome
  | dropGuard m rest hp hg =>
    exact moved_setCall (by simp) (by simp)
      ⟨rfl, hg ▸ List.suffix_cons m rest, by simp [hp], fun _ => hp⟩
  | unwound => exact moved_setCall rfl rfl ⟨rfl, List.suffix_rfl, by simp, by simp⟩

theorem moved_cancel (hs : b.cancel k = some b') : ∃ c c', b.calls[k]? = some c ∧
    b'.nextId = b.nextId ∧ b'.calls = b.calls.set k c' ∧ c'.api = c.api ∧ c'.guards = c.guards ∧
    c'.phase = .unwind := by
  obtain ⟨c, hk, ⟨-, rfl⟩ | ⟨m, rest, -, -, rfl⟩⟩ := cancel_cases hs
  · exact ⟨c, _, hk, rfl, rfl, rfl, rfl, rfl⟩
  · exact ⟨c, _, hk, rfl, rfl, rfl, rfl, rfl⟩

theorem moved_visit {ops : BusOps δ τ κ} {j : SubscriptionId} (hs : b.visit ops k j = some b') :
    ∃ c c', b.calls[k]? = some c ∧ b'.nextId = b.nextId ∧ b'.calls = b.calls.set k c' ∧
      c'.api = c.api ∧ (c'.phase = c.phase ∨ c'.phase = .panicked) ∧ c.phase = .fanout ∧
      (c'.guards = c.guards ∨ ∃ sub, b.subs j = some sub ∧
        c'.guards = c.guards ++ [{ id := j, slowConsumerPolicy := sub.slowConsumerPolicy }]) := by
  obtain ⟨c, hk, hp, -, b₂, c₂, hentry, rfl⟩ := visit_cases hs
  obtain ⟨hnext, hcalls, -, hapi, hphase, hguards⟩ := visitEntry_call hentry
  exact ⟨c, c₂, hk, hnext, by simp [setCall, hcalls], hapi, hphase, hp, hguards⟩

end Advance

/-- Only `subscribe` hands out ids. -/
theorem nextId_of_step {ops : BusOps δ τ κ} {b b' : Bus δ τ} {a : BusAction δ τ}
    (hs : step ops b a = some b') :
    b'.nextId = b.nextId ∨
      ∃ topic opts, a = .subscribe topic opts ∧ b' = b.subscribe topic opts := by
  cases a with
  | subscribe topic opts => exact .inr ⟨topic, opts, rfl, step_subscribe hs⟩
  | unsubscribe j =>
    obtain rfl := step_unsubscribe hs
    exact .inl (b.nextId_reap j)
  | publish env => obtain rfl := Option.some.inj hs; exact .inl rfl
  | tryPublish env => obtain rfl := Option.some.inj hs; exact .inl rfl
  | advance k =>
    obtain ⟨c, -, hnext, -⟩ := moved_advance hs
    exact .inl hnext
  | visit k j =>
    obtain ⟨c, c', -, hnext, -⟩ := moved_visit hs
    exact .inl hnext
  | cancel k =>
    obtain ⟨c, c', -, hnext, -⟩ := moved_cancel hs
    exact .inl hnext
  | recv j =>
    obtain ⟨env, hr⟩ := step_recv hs
    rcases recv_cases hr with ⟨q, -, rfl⟩ | ⟨state, rfl⟩
    · exact .inl rfl
    · exact .inl rfl
  | dropRx j => obtain rfl := Option.some.inj hs; exact .inl rfl
  | withMaxEventSize limit => obtain rfl := Option.some.inj hs; exact .inl rfl

theorem calls_subscribe (b : Bus δ τ) (topic : τ) (opts : SubscribeOpts) :
    (b.subscribe topic opts).calls = b.calls := by
  unfold subscribe
  dsimp only
  split
  · rfl
  · split <;> rfl

/-- What a step does to the calls. -/
inductive CallsNext (b : Bus δ τ) (a : BusAction δ τ) (b' : Bus δ τ) : Prop where
  | same (calls : b'.calls = b.calls)
  | publish (env : EventEnvelope δ) (action : a = .publish env)
      (calls : b'.calls = b.calls ++ [{ api := .publish, envelope := env }])
  | tryPublish (env : EventEnvelope δ) (action : a = .tryPublish env)
      (calls : b'.calls = b.calls ++ [{ api := .tryPublish, envelope := env }])
  | advance (k : ℕ) (c c' : Call δ) (at_k : b.calls[k]? = some c)
      (calls : b'.calls = b.calls.set k c') (advances : c.Advances c')
  | visit (k : ℕ) (j : SubscriptionId) (c c' : Call δ) (at_k : b.calls[k]? = some c)
      (calls : b'.calls = b.calls.set k c') (api : c'.api = c.api)
      (phase : c'.phase = .fanout ∨ c'.phase = .panicked)
      (guards : c'.guards = c.guards ∨ ∃ sub, b.subs j = some sub ∧
        c'.guards = c.guards ++ [{ id := j, slowConsumerPolicy := sub.slowConsumerPolicy }])
  | cancel (k : ℕ) (c c' : Call δ) (action : a = .cancel k) (at_k : b.calls[k]? = some c)
      (calls : b'.calls = b.calls.set k c') (api : c'.api = c.api)
      (guards : c'.guards = c.guards) (phase : c'.phase = .unwind)

/-- Every action leaves each call in place, steps one call, or starts one. -/
theorem callsNext_of_step {ops : BusOps δ τ κ} {b b' : Bus δ τ} {a : BusAction δ τ}
    (hs : step ops b a = some b') : CallsNext b a b' := by
  -- each action moves one call at most, or begins one
  cases a with
  | subscribe topic opts =>
    obtain rfl := step_subscribe hs
    exact .same (calls_subscribe b topic opts)
  | unsubscribe j =>
    obtain rfl := step_unsubscribe hs
    exact .same (b.calls_reap j)
  | publish env => obtain rfl := Option.some.inj hs; exact .publish env rfl rfl
  | tryPublish env => obtain rfl := Option.some.inj hs; exact .tryPublish env rfl rfl
  | advance k =>
    obtain ⟨c, hk, -, c', hcalls, hadv⟩ := moved_advance hs
    exact .advance k c c' hk hcalls hadv
  | visit k j =>
    obtain ⟨c, c', hk, -, hcalls, hapi, hphase, hfan, hguards⟩ := moved_visit hs
    exact .visit k j c c' hk hcalls hapi (hfan ▸ hphase) hguards
  | cancel k =>
    obtain ⟨c, c', hk, -, hcalls, hapi, hguards, hphase⟩ := moved_cancel hs
    exact .cancel k c c' rfl hk hcalls hapi hguards hphase
  | recv j =>
    obtain ⟨env, hr⟩ := step_recv hs
    exact .same (frame_recv (i := j) hr).2
  | dropRx j => obtain rfl := Option.some.inj hs; exact .same rfl
  | withMaxEventSize limit => obtain rfl := Option.some.inj hs; exact .same rfl

/-! ### Well-formed states -/

/-- Nothing has happened to `i`. -/
structure Untouched (i : SubscriptionId) (b : Bus δ τ) : Prop where
  subs : b.subs i = none
  notify : b.notify i = .pending
  hist : b.hist i = {}
  enqueued : (b.mpsc i).enqueued = []
  calls : ∀ c ∈ b.calls, c.outstanding i = 0 ∧ c.holdsSender i = false

end Bus

/-- The parts of an entry that the options of its subscription fix. -/
structure SubscriptionInner.Fits {τ : Type} (sub : SubscriptionInner τ) (opts : SubscribeOpts) :
    Prop where
  outbound : sub.outbound = opts.slowConsumerPolicy.outbound
  policy : sub.slowConsumerPolicy = opts.slowConsumerPolicy
  limited : sub.remaining.isSome = opts.limit.isSome

namespace SubscriptionInner

variable {τ : Type} {sub sub' : SubscriptionInner τ} {opts : SubscribeOpts}

theorem claim_some (h : sub.claim = some sub') :
    sub' = { sub with remaining := sub.remaining.map (· - 1), inFlight := sub.inFlight + 1 } ∧
      sub.remaining ≠ some 0 := by
  unfold claim at h
  split at h
  · cases h
  · rename_i hne
    exact ⟨(Option.some.inj h).symm, hne⟩

theorem Fits.claim (hf : sub.Fits opts) (h : sub.claim = some sub') : sub'.Fits opts := by
  obtain ⟨rfl, -⟩ := claim_some h
  exact ⟨hf.outbound, hf.policy, by simpa using hf.limited⟩

theorem Fits.refund (hf : sub.Fits opts) : sub.refund.Fits opts :=
  ⟨hf.outbound, hf.policy, by simpa [SubscriptionInner.refund] using hf.limited⟩

theorem Fits.deliver (hf : sub.Fits opts) (pos : StreamId × UInt64) : (sub.deliver pos).Fits opts :=
  ⟨hf.outbound, hf.policy, hf.limited⟩

theorem Fits.deliverNow (hf : sub.Fits opts) (pos : StreamId × UInt64) :
    (sub.deliverNow pos).Fits opts :=
  ⟨hf.outbound, hf.policy, by simpa [SubscriptionInner.deliverNow] using hf.limited⟩

theorem Fits.fired (hf : sub.Fits opts) : { sub with slowConsumerNotify := false }.Fits opts :=
  ⟨hf.outbound, hf.policy, hf.limited⟩

end SubscriptionInner

namespace Bus

variable {δ τ κ : Type} [DecidableEq κ]

structure WellFormed (b : Bus δ τ) : Prop where
  untouched : ∀ i, b.nextId ≤ i → Untouched i b
  entry : ∀ i sub, b.subs i = some sub → ∃ opts, (b.hist i).opts = some opts ∧ sub.Fits opts
  held : ∀ i, ∀ c ∈ b.calls, 0 < c.outstanding i → c.holdsSender i = true
  policies : ∀ c ∈ b.calls, ∀ m ∈ c.guards, ∃ opts, (b.hist m.id).opts = some opts ∧
    m.slowConsumerPolicy = opts.slowConsumerPolicy
  dropping : ∀ c ∈ b.calls, c.phase = .commit .dropped →
    c.guards.head?.map (·.slowConsumerPolicy) = some .dropNewest

theorem wellFormed_init (ops : BusOps δ τ κ) (replayCapacity : ℕ) :
    (machine ops replayCapacity).init.WellFormed where
  untouched i _ := ⟨rfl, rfl, rfl, rfl, by simp [machine]⟩
  entry i sub h := by simp [machine] at h
  held i c h := by simp [machine] at h
  policies c h := by simp [machine] at h
  dropping c h := by simp [machine] at h

/-- An entry of the map has an id that was handed out. -/
theorem WellFormed.lt_nextId {b : Bus δ τ} (hb : b.WellFormed) {i : SubscriptionId}
    {sub : SubscriptionInner τ} (hsub : b.subs i = some sub) : i < b.nextId := by
  by_contra hle
  have hnone := (hb.untouched i (Nat.le_of_not_lt hle)).subs
  rw [hsub] at hnone
  cases hnone

/-- So has a subscription with options. -/
theorem WellFormed.lt_nextId_of_opts {b : Bus δ τ} (hb : b.WellFormed) {i : SubscriptionId}
    {opts : SubscribeOpts} (hopts : (b.hist i).opts = some opts) : i < b.nextId := by
  by_contra hle
  rw [(hb.untouched i (Nat.le_of_not_lt hle)).hist] at hopts
  cases hopts

/-! ### Effects on one subscription -/

section OneSubscription

variable {i : SubscriptionId} {b b' : Bus δ τ} {ops : BusOps δ τ κ} {a : BusAction δ τ}

/-- What holds of every call, of a new call, and survives a move that keeps the claims on `i`. -/
theorem CallsKeep.forall_mem {P : Call δ → Prop} (h : CallsKeep i b b')
    (hb : ∀ c ∈ b.calls, P c) (hnew : ∀ api env, P { api, envelope := env })
    (hmove : ∀ c c', P c → c.Keeps i c' → P c') : ∀ c ∈ b'.calls, P c := by
  cases h with
  | same hcalls => rw [hcalls]; exact hb
  | start api env hcalls =>
    exact Party.forall_mem_concat hcalls hb (hnew api env)
  | move k c c' hk hcalls hkeeps =>
    exact Party.forall_mem_set hcalls hb (hmove c c' (hb c (List.mem_of_getElem? hk)) hkeeps)

omit [DecidableEq κ] in
/-- The options a subscription was made with never change. -/
theorem opts_of_effect (h : Effect i b a b' ∨ Direct ops i b a b') :
    (b'.hist i).opts = (b.hist i).opts := by
  rcases h with h | h
  · cases h with
    | quiet hf => rw [hf.hist]
    | claim _ _ _ _ _ _ _ _ _ _ _ hh => rw [hh]
    | land _ _ _ _ _ _ _ hh => rw [hh]
    | delivered _ _ _ _ _ _ _ _ _ hh => rw [hh]
    | refund _ _ _ _ _ _ _ _ _ _ hh => rw [hh]
    | disconnect _ _ _ _ _ _ _ _ _ _ _ _ _ _ hh => rw [hh]
    | closed _ _ _ _ _ _ _ hg => rw [hg.hist]
    | removed hg => rw [hg.hist]
    | fired _ _ _ _ _ _ _ _ _ hh => rw [hh]
    | coalesced _ _ _ _ _ _ hh => rw [hh]
  · cases h with
    | mk _ _ _ _ _ _ _ _ _ _ _ _ _ hh => rw [hh]

omit [DecidableEq κ] in
/-- **An entry keeps fitting its options.** -/
theorem fits_of_effect {opts : SubscribeOpts} (h : Effect i b a b' ∨ Direct ops i b a b')
    (hb : ∀ sub, b.subs i = some sub → sub.Fits opts) :
    ∀ sub, b'.subs i = some sub → sub.Fits opts := by
  intro sub' hsub'
  -- claims, deliveries and refunds keep the policy and the options; a removal leaves nothing to fit
  rcases h with h | h
  · cases h with
    | quiet hf => exact hb sub' (hf.subs ▸ hsub')
    | claim _ _ _ sub sub'' _ _ he hc hs =>
      rw [hs] at hsub'
      obtain rfl := Option.some.inj hsub'
      exact (hb sub he).claim hc
    | land _ _ _ _ _ hs => exact hb sub' (hs ▸ hsub')
    | delivered _ c _ _ _ _ _ hs =>
      rw [hs, Option.bind_eq_some_iff] at hsub'
      obtain ⟨sub, he, hd⟩ := hsub'
      split at hd
      · cases hd
      · obtain rfl := Option.some.inj hd
        exact (hb sub he).deliver _
    | refund _ _ _ _ _ _ _ _ hs =>
      rw [hs, Option.map_eq_some_iff] at hsub'
      obtain ⟨sub, he, rfl⟩ := hsub'
      exact (hb sub he).refund
    | disconnect _ _ _ _ _ _ _ _ _ _ _ _ hs => rw [hs] at hsub'; cases hsub'
    | closed _ _ _ _ _ _ _ hg => rw [hg.subs] at hsub'; cases hsub'
    | removed hg => rw [hg.subs] at hsub'; cases hsub'
    | fired _ _ sub _ _ he _ hs =>
      rw [hs] at hsub'
      obtain rfl := Option.some.inj hsub'
      exact (hb sub he).fired
    | coalesced _ sub he _ hs =>
      rw [hs] at hsub'
      obtain rfl := Option.some.inj hsub'
      exact (hb sub he).deliverNow _
  · cases h with
    | mk _ _ sub _ _ _ _ he _ _ _ hs =>
      rw [hs] at hsub'
      obtain rfl := Option.some.inj hsub'
      exact (hb sub he).deliverNow _

omit [DecidableEq κ] in
/-- **A removed entry never comes back.** -/
theorem subs_none_of_effect (h : Effect i b a b' ∨ Direct ops i b a b') (hb : b.subs i = none) :
    b'.subs i = none := by
  rcases h with h | h
  · cases h with
    | quiet hf => exact hf.subs.trans hb
    | claim _ _ _ _ _ _ _ he => rw [hb] at he; cases he
    | land _ _ _ _ _ hs => exact hs.trans hb
    | delivered _ _ _ _ _ _ _ hs => rw [hs, hb]; rfl
    | refund _ _ _ _ _ _ _ _ hs => rw [hs, hb]; rfl
    | disconnect _ _ _ _ _ _ _ _ _ _ _ _ hs => exact hs
    | closed _ _ _ _ _ _ _ hg => exact hg.subs
    | removed hg => exact hg.subs
    | fired _ _ _ _ _ he => rw [hb] at he; cases he
    | coalesced _ _ he => rw [hb] at he; cases he
  · cases h with
    | mk _ _ _ _ _ _ _ he => rw [hb] at he; cases he

omit [DecidableEq κ] in
/-- Every entry of the table fits the options it was made with. -/
theorem entry_of_effect (h : Effect i b a b' ∨ Direct ops i b a b')
    (hb : ∀ sub, b.subs i = some sub → ∃ opts, (b.hist i).opts = some opts ∧ sub.Fits opts) :
    ∀ sub, b'.subs i = some sub → ∃ opts, (b'.hist i).opts = some opts ∧ sub.Fits opts := by
  intro sub' hsub'
  cases hsub : b.subs i with
  | none =>
    rw [subs_none_of_effect h hsub] at hsub'
    cases hsub'
  | some sub =>
    obtain ⟨opts, hopts, hfits⟩ := hb sub hsub
    refine ⟨opts, (opts_of_effect h).trans hopts, fits_of_effect h (fun sub₁ h₁ => ?_) sub' hsub'⟩
    rw [hsub] at h₁
    cases h₁
    exact hfits

omit [DecidableEq κ] in
/-- **A call with a claim keeps its sender.** -/
theorem held_of_effect (h : Effect i b a b' ∨ Direct ops i b a b')
    (hb : ∀ c ∈ b.calls, 0 < c.outstanding i → c.holdsSender i = true) :
    ∀ c ∈ b'.calls, 0 < c.outstanding i → c.holdsSender i = true := by
  have hkeep : ∀ {b' : Bus δ τ}, CallsKeep i b b' →
      ∀ c ∈ b'.calls, 0 < c.outstanding i → c.holdsSender i = true := by
    intro b' hc
    refine hc.forall_mem hb (fun _ _ h0 => ?_) (fun c c' hP hk hpos => ?_)
    · simp [Call.outstanding] at h0
    · exact hk.held hpos (hP (hk.outstanding ▸ hpos))
  -- a call that resolves a claim held one before
  have hres : ∀ {k : ℕ} {c c' : Call δ}, b.calls[k]? = some c → c.Resolves i c' →
      0 < c'.outstanding i → c'.holdsSender i = true := by
    intro k c c' hk hr hpos
    refine hr.held hpos (hb c (List.mem_of_getElem? hk) ?_)
    have := hr.outstanding
    omega
  rcases h with h | h
  · cases h with
    | quiet _ hc => exact hkeep hc
    | claim k c c' _ _ hk hcalls _ _ _ _ _ _ _ _ _ _ hh =>
      exact Party.forall_mem_set hcalls hb fun _ => hh
    | land k c c' hk hcalls _ _ _ _ _ _ ho _ _ hh =>
      refine Party.forall_mem_set hcalls hb fun hpos => ?_
      rw [hh]
      exact hb c (List.mem_of_getElem? hk) (ho ▸ hpos)
    | delivered k c c' hk hcalls _ hr => exact Party.forall_mem_set hcalls hb (hres hk hr)
    | refund k c c' hk hcalls _ hr => exact Party.forall_mem_set hcalls hb (hres hk hr)
    | disconnect k c c' _ _ hk hcalls _ _ _ hr => exact Party.forall_mem_set hcalls hb (hres hk hr)
    | closed k c c' hk hcalls _ hr => exact Party.forall_mem_set hcalls hb (hres hk hr)
    | removed _ hc => exact hkeep hc
    | fired _ _ _ _ _ _ _ _ _ _ _ hc => exact hkeep hc
    | coalesced _ _ _ _ _ _ _ _ hc => exact hkeep hc
  · cases h with
    | mk _ _ _ _ _ _ _ _ _ _ _ _ _ _ _ hc => exact hkeep hc

omit [DecidableEq κ] in
/-- **An untouched id stays untouched** by every step that does not create it. -/
theorem Untouched.effect (hu : Untouched i b) (h : Effect i b a b' ∨ Direct ops i b a b') :
    Untouched i b' := by
  have hnone : ∀ sub, b.subs i ≠ some sub := by intro sub he; rw [hu.subs] at he; cases he
  -- no call can resolve a claim on `i`
  have hno : ∀ {k : ℕ} {c c' : Call δ}, b.calls[k]? = some c → c.Resolves i c' → False := by
    intro k c c' hk hr
    have h0 := (hu.calls c (List.mem_of_getElem? hk)).1
    have := hr.outstanding
    omega
  rcases h with h | h
  · cases h with
    | quiet hf hc =>
      refine ⟨hf.subs.trans hu.subs, hf.notify.trans hu.notify, hf.hist.trans hu.hist,
        hf.enqueued.trans hu.enqueued, hc.forall_mem hu.calls ?_ ?_⟩
      · intro api env
        exact ⟨rfl, rfl⟩
      · rintro c c' ⟨h0, hs⟩ hk
        refine ⟨hk.outstanding.trans h0, ?_⟩
        by_contra hne
        have := hk.holdsSender (by simpa using hne)
        rw [hs] at this
        cases this
    | claim _ _ _ sub _ _ _ he => exact absurd he (hnone sub)
    | land k c c' hk _ _ _ _ _ _ _ _ hun =>
      have h0 := (hu.calls c (List.mem_of_getElem? hk)).1
      have := hun.2
      omega
    | delivered k c c' hk _ _ hr => exact (hno hk hr).elim
    | refund k c c' hk _ _ hr => exact (hno hk hr).elim
    | disconnect k c c' _ _ hk _ _ _ _ hr => exact (hno hk hr).elim
    | closed k c c' hk _ _ hr => exact (hno hk hr).elim
    | removed hg => obtain ⟨sub, he⟩ := hg.entry; exact absurd he (hnone sub)
    | fired _ _ sub _ _ he => exact absurd he (hnone sub)
    | coalesced _ sub he => exact absurd he (hnone sub)
  · cases h with
    | mk _ _ sub _ _ _ _ he => exact absurd he (hnone sub)

end OneSubscription

/-! ### The invariant -/

/-- What `subscribe` does to the id it hands out: it creates the subscription, or it panics and the
id stays unused. -/
theorem subscribe_cases (b : Bus δ τ) (topic : τ) (opts : SubscribeOpts)
    (hu : Untouched b.nextId b) :
    Untouched b.nextId (b.subscribe topic opts) ∨
      ∃ sub, (b.subscribe topic opts).subs b.nextId = some sub ∧
        sub = { topic, outbound := opts.slowConsumerPolicy.outbound, remaining := opts.limit,
                slowConsumerPolicy := opts.slowConsumerPolicy } ∧
        (b.subscribe topic opts).hist b.nextId = { opts := some opts } ∧
        (b.subscribe topic opts).notify b.nextId = .pending ∧
        ((b.subscribe topic opts).mpsc b.nextId).enqueued = [] := by
  have hq := hu.enqueued
  unfold subscribe
  dsimp only
  split
  · exact .inr ⟨_, by simp [setSub], rfl, by simp, by simp, by simpa [setSub] using hq⟩
  · split
    · exact .inr ⟨_, by simp [setSub, setMpsc], rfl, by simp [setMpsc], by simp [setMpsc],
        by simp [setMpsc, Mpsc.enqueued]⟩
    · exact .inl ⟨hu.subs, hu.notify, hu.hist, hu.enqueued, hu.calls⟩

/-- Every step has one of the effects on a subscription that exists. -/
theorem WellFormed.effect {ops : BusOps δ τ κ} {b b' : Bus δ τ} {a : BusAction δ τ}
    {i : SubscriptionId} {opts : SubscribeOpts} (hb : b.WellFormed)
    (hi : (b.hist i).opts = some opts) (hs : step ops b a = some b') :
    Effect i b a b' ∨ Direct ops i b a b' := by
  refine effect_of_step ?_ hs
  rintro _ _ _ rfl
  have hu := hb.untouched b.nextId (Nat.le_refl _)
  rw [hu.hist] at hi
  cases hi

theorem WellFormed.opts_step {ops : BusOps δ τ κ} {b b' : Bus δ τ} {a : BusAction δ τ}
    {i : SubscriptionId} {opts : SubscribeOpts} (hb : b.WellFormed)
    (hi : (b.hist i).opts = some opts) (hs : step ops b a = some b') :
    (b'.hist i).opts = some opts :=
  (opts_of_effect (hb.effect hi hs)).trans hi

/-- The entry of a subscription with a bounded channel has one. -/
theorem WellFormed.outbound_mpsc {b : Bus δ τ} {i : SubscriptionId} {opts : SubscribeOpts}
    (hb : b.WellFormed) (hopts : (b.hist i).opts = some opts)
    (hmpsc : opts.slowConsumerPolicy.isMpsc = true) :
    ∀ sub, b.subs i = some sub → sub.outbound = .mpsc := by
  intro sub hsub
  obtain ⟨opts', hopts', hfits⟩ := hb.entry i sub hsub
  obtain rfl : opts = opts' := Option.some.inj (hopts.symm.trans hopts')
  rw [hfits.outbound]
  cases hp : opts.slowConsumerPolicy <;> simp_all [SlowConsumerPolicy.outbound,
    SlowConsumerPolicy.isMpsc]

omit [DecidableEq κ] in
/-- **A fired notice stays fired.** -/
theorem notify_sent_of_effect {ops : BusOps δ τ κ} {b b' : Bus δ τ} {a : BusAction δ τ}
    {i : SubscriptionId} {n : SlowConsumerNotice} (h : Effect i b a b' ∨ Direct ops i b a b')
    (hn : b.notify i = .sent n) : b'.notify i = .sent n := by
  rcases h with h | h
  · cases h with
    | quiet hf => exact hf.notify.trans hn
    | claim k c c' sub sub' hk hcalls hentry hclaim hs hn' => exact hn'.trans hn
    | land k c c' hk hcalls hs hn' => exact hn'.trans hn
    | delivered k c c' hk hcalls hsent hr hs hn' =>
      rcases hn' with hn' | ⟨-, hn'⟩
      · exact hn'.trans hn
      · rw [hn', hn]; rfl
    | refund k c c' hk hcalls hun hr hcause hs hn' => exact hn'.trans hn
    | disconnect k c c' sub haction hk hcalls hp hhead hun hr hentry hs hn' =>
      rw [hn', hn]; split <;> rfl
    | closed k c c' hk hcalls hun hr hg => rw [hg.notify, hn]; rfl
    | removed hg => rw [hg.notify, hn]; rfl
    | fired k c sub hk hapi hentry harm hs hn' => rw [hn', hn]; rfl
    | coalesced env sub hentry hco hs hn' => exact hn'.trans hn
  · cases h with
    | mk k c sub ha hk hp hapi hentry hm hroom hout hs hn' => exact hn'.trans hn

theorem senderAlive_eq_false {b : Bus δ τ} {i : SubscriptionId} :
    b.senderAlive i = false ↔ b.subs i = none ∧ ∀ c ∈ b.calls, c.holdsSender i = false := by
  simp only [senderAlive, Bool.or_eq_false_iff, List.any_eq_false, Option.isSome_eq_false_iff,
    Option.isNone_iff_eq_none, Call.holdsSender]
  simp

omit [DecidableEq κ] in
/-- **A queue without senders stays as it is**: no sender comes back and nothing is enqueued. -/
theorem WellFormed.senderGone {ops : BusOps δ τ κ} {b b' : Bus δ τ} {a : BusAction δ τ}
    {i : SubscriptionId} (hb : b.WellFormed) (h : Effect i b a b' ∨ Direct ops i b a b')
    (hgone : b.senderAlive i = false) :
    b'.senderAlive i = false ∧ (b'.mpsc i).enqueued = (b.mpsc i).enqueued := by
  obtain ⟨hnone, hheld⟩ := senderAlive_eq_false.mp hgone
  have hentry : ∀ sub, b.subs i ≠ some sub := by intro sub he; rw [hnone] at he; cases he
  -- a call without a sender has no claim
  have hclaim : ∀ {k : ℕ} {c : Call δ}, b.calls[k]? = some c → ¬ 0 < c.outstanding i := by
    intro k c hk hpos
    have hmem := List.mem_of_getElem? hk
    have := hb.held i c hmem hpos
    rw [hheld c hmem] at this
    cases this
  have hres : ∀ {k : ℕ} {c c' : Call δ}, b.calls[k]? = some c → ¬ c.Resolves i c' := by
    intro k c c' hk hr
    have := hr.outstanding
    exact hclaim hk (by omega)
  rcases h with h | h
  · cases h with
    | quiet hf hc =>
      refine ⟨senderAlive_eq_false.mpr ⟨hf.subs.trans hnone, hc.forall_mem hheld ?_ ?_⟩,
        hf.enqueued⟩
      · exact fun _ _ => rfl
      · intro c c' hP hk
        by_contra hne
        rw [hk.holdsSender (by simpa using hne)] at hP
        cases hP
    | claim k c c' sub sub' hk hcalls he => exact absurd he (hentry sub)
    | land k c c' hk hcalls hs hn hh hq hapi henv ho hun => exact absurd hun.2 (hclaim hk)
    | delivered k c c' hk hcalls hsent hr => exact absurd hr (hres hk)
    | refund k c c' hk hcalls hun hr => exact absurd hr (hres hk)
    | disconnect k c c' sub haction hk hcalls hp hhead hun hr => exact absurd hr (hres hk)
    | closed k c c' hk hcalls hun hr => exact absurd hr (hres hk)
    | removed hg => obtain ⟨sub, he⟩ := hg.entry; exact absurd he (hentry sub)
    | fired k c sub hk hapi he => exact absurd he (hentry sub)
    | coalesced env sub he => exact absurd he (hentry sub)
  · cases h with
    | mk k c sub ha hk hp hapi he => exact absurd he (hentry sub)

/-- A step has one of the effects on `i`, or it creates `i`. -/
theorem effect_or_created {ops : BusOps δ τ κ} {b b' : Bus δ τ} {a : BusAction δ τ}
    (i : SubscriptionId) (hs : step ops b a = some b') :
    (Effect i b a b' ∨ Direct ops i b a b') ∨
      i = b.nextId ∧ ∃ topic opts, b' = b.subscribe topic opts := by
  by_cases hi : ∀ topic opts, a = .subscribe topic opts → i ≠ b.nextId
  · exact .inl (effect_of_step hi hs)
  · push Not at hi
    obtain ⟨topic, opts, rfl, rfl⟩ := hi
    exact .inr ⟨rfl, topic, opts, step_subscribe hs⟩

/-- The guards of a call carry the policy of their subscription. -/
theorem policies_step {ops : BusOps δ τ κ} {b b' : Bus δ τ} {a : BusAction δ τ}
    (hb : b.WellFormed) (hs : step ops b a = some b') :
    ∀ c ∈ b'.calls, ∀ m ∈ c.guards, ∃ opts, (b'.hist m.id).opts = some opts ∧
      m.slowConsumerPolicy = opts.slowConsumerPolicy := by
  -- options are written once, so the guards of the calls before the step keep theirs
  have hold : ∀ c ∈ b.calls, ∀ m ∈ c.guards, ∃ opts, (b'.hist m.id).opts = some opts ∧
      m.slowConsumerPolicy = opts.slowConsumerPolicy := by
    intro c hc m hm
    obtain ⟨opts, hopts, hp⟩ := hb.policies c hc m hm
    exact ⟨opts, hb.opts_step hopts hs, hp⟩
  cases callsNext_of_step hs with
  | same hcalls => rwa [hcalls]
  | publish env _ hcalls => exact Party.forall_mem_concat hcalls hold (by simp)
  | tryPublish env _ hcalls => exact Party.forall_mem_concat hcalls hold (by simp)
  | advance k c c' hk hcalls hadv =>
    exact Party.forall_mem_set hcalls hold fun m hm =>
      hold c (List.mem_of_getElem? hk) m (hadv.guards.mem hm)
  | visit k j c c' hk hcalls _ _ hguards =>
    refine Party.forall_mem_set hcalls hold fun m hm => ?_
    rcases hguards with hg | ⟨sub, hsub, hg⟩
    · exact hold c (List.mem_of_getElem? hk) m (hg ▸ hm)
    · rw [hg] at hm
      rcases List.mem_append.mp hm with hmem | hmem
      · exact hold c (List.mem_of_getElem? hk) m hmem
      · -- the new match has the policy of the entry, which fits its options
        obtain rfl := List.mem_singleton.mp hmem
        obtain ⟨opts, hopts, hfits⟩ := hb.entry j sub hsub
        exact ⟨opts, hb.opts_step hopts hs, hfits.policy⟩
  | cancel k c c' _ hk hcalls _ hg =>
    exact Party.forall_mem_set hcalls hold fun m hm => hold c (List.mem_of_getElem? hk) m (hg ▸ hm)

/-- A call that commits a drop serves a subscription that drops the newest. -/
theorem dropping_step {ops : BusOps δ τ κ} {b b' : Bus δ τ} {a : BusAction δ τ}
    (hb : b.WellFormed) (hs : step ops b a = some b') :
    ∀ c ∈ b'.calls, c.phase = .commit .dropped →
      c.guards.head?.map (·.slowConsumerPolicy) = some .dropNewest := by
  cases callsNext_of_step hs with
  | same hcalls => rw [hcalls]; exact hb.dropping
  | publish env _ hcalls => exact Party.forall_mem_concat hcalls hb.dropping (by simp)
  | tryPublish env _ hcalls => exact Party.forall_mem_concat hcalls hb.dropping (by simp)
  | advance k c c' hk hcalls hadv => exact Party.forall_mem_set hcalls hb.dropping hadv.dropping
  | visit k j c c' hk hcalls _ hphase =>
    refine Party.forall_mem_set hcalls hb.dropping fun h => ?_
    rw [h] at hphase
    simp at hphase
  | cancel k c c' _ hk hcalls _ _ hphase =>
    exact Party.forall_mem_set hcalls hb.dropping fun h => by rw [hphase] at h; cases h

/-- Subscribing keeps the bus well formed. -/
theorem wellFormed_subscribe {ops : BusOps δ τ κ} {b b' : Bus δ τ} {topic : τ}
    {opts : SubscribeOpts} (hb : b.WellFormed) (hs : step ops b (.subscribe topic opts) = some b') :
    b'.WellFormed := by
  have heff : ∀ i, i ≠ b.nextId → Effect i b (.subscribe topic opts) b' ∨
      Direct ops i b (.subscribe topic opts) b' :=
    fun i hi => effect_of_step (fun _ _ _ => hi) hs
  have hpolicies := policies_step hb hs
  have hdropping := dropping_step hb hs
  obtain rfl := step_subscribe hs
  refine ⟨fun i hi => ?_, fun i sub' hsub' => ?_, fun i => ?_, hpolicies, hdropping⟩
  · rw [nextId_subscribe] at hi
    exact (hb.untouched i (by omega)).effect (heff i (by omega))
  · -- the new id was untouched, so its entry is the one that the options make
    by_cases hi : i = b.nextId
    · subst hi
      rcases subscribe_cases b topic opts (hb.untouched b.nextId (Nat.le_refl _)) with
        hu | ⟨sub, hsub, hval, hhist, -⟩
      · rw [hu.subs] at hsub'
        cases hsub'
      · rw [hsub] at hsub'
        obtain rfl := Option.some.inj hsub'
        exact ⟨opts, by rw [hhist], by rw [hval]; exact ⟨rfl, rfl, rfl⟩⟩
    · exact entry_of_effect (heff i hi) (hb.entry i) sub' hsub'
  · rw [calls_subscribe]
    exact hb.held i

/-- Every action keeps the bus well formed. -/
theorem wellFormed_step {ops : BusOps δ τ κ} {b b' : Bus δ τ} {a : BusAction δ τ}
    (hb : b.WellFormed) (hs : step ops b a = some b') : b'.WellFormed := by
  rcases nextId_of_step hs with hnext | ⟨topic, opts, rfl, -⟩
  · -- no id is handed out: every subscription sees an effect
    have heff : ∀ i, Effect i b a b' ∨ Direct ops i b a b' := by
      refine fun i => effect_of_step ?_ hs
      rintro topic opts rfl
      rw [step_subscribe hs, nextId_subscribe] at hnext
      omega
    exact ⟨fun i hi => (hb.untouched i (hnext ▸ hi)).effect (heff i),
      fun i => entry_of_effect (heff i) (hb.entry i), fun i => held_of_effect (heff i) (hb.held i),
      policies_step hb hs, dropping_step hb hs⟩
  · exact wellFormed_subscribe hb hs

/-- **Every reachable state is well formed.** -/
theorem wellFormed_of_reachable {ops : BusOps δ τ κ} {replayCapacity : ℕ} {b : Bus δ τ}
    (h : (machine ops replayCapacity).Reachable b) : b.WellFormed :=
  h.inv (wellFormed_init ops replayCapacity) fun _ _ _ => wellFormed_step

end Bus

end Boardwalk
