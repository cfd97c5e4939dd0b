import Boardwalk.Events.Spec.Once

/-!
# Send permits and the bound of a queue

An async publish to a full `Backpressure` queue first waits for a permit and later spends it.  A
permit is a slot: `Permitted` says that the slots reserved in a channel are exactly the permits that
calls hold for it, that values and reserved slots together never exceed the capacity the
subscription asked for, and that this capacity is at least one.  `Poised` is what a single call
needs in order to go on: while it sends there is a match to send to, it awaits only a `Backpressure`
queue, and it has hit none of the arms the source marks unreachable.
-/

namespace Boardwalk

/-- A phase in which the call has a match at hand. -/
def Phase.sends : Phase → Bool
  | .send | .await | .granted | .commit _ => true
  | _ => false

namespace Call

variable {δ : Type}

/-- The permits a call holds for `i`: one, between the grant and the next poll of its send. -/
def permitFor (i : SubscriptionId) (c : Call δ) : ℕ :=
  if c.phase = .granted ∧ c.guards.head?.map (·.id) = some i then 1 else 0

theorem permitFor_of_ne {i : SubscriptionId} {c : Call δ} (h : c.phase ≠ .granted) :
    c.permitFor i = 0 := by
  simp [permitFor, h]

theorem permitFor_granted {i : SubscriptionId} {c : Call δ} {m : Match} {rest : List Match}
    (hp : c.phase = .granted) (hg : c.guards = m :: rest) :
    c.permitFor i = if m.id = i then 1 else 0 := by
  simp [permitFor, hp, hg]

/-- A call without a guard of `i` holds no permit for it. -/
theorem permitFor_of_outstanding {i : SubscriptionId} {c : Call δ} (h : c.outstanding i = 0) :
    c.permitFor i = 0 := by
  unfold permitFor
  rw [if_neg]
  rintro ⟨-, hhead⟩
  obtain ⟨m, hm, hid⟩ := Option.map_eq_some_iff.mp hhead
  have hmem : m ∈ c.guards := List.mem_of_mem_head? hm
  unfold outstanding at h
  rw [List.countP_eq_zero] at h
  exact h m hmem (by simpa using hid)

/-- The call can go on by itself. -/
structure Poised (c : Call δ) : Prop where
  mpsc : ∀ m ∈ c.guards, m.slowConsumerPolicy.isMpsc = true
  pending : c.phase.sends = true → c.guards ≠ []
  awaits : c.phase = .await →
    c.guards.head?.map (·.slowConsumerPolicy) = some .backpressure
  sound : c.phase ≠ .panicked

end Call

namespace Bus

variable {δ τ κ : Type} [DecidableEq κ]

/-- The permits that calls hold for `i`. -/
def permits (b : Bus δ τ) (i : SubscriptionId) : ℕ := (b.calls.map (Call.permitFor i)).sum

/-- The slots of the bounded channels are accounted for. -/
structure Permitted (b : Bus δ τ) : Prop where
  reserved : ∀ i, (b.mpsc i).reserved = b.permits i
  bounded : ∀ i, (b.mpsc i).buf.length + (b.mpsc i).reserved ≤ (b.mpsc i).capacity
  capacity : ∀ i opts, (b.hist i).opts = some opts → opts.slowConsumerPolicy.isMpsc = true →
    (b.mpsc i).capacity = opts.resolvedOutboundCapacity ∧ 1 ≤ (b.mpsc i).capacity

section Poised

variable {ops : BusOps δ τ κ} {b b' : Bus δ τ} {a : BusAction δ τ} {k : ℕ} {c : Call δ}

/-! ### The calls can go on -/

theorem poised_phase (h : c.Poised) {p : Phase} (hsends : p.sends = true → c.guards ≠ [])
    (hawait : p ≠ .await) (hpanic : p ≠ .panicked) : Call.Poised { c with phase := p } :=
  ⟨h.mpsc, hsends, fun hp => absurd hp hawait, hpanic⟩

/-- The next match comes up, or the call returns. -/
theorem poised_afterMatch {c : Call δ} {gs : List Match}
    (h : ∀ m ∈ gs, m.slowConsumerPolicy.isMpsc = true) : (afterMatch c gs).Poised := by
  cases gs with
  | nil => exact ⟨h, by simp [afterMatch, Phase.sends], by simp [afterMatch], by simp [afterMatch]⟩
  | cons m gs => exact ⟨h, by simp [afterMatch], by simp [afterMatch], by simp [afterMatch]⟩

/-- A bounded channel goes with one of the three policies that have one. -/
theorem isMpsc_of_outbound {policy : SlowConsumerPolicy} (h : policy.outbound = .mpsc) :
    policy.isMpsc = true := by
  cases policy with
  | coalesce path => cases h
  | disconnect | backpressure | dropNewest => rfl

omit [DecidableEq κ] in
theorem poised_advance (hall : ∀ c ∈ b.calls, c.Poised) (hs : b.advance ops k = some b') :
    ∀ c ∈ b'.calls, c.Poised := by
  obtain ⟨c, hk, hadv⟩ := advance_cases hs
  have hc : c.Poised := hall c (List.mem_of_getElem? hk)
  -- only the moved call has to be looked at
  have hset : ∀ {b₁ : Bus δ τ} {c' : Call δ}, b₁.calls = b.calls → c'.Poised →
      ∀ d ∈ (b₁.setCall k c').calls, d.Poised := by
    intro b₁ c' hcalls hc'
    have hset : (b₁.setCall k c').calls = b.calls.set k c' := by simp [setCall, hcalls]
    exact Party.forall_mem_set hset hall hc'
  have hrest : ∀ {m : Match} {rest : List Match}, c.guards = m :: rest →
      ∀ m' ∈ rest, m'.slowConsumerPolicy.isMpsc = true :=
    fun hg m' hm' => hc.mpsc m' (hg ▸ List.mem_cons_of_mem _ hm')
  cases hadv with
  | tooLarge | fits | reject | evict =>
    exact hset rfl (poised_phase hc (by simp [Phase.sends]) (by simp) (by simp))
  | record p _ hnext =>
    refine hset rfl (poised_phase hc ?_ ?_ ?_) <;> rw [hnext] <;> split <;> simp [Phase.sends]
  | acquire => exact hset rfl ⟨hc.mpsc, by simp [Phase.sends], by simp, by simp⟩
  | finish => exact hset (by simp) (poised_afterMatch hc.mpsc)
  | send m rest hp hg =>
    have hmpsc : m.slowConsumerPolicy.isMpsc = true := hc.mpsc m (hg ▸ List.mem_cons_self)
    have hne : c.guards ≠ [] := by simp [hg]
    unfold sendMatch
    split
    · exact hset rfl (poised_phase hc (fun _ => hne) (by simp) (by simp))
    · exact hset rfl (poised_phase hc (fun _ => hne) (by simp) (by simp))
    · split
      · -- the only way into `await`: the policy is `Backpressure`
        rename_i hpolicy
        exact hset rfl ⟨hc.mpsc, fun _ => hne, fun _ => by simp [hg, hpolicy], by simp⟩
      · exact hset rfl (poised_phase hc (fun _ => hne) (by simp) (by simp))
      · exact hset rfl (poised_phase hc (fun _ => hne) (by simp) (by simp))
      · -- a coalesce entry has no guard
        rename_i hpolicy
        rw [hpolicy] at hmpsc
        cases hmpsc
  | permit m rest q hp hg | awaitClosed m rest hp hg | push m rest hp hg =>
    exact hset rfl (poised_phase hc (fun _ => by simp [hg]) (by simp) (by simp))
  | commit m rest outcome hp hg =>
    cases outcome with
    | delivered => exact hset (by simp [recordCommit]) (poised_afterMatch (hrest hg))
    | dropped | disconnectSlowConsumer | closed =>
      exact hset (by simp) (poised_afterMatch (hrest hg))
  | dropGuard m rest hp hg =>
    exact hset (by simp) ⟨hrest hg, by simp [hp, Phase.sends], by simp [hp], by simp [hp]⟩
  | unwound hp hg =>
    exact hset rfl ⟨hc.mpsc, by simp [Phase.sends], by simp, by simp⟩

theorem poised_visit {i : SubscriptionId} (hwf : b.WellFormed) (hall : ∀ c ∈ b.calls, c.Poised)
    (hs : b.visit ops k i = some b') : ∀ c ∈ b'.calls, c.Poised := by
  obtain ⟨c, hk, hp, -, b₂, c₂, hentry, rfl⟩ := visit_cases hs
  have hc : c.Poised := hall c (List.mem_of_getElem? hk)
  obtain ⟨-, hcalls, -⟩ := visitEntry_call hentry
  obtain ⟨-, hcall⟩ := visitEntry_spec ops { c with todo := c.todo.erase i } (hwf.view_fits i)
  rw [hentry] at hcall
  dsimp only at hcall
  refine Party.forall_mem_set (calls_setCall_of hcalls k c₂) hall ?_
  subst hcall
  -- the call stays in its loop; a match it gains has a policy with a bounded channel
  refine ⟨fun m hm => ?_, by simp [addDelta, hp, Phase.sends], by simp [addDelta, hp],
    by simp [addDelta, hp]⟩
  simp only [addDelta, List.mem_append, Option.mem_toList, Option.map_eq_some_iff] at hm
  rcases hm with hm | ⟨policy, hclaimed, rfl⟩
  · exact hc.mpsc m hm
  · obtain ⟨sub, hsub, -, hout, hpolicy⟩ := Local.policy_of_claimed hclaimed
    have hfits := hwf.view_fits i sub hsub
    show policy.isMpsc = true
    rw [← hpolicy]
    exact isMpsc_of_outbound (hfits ▸ hout)

theorem poised_step (hwf : b.WellFormed) (hall : ∀ c ∈ b.calls, c.Poised)
    (hs : step ops b a = some b') : ∀ c ∈ b'.calls, c.Poised := by
  cases a with
  | advance k => exact poised_advance hall hs
  | visit k i => exact poised_visit hwf hall hs
  | cancel k =>
    obtain ⟨c, c', hk, -, hcalls, -, hguards, hp⟩ := moved_cancel hs
    refine Party.forall_mem_set hcalls hall ⟨?_, ?_, ?_, ?_⟩
    · rw [hguards]
      exact (hall c (List.mem_of_getElem? hk)).mpsc
    · simp [hp, Phase.sends]
    · simp [hp]
    · simp [hp]
  | publish env | tryPublish env =>
    obtain rfl := Option.some.inj hs
    exact Party.forall_mem_concat rfl hall ⟨by simp, by simp [Phase.sends], by simp, by simp⟩
  | subscribe topic opts =>
    obtain rfl := step_subscribe hs
    rw [calls_subscribe]
    exact hall
  | unsubscribe j =>
    obtain rfl := step_unsubscribe hs
    rw [calls_reap]
    exact hall
  | recv j =>
    obtain ⟨env, hr⟩ := step_recv hs
    rw [(frame_recv (i := j) hr).2]
    exact hall
  | dropRx j | withMaxEventSize limit =>
    obtain rfl := Option.some.inj hs
    exact hall

end Poised

/-! ### The slots -/

section Permitted

variable {ops : BusOps δ τ κ} {b b' : Bus δ τ} {a : BusAction δ τ} {k : ℕ} {c c' : Call δ}

/-- What a move of call `k` does to the slots of one channel: it stays within the capacity, and the
reserved slots change as the permits of the call do. -/
structure SlotsMove (c c' : Call δ) (i : SubscriptionId) (q q' : Mpsc (EventEnvelope δ)) : Prop where
  capacity : q'.capacity = q.capacity
  reserved : q'.reserved + c.permitFor i = q.reserved + c'.permitFor i
  bounded : q'.buf.length + q'.reserved ≤ q'.capacity

theorem permits_set (hk : b.calls[k]? = some c) (hcalls : b'.calls = b.calls.set k c')
    (i : SubscriptionId) : b'.permits i + c.permitFor i = b.permits i + c'.permitFor i := by
  unfold permits
  rw [hcalls]
  exact sum_map_set (Call.permitFor i) hk c'

/-- A call whose permits stay leaves the permits. -/
theorem permits_of_calls (hcalls : b'.calls = b.calls) (i : SubscriptionId) :
    b'.permits i = b.permits i := by
  unfold permits
  rw [hcalls]

theorem Permitted.of_move (h : b.Permitted) (hk : b.calls[k]? = some c)
    (hcalls : b'.calls = b.calls.set k c') (hopts : ∀ i, (b'.hist i).opts = (b.hist i).opts)
    (hslots : ∀ i, SlotsMove c c' i (b.mpsc i) (b'.mpsc i)) : b'.Permitted := by
  refine ⟨fun i => ?_, fun i => (hslots i).bounded, fun i opts hi hmpsc => ?_⟩
  · have hpermits := permits_set hk hcalls i
    have hreserved := (hslots i).reserved
    have hold := h.reserved i
    omega
  · rw [(hslots i).capacity]
    exact h.capacity i opts (hopts i ▸ hi) hmpsc

/-- The channel is not touched, and the call holds no permit before and after. -/
theorem Permitted.slots_same (h : b.Permitted) {i : SubscriptionId}
    {q : Mpsc (EventEnvelope δ)} (hq : q = b.mpsc i) (hc : c.permitFor i = 0)
    (hc' : c'.permitFor i = 0) : SlotsMove c c' i (b.mpsc i) q := by
  subst hq
  exact ⟨rfl, by omega, h.bounded i⟩

/-- A push that found room. -/
theorem Permitted.slots_push (h : b.Permitted) {i j : SubscriptionId}
    {q : Mpsc (EventEnvelope δ)} {env : EventEnvelope δ} (hq : (b.mpsc j).trySend env = .ok q)
    (hc : c.permitFor i = 0) (hc' : c'.permitFor i = 0) :
    SlotsMove c c' i (b.mpsc i) (Function.update b.mpsc j q i) := by
  by_cases hij : i = j
  · subst hij
    obtain ⟨-, hroom⟩ := Mpsc.room_of_trySend_ok hq
    rw [Function.update_self, Mpsc.trySend_ok hq]
    have hlt : (b.mpsc i).buf.length + (b.mpsc i).reserved < (b.mpsc i).capacity := by
      simpa [Mpsc.hasRoom] using hroom
    refine ⟨rfl, by simp [Mpsc.push, hc, hc'], ?_⟩
    simp only [Mpsc.push, List.length_append, List.length_singleton]
    omega
  · rw [Function.update_of_ne hij]
    exact h.slots_same rfl hc hc'

/-- The channels are not touched, and the call holds no permit before and after. -/
theorem Permitted.slots_kept (h : b.Permitted) (hmpsc : b'.mpsc = b.mpsc)
    (hp : c.phase ≠ .granted) (hp' : c'.phase ≠ .granted) (i : SubscriptionId) :
    SlotsMove c c' i (b.mpsc i) (b'.mpsc i) :=
  h.slots_same (by rw [hmpsc]) (Call.permitFor_of_ne hp) (Call.permitFor_of_ne hp')

theorem phase_afterMatch_ne (c : Call δ) (gs : List Match) : (afterMatch c gs).phase ≠ .granted := by
  cases gs <;> simp [afterMatch]

/-- **A grant reserves a slot**, which the call holds a permit for from then on. -/
theorem Permitted.slots_permit (h : b.Permitted) {m : Match} {rest : List Match}
    {q : Mpsc (EventEnvelope δ)} (hp : c.phase = .await) (hg : c.guards = m :: rest)
    (hq : (b.mpsc m.id).reserve = some q) (i : SubscriptionId) :
    SlotsMove c { c with phase := .granted } i (b.mpsc i) (Function.update b.mpsc m.id q i) := by
  -- no permit before the step, one at its entry after it
  have hold : c.permitFor i = 0 := Call.permitFor_of_ne (by simp [hp])
  have hnew : Call.permitFor i { c with phase := .granted } = if m.id = i then 1 else 0 :=
    Call.permitFor_granted rfl hg
  by_cases him : i = m.id
  · subst him
    rw [if_pos rfl] at hnew
    -- a slot is given only where there is room
    have hroom : (b.mpsc m.id).hasRoom = true := by
      by_contra hno
      simp [Mpsc.reserve, hno] at hq
    have hlt : (b.mpsc m.id).buf.length + (b.mpsc m.id).reserved < (b.mpsc m.id).capacity := by
      simpa [Mpsc.hasRoom] using hroom
    rw [Function.update_self, Mpsc.reserve_some hq]
    refine ⟨rfl, ?_, ?_⟩
    · show (b.mpsc m.id).reserved + 1 + c.permitFor m.id = _
      omega
    · show (b.mpsc m.id).buf.length + ((b.mpsc m.id).reserved + 1) ≤ (b.mpsc m.id).capacity
      omega
  · rw [if_neg (Ne.symm him)] at hnew
    rw [Function.update_of_ne him]
    exact h.slots_same rfl hold hnew

/-- **A permit is spent or given back once**: the call held it, so the slot is reserved. -/
theorem Permitted.slots_spend (h : b.Permitted) (hk : b.calls[k]? = some c) {m : Match}
    {rest : List Match} {q : Mpsc (EventEnvelope δ)} (hp : c.phase = .granted)
    (hg : c.guards = m :: rest) (hp' : c'.phase ≠ .granted)
    (hcap : q.capacity = (b.mpsc m.id).capacity)
    (hreserved : q.reserved = (b.mpsc m.id).reserved - 1)
    (hbuf : q.buf.length ≤ (b.mpsc m.id).buf.length + 1) (i : SubscriptionId) :
    SlotsMove c c' i (b.mpsc i) (Function.update b.mpsc m.id q i) := by
  have hold : c.permitFor i = if m.id = i then 1 else 0 := Call.permitFor_granted hp hg
  have hnew : c'.permitFor i = 0 := Call.permitFor_of_ne hp'
  by_cases him : i = m.id
  · subst him
    rw [if_pos rfl] at hold
    -- the permits of `m.id` count that of the call
    have hcounts := sum_map_set (Call.permitFor m.id) hk c'
    have hpos : c.permitFor m.id ≤ b.permits m.id := by
      unfold permits
      omega
    have hcount := h.reserved m.id
    have hbound := h.bounded m.id
    rw [Function.update_self]
    exact ⟨hcap, by omega, by omega⟩
  · rw [if_neg (Ne.symm him)] at hold
    rw [Function.update_of_ne him]
    exact h.slots_same rfl hold hnew

omit [DecidableEq κ] in
/-- A step of a call moves permits and queue slots together. -/
theorem slots_advance (h : b.Permitted) (hs : b.advance ops k = some b') :
    ∃ c c', b.calls[k]? = some c ∧ b'.calls = b.calls.set k c' ∧
      ∀ i, SlotsMove c c' i (b.mpsc i) (b'.mpsc i) := by
  obtain ⟨c, hk, hadv⟩ := advance_cases hs
  refine ⟨c, ?_⟩
  -- a step that neither takes nor gives up a permit keeps the slots
  have hkept : ∀ {b₁ : Bus δ τ} {c' : Call δ}, b₁.calls = b.calls → b₁.mpsc = b.mpsc →
      c.phase ≠ .granted → c'.phase ≠ .granted →
      ∃ c'', b.calls[k]? = some c ∧ (b₁.setCall k c').calls = b.calls.set k c'' ∧
        ∀ i, SlotsMove c c'' i (b.mpsc i) ((b₁.setCall k c').mpsc i) := by
    intro b₁ c' hcalls hmpsc hp hp'
    exact ⟨c', hk, calls_setCall_of hcalls k c', h.slots_kept hmpsc hp hp'⟩
  cases hadv with
  | tooLarge hp | fits hp | reject _ hp | evict _ hp | acquire hp | awaitClosed _ _ hp
  | unwound hp => exact hkept rfl rfl (by simp [hp]) (by simp)
  | record p hp hnext =>
    refine hkept rfl rfl (by simp [hp]) ?_
    rw [hnext]
    split <;> simp
  | finish hp => exact hkept (by simp) (by simp) (by simp [hp]) (phase_afterMatch_ne _ _)
  | send m rest hp hg =>
    -- `try_send` takes a slot of its own
    have hold : ∀ i, c.permitFor i = 0 := fun i => Call.permitFor_of_ne (by simp [hp])
    unfold sendMatch
    split
    · rename_i q hq
      refine ⟨_, hk, rfl, fun i => ?_⟩
      exact h.slots_push hq (hold i) (Call.permitFor_of_ne (by simp))
    · exact hkept rfl rfl (by simp [hp]) (by simp)
    · split <;> exact hkept rfl rfl (by simp [hp]) (by simp)
  | permit m rest q hp hg _ hq => exact ⟨_, hk, rfl, h.slots_permit hp hg hq⟩
  | push m rest hp hg =>
    refine ⟨_, hk, rfl, h.slots_spend hk hp hg (by simp) rfl rfl ?_⟩
    simp [Mpsc.pushReserved, Mpsc.push]
  | commit m rest outcome hp hg =>
    cases outcome with
    | delivered =>
      exact hkept (by simp [recordCommit]) (by simp [recordCommit]) (by simp [hp])
        (phase_afterMatch_ne _ _)
    | dropped | disconnectSlowConsumer | closed =>
      exact hkept (by simp) (by simp) (by simp [hp]) (phase_afterMatch_ne _ _)
  | dropGuard m rest hp hg => exact hkept (by simp) (by simp) (by simp [hp]) (by simp [hp])

/-- A visit pushes to the channel of the entry or leaves it. -/
theorem Local.visit_mpsc (ops : BusOps δ τ κ) (api : PublishApi) (env : EventEnvelope δ)
    (l : Local δ τ) : (l.visit ops api env).1.mpsc = l.mpsc ∨
      l.mpsc.trySend env = .ok (l.visit ops api env).1.mpsc := by
  unfold Local.visit
  split
  · exact .inl rfl
  · split
    · split
      · -- a coalesce queue
        unfold Local.visitCoalesce
        dsimp only
        split <;> exact .inl rfl
      · unfold Local.visitTryPublish
        split
        · rename_i q hq
          exact .inr hq
        · split
          · unfold Local.fireNotice
            split <;> exact .inl rfl
          · exact .inl rfl
        · exact .inl rfl
      · unfold Local.visitPublish
        split <;> exact .inl rfl
    · exact .inl rfl

/-- A visit moves permits and queue slots together. -/
theorem slots_visit {j : SubscriptionId} (hwf : b.WellFormed) (h : b.Permitted)
    (hs : b.visit ops k j = some b') :
    ∃ c c', b.calls[k]? = some c ∧ b'.calls = b.calls.set k c' ∧
      ∀ i, SlotsMove c c' i (b.mpsc i) (b'.mpsc i) := by
  obtain ⟨c, hk, hp, -, b₂, c₂, hentry, rfl⟩ := visit_cases hs
  obtain ⟨-, hcalls, -⟩ := visitEntry_call hentry
  obtain ⟨htouch, hcall⟩ :=
    visitEntry_spec ops { c with todo := c.todo.erase j } (hwf.view_fits j)
  rw [hentry] at htouch hcall
  dsimp only at htouch hcall
  -- a call in its loop holds no permit, and a visit gives it none
  have hold : ∀ i, c.permitFor i = 0 := fun i => Call.permitFor_of_ne (by simp [hp])
  have hnew : ∀ i, c₂.permitFor i = 0 :=
    fun i => Call.permitFor_of_ne (by simp [hcall, addDelta, hp])
  refine ⟨c, c₂, hk, calls_setCall_of hcalls k c₂, fun i => ?_⟩
  show SlotsMove c c₂ i (b.mpsc i) (b₂.mpsc i)
  by_cases hij : i = j
  · subst hij
    have hself := congrArg Local.mpsc htouch.self
    rcases (b.view i).visit_mpsc ops c.api c.envelope with hsame | hpush
    · exact h.slots_same (hself.trans hsame) (hold i) (hnew i)
    · have hslots := h.slots_push hpush (hold i) (hnew i)
      rw [Function.update_self] at hslots
      exact (show b₂.mpsc i = _ from hself) ▸ hslots
  · exact h.slots_same (congrArg Local.mpsc (htouch.other i hij)) (hold i) (hnew i)

omit [DecidableEq κ] in
theorem slots_cancel (h : b.Permitted) (hs : b.cancel k = some b') :
    ∃ c c', b.calls[k]? = some c ∧ b'.calls = b.calls.set k c' ∧
      ∀ i, SlotsMove c c' i (b.mpsc i) (b'.mpsc i) := by
  obtain ⟨c, hk, ⟨hp, rfl⟩ | ⟨m, rest, hp, hg, rfl⟩⟩ := cancel_cases hs
  · exact ⟨c, _, hk, rfl, h.slots_kept rfl (by simp [hp]) (by simp)⟩
  · exact ⟨c, _, hk, rfl, h.slots_spend hk hp hg (by simp) rfl rfl (by simp [Mpsc.release])⟩

/-- A step that moves no call and leaves the permits alone. -/
theorem Permitted.of_channels (h : b.Permitted) (hcalls : b'.calls = b.calls)
    (hopts : ∀ i, (b'.hist i).opts = (b.hist i).opts)
    (hmpsc : ∀ i, (b'.mpsc i).capacity = (b.mpsc i).capacity ∧
      (b'.mpsc i).reserved = (b.mpsc i).reserved ∧
      (b'.mpsc i).buf.length ≤ (b.mpsc i).buf.length) : b'.Permitted := by
  refine ⟨fun i => ?_, fun i => ?_, fun i opts hi hp => ?_⟩
  · obtain ⟨-, hreserved, -⟩ := hmpsc i
    rw [hreserved, h.reserved, permits_of_calls hcalls]
  · obtain ⟨hcap, hreserved, hbuf⟩ := hmpsc i
    have hold := h.bounded i
    omega
  · rw [(hmpsc i).1]
    exact h.capacity i opts (hopts i ▸ hi) hp

/-- The channel of a new subscription: the capacity it asked for, and nothing in it. -/
theorem permitted_subscribe (hwf : b.WellFormed) (h : b.Permitted) (topic : τ)
    (opts : SubscribeOpts) : (b.subscribe topic opts).Permitted := by
  have hcalls := calls_subscribe b topic opts
  have hu := hwf.untouched b.nextId (Nat.le_refl _)
  -- no call owes the new id anything
  have hzero : b.permits b.nextId = 0 := by
    unfold permits
    refine List.sum_eq_zero fun n hn => ?_
    obtain ⟨c, hc, rfl⟩ := List.mem_map.mp hn
    exact Call.permitFor_of_outstanding (hu.calls c hc).1
  unfold subscribe at hcalls ⊢
  dsimp only at hcalls ⊢
  split
  · -- a coalesce queue: no bounded channel
    rename_i path hpolicy
    refine ⟨h.reserved, h.bounded, fun i opts' hi hmpsc => ?_⟩
    by_cases hin : i = b.nextId
    · subst hin
      simp only [Function.update_self] at hi
      obtain rfl := Option.some.inj hi
      rw [hpolicy] at hmpsc
      cases hmpsc
    · simp only [Function.update_of_ne hin] at hi
      exact h.capacity i opts' hi hmpsc
  · split
    · -- a channel: empty, without permits, with the capacity of the options
      rename_i hcap
      refine ⟨fun i => ?_, fun i => ?_, fun i opts' hi hmpsc => ?_⟩
      · show (Function.update b.mpsc b.nextId _ i).reserved = b.permits i
        by_cases hin : i = b.nextId
        · subst hin
          rw [Function.update_self, hzero]
        · rw [Function.update_of_ne hin, h.reserved]
      · show (Function.update b.mpsc b.nextId _ i).buf.length +
          (Function.update b.mpsc b.nextId _ i).reserved ≤
            (Function.update b.mpsc b.nextId _ i).capacity
        by_cases hin : i = b.nextId
        · subst hin
          simp
        · rw [Function.update_of_ne hin]
          exact h.bounded i
      · show (Function.update b.mpsc b.nextId _ i).capacity = opts'.resolvedOutboundCapacity ∧
          1 ≤ (Function.update b.mpsc b.nextId _ i).capacity
        by_cases hin : i = b.nextId
        · subst hin
          have hopts : some opts = some opts' := by simpa [setMpsc] using hi
          obtain rfl := Option.some.inj hopts
          rw [Function.update_self]
          exact ⟨rfl, hcap.1⟩
        · rw [Function.update_of_ne hin]
          refine h.capacity i opts' ?_ hmpsc
          simpa [setMpsc, hin] using hi
    · -- the channel cannot be built, and the id stays unused
      exact ⟨h.reserved, h.bounded, h.capacity⟩

/-- Every action keeps permits and slots within the capacity. -/
theorem permitted_step (hwf : b.WellFormed) (h : b.Permitted) (hs : step ops b a = some b') :
    b'.Permitted := by
  have hopts : (∀ topic opts, a ≠ .subscribe topic opts) →
      ∀ i, (b'.hist i).opts = (b.hist i).opts := by
    intro ha i
    exact opts_of_effect (effect_of_step (fun topic opts h => absurd h (ha topic opts)) hs)
  cases a with
  | subscribe topic opts =>
    obtain rfl := step_subscribe hs
    exact permitted_subscribe hwf h topic opts
  | advance k =>
    obtain ⟨c, c', hk, hcalls, hslots⟩ := slots_advance h hs
    exact h.of_move hk hcalls (hopts (by simp)) hslots
  | visit k j =>
    obtain ⟨c, c', hk, hcalls, hslots⟩ := slots_visit hwf h hs
    exact h.of_move hk hcalls (hopts (by simp)) hslots
  | cancel k =>
    obtain ⟨c, c', hk, hcalls, hslots⟩ := slots_cancel h hs
    exact h.of_move hk hcalls (hopts (by simp)) hslots
  | unsubscribe j =>
    have hold := hopts (by simp)
    obtain rfl := step_unsubscribe hs
    exact h.of_channels (b.calls_reap j) hold fun i => by simp
  | publish env | tryPublish env =>
    obtain rfl := Option.some.inj hs
    refine ⟨fun i => ?_, h.bounded, h.capacity⟩
    -- the new call is before its size check
    have hold := h.reserved i
    unfold permits at hold ⊢
    rw [List.map_append, List.sum_append]
    simpa [Call.permitFor] using hold
  | recv j =>
    have hold := hopts (by simp)
    obtain ⟨env, hr⟩ := step_recv hs
    refine h.of_channels (frame_recv (i := j) hr).2 hold fun i => ?_
    rcases recv_cases hr with ⟨q, hq, rfl⟩ | ⟨state, rfl⟩
    · obtain ⟨hbuf, -, -⟩ := Mpsc.recv_some hq
      by_cases hij : i = j
      · subst hij
        have hq' : q.capacity = (b.mpsc i).capacity ∧ q.reserved = (b.mpsc i).reserved := by
          unfold Mpsc.recv at hq
          split at hq
          · cases hq
          · cases hq
            exact ⟨rfl, rfl⟩
        simp [setMpsc, hq', hbuf]
      · simp [setMpsc, hij]
    · exact ⟨rfl, rfl, Nat.le_refl _⟩
  | dropRx j =>
    have hold := hopts (by simp)
    obtain rfl := Option.some.inj hs
    refine h.of_channels rfl hold fun i => ?_
    by_cases hij : i = j
    · subst hij
      simp [dropRx, setMpsc, Mpsc.dropRx]
    · simp [dropRx, setMpsc, hij]
  | withMaxEventSize limit =>
    obtain rfl := Option.some.inj hs
    exact ⟨h.reserved, h.bounded, h.capacity⟩

/-- What the publish calls need in order to go on, and what the channels promise them. -/
structure Serviced (b : Bus δ τ) : Prop where
  wellFormed : b.WellFormed
  accounted : b.Accounted
  poised : ∀ c ∈ b.calls, c.Poised
  permitted : b.Permitted

theorem serviced_step (h : b.Serviced) (hs : step ops b a = some b') : b'.Serviced where
  wellFormed := wellFormed_step h.wellFormed hs
  accounted := accounted_step h.wellFormed h.accounted hs
  poised := poised_step h.wellFormed h.poised hs
  permitted := permitted_step h.wellFormed h.permitted hs

/-- **Every reachable state is serviced.** -/
theorem serviced_of_reachable {replayCapacity : ℕ} (h : (machine ops replayCapacity).Reachable b) :
    b.Serviced := by
  refine h.inv ?_ fun _ _ _ => serviced_step
  refine ⟨wellFormed_init ops replayCapacity, ?_, by simp [machine], ?_⟩
  · exact ⟨by simp [machine], by simp [machine], by simp [machine]⟩
  · exact ⟨fun _ => rfl, fun _ => Nat.le_refl _, by simp [machine]⟩

/-- A call that has ended holds no permit. -/
theorem permits_of_idle (hidle : b.Idle) (i : SubscriptionId) : b.permits i = 0 := by
  unfold permits
  refine List.sum_eq_zero fun n hn => ?_
  obtain ⟨c, hc, rfl⟩ := List.mem_map.mp hn
  apply Call.permitFor_of_ne
  intro hp
  have hended := hidle c hc
  rw [hp] at hended
  cases hended

/-- **A subscription never holds more than it asked for.**  In every reachable state the envelopes
queued for a subscription with a bounded channel, together with the slots that waiting publishers
were granted, fit into the capacity of its options; the slots are those of permits some call holds,
so none leaks: when no call is in flight, only queued envelopes take room. -/
theorem queue_within_capacity (ops : BusOps δ τ κ) (replayCapacity : ℕ)
    (h : (machine ops replayCapacity).Reachable b) {i : SubscriptionId} {opts : SubscribeOpts}
    (hopts : (b.hist i).opts = some opts) (hmpsc : opts.slowConsumerPolicy.isMpsc = true) :
    (b.mpsc i).buf.length + b.permits i ≤ opts.resolvedOutboundCapacity ∧
      (b.mpsc i).reserved = b.permits i ∧
      (b.Idle → ∀ env, (b.mpsc i).rxAlive = true →
        ((b.mpsc i).trySend env = .error .full ↔
          (b.mpsc i).buf.length = opts.resolvedOutboundCapacity)) := by
  have hp := (serviced_of_reachable h).permitted
  obtain ⟨hcap, -⟩ := hp.capacity i opts hopts hmpsc
  have hreserved := hp.reserved i
  have hbound := hp.bounded i
  -- with no call in flight there is no permit, so room is what is not queued
  refine ⟨by omega, hreserved, fun hidle env halive => ?_⟩
  have hzero := permits_of_idle hidle i
  rw [Mpsc.trySend_of_rxAlive halive]
  unfold Mpsc.hasRoom
  by_cases hroom : (b.mpsc i).buf.length + (b.mpsc i).reserved < (b.mpsc i).capacity
  · simp only [hroom, decide_true, if_true]
    constructor
    · intro hfull
      cases hfull
    · intro hlen
      omega
  · simp only [hroom, decide_false, Bool.false_eq_true, if_false, true_iff]
    omega

end Permitted

/-! ### Witness -/

/-- A `Backpressure` subscription with one slot: a publish fills it, a second one waits, the
consumer takes the first envelope and the second call is granted the slot. -/
def grantedSlot : List (BusAction Unit Unit) :=
  [.subscribe () { outboundCapacity := some 1, slowConsumerPolicy := .backpressure },
    .publish (.nth 1), .advance 0, .advance 0, .advance 0, .visit 0 1, .advance 0, .advance 0,
    .advance 0, .publish (.nth 2), .advance 1, .advance 1, .advance 1, .visit 1 1, .advance 1,
    .advance 1, .recv 1, .advance 1]

theorem queue_within_capacity_grantedSlot : ∃ b : Bus Unit Unit,
    (machine BusOps.matchAll 8).run (machine BusOps.matchAll 8).init grantedSlot = some b ∧
      b.permits 1 = 1 ∧ (b.mpsc 1).buf.length + b.permits 1 ≤ 1 := by
  refine ⟨_, rfl, rfl, ?_⟩
  have hbound := queue_within_capacity (i := 1) BusOps.matchAll 8 ⟨grantedSlot, rfl⟩ rfl rfl
  exact hbound.1

end Bus

end Boardwalk
