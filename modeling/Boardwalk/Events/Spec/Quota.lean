import Boardwalk.Events.Spec.Invariant
import Boardwalk.Lib.Ledger

/-!
# The delivery quota of a subscription

A subscription created with a limit `L` has a ledger: the entry holds the balance (`remaining`,
`in_flight`), the publish calls hold the claims, the history counts the committed deliveries and the
channel the envelopes ever enqueued.  `ledgerStep_of_effect` shows that every effect of the bus is a
move of that ledger, so the conservation law of `Lib.Ledger` carries over to every interleaving.

The async `publish` keeps the law by itself.  `try_publish` delivers without a claim and takes the
quota from `remaining` with a saturating subtraction, so it keeps the law as long as it never
delivers while all of the remaining quota is claimed by other calls.
-/

namespace Boardwalk

namespace Bus

variable {δ τ κ : Type} [DecidableEq κ]

/-- Subscription `i` was created with limit `L` and a policy backed by a bounded channel. -/
def Limited (b : Bus δ τ) (i : SubscriptionId) (L : ℕ) : Prop :=
  ∃ opts, (b.hist i).opts = some opts ∧ opts.slowConsumerPolicy.isMpsc = true ∧
    opts.limit = some L

/-- The ledger of subscription `i`. -/
def ledger (b : Bus δ τ) (i : SubscriptionId) : Ledger where
  account := (b.subs i).bind fun sub => sub.remaining.map fun rem => ⟨rem, sub.inFlight⟩
  outstanding := (b.calls.map (Call.outstanding i)).sum
  landed := (b.calls.map (Call.landed i)).sum
  committed := (b.hist i).committed
  total := (b.mpsc i).enqueued.length

/-! ### The bus moves the ledger -/

section Moves

variable {i : SubscriptionId} {b b' : Bus δ τ} {ops : BusOps δ τ κ} {a : BusAction δ τ}

/-- Calls that keep leave a subscription's claims and landings as they were. -/
theorem tally_of_callsKeep (h : CallsKeep i b b') :
    (b'.ledger i).outstanding = (b.ledger i).outstanding ∧
      (b'.ledger i).landed = (b.ledger i).landed := by
  unfold ledger
  cases h with
  | same hcalls => simp [hcalls]
  | start api env hcalls =>
    simp [hcalls, Call.outstanding, Call.landed]
  | move k c c' hk hcalls hkeeps =>
    have ho := sum_map_set (Call.outstanding i) hk c'
    have hl := sum_map_set (Call.landed i) hk c'
    have := hkeeps.outstanding
    have := hkeeps.landed
    simp only [hcalls]
    omega

/-- One call moves: the tallies change by what it holds. -/
theorem tally_of_set {k : ℕ} {c c' : Call δ} (hk : b.calls[k]? = some c)
    (hcalls : b'.calls = b.calls.set k c') :
    (b'.ledger i).outstanding + c.outstanding i = (b.ledger i).outstanding + c'.outstanding i ∧
      (b'.ledger i).landed + c.landed i = (b.ledger i).landed + c'.landed i := by
  simp only [ledger, hcalls]
  exact ⟨sum_map_set _ hk c', sum_map_set _ hk c'⟩

/-- A call with an unsent claim shows in the ledger. -/
theorem landed_lt_of_unsent {k : ℕ} {c : Call δ} (hk : b.calls[k]? = some c) (h : c.Unsent i) :
    (b.ledger i).landed < (b.ledger i).outstanding :=
  sum_map_lt_sum_map hk h (Call.landed_le_outstanding i)

theorem account_of_subs (h : b'.subs i = b.subs i) :
    (b'.ledger i).account = (b.ledger i).account := by
  simp only [ledger, h]

theorem total_of_enqueued (h : (b'.mpsc i).enqueued = (b.mpsc i).enqueued) :
    (b'.ledger i).total = (b.ledger i).total := by
  simp only [ledger, h]

theorem committed_of_hist (h : (b'.hist i).committed = (b.hist i).committed) :
    (b'.ledger i).committed = (b.ledger i).committed := h

/-- **Every effect is a move of the ledger** of a limited subscription. -/
theorem ledgerStep_of_effect
    (hlim : ∀ sub, b.subs i = some sub → ∃ rem, sub.remaining = some rem)
    (hout : ∀ sub, b.subs i = some sub → sub.outbound = .mpsc) (h : Effect i b a b') :
    Ledger.Step (b.ledger i) (b'.ledger i) := by
  cases h with
  | quiet hf hc =>
    obtain ⟨ho, hl⟩ := tally_of_callsKeep hc
    exact .quiet (account_of_subs hf.subs) ho hl (committed_of_hist (by rw [hf.hist]))
      (total_of_enqueued hf.enqueued)
  | claim k c c' sub sub' hk hcalls he hclaim hs hn hh hq hapi henv ho hl hsend =>
    obtain ⟨rem, hrem⟩ := hlim sub he
    -- the claim loop skips an entry whose quota is used up
    obtain ⟨rfl, hne⟩ := SubscriptionInner.claim_some hclaim
    obtain ⟨hto, htl⟩ := tally_of_set (i := i) hk hcalls
    have hpos : 0 < rem := Nat.pos_of_ne_zero fun h0 => hne (h0 ▸ hrem)
    exact .claim ⟨rem, sub.inFlight⟩ (by simp [ledger, he, hrem]) hpos
      (by simp [ledger, hs, hrem]) (by omega) (by omega) (committed_of_hist (by rw [hh]))
      (total_of_enqueued hq)
  | land k c c' hk hcalls hs hn hh hq hapi henv ho hun hl hsend =>
    obtain ⟨hto, htl⟩ := tally_of_set (i := i) hk hcalls
    refine .land (landed_lt_of_unsent hk ?_) (account_of_subs hs) (by omega) (by omega)
      (committed_of_hist (by rw [hh])) ?_
    · have := hun.2
      rw [Call.Unsent, hun.1]
      exact this
    · simp [ledger, hq]
  | delivered k c c' hk hcalls hsent hres hs hn hh hq =>
    obtain ⟨hto, htl⟩ := tally_of_set (i := i) hk hcalls
    have := hres.outstanding
    have := hres.landed
    refine .commit ?_ (by omega) (by omega) (by simp [ledger, hh]) (total_of_enqueued hq)
    -- the entry's exhaustion test is the ledger's
    cases he : b.subs i with
    | none => simp [ledger, hs, he]
    | some sub =>
      obtain ⟨rem, hrem⟩ := hlim sub he
      by_cases hex : rem = 0 ∧ sub.inFlight - 1 = 0
      · simp [ledger, hs, he, hrem, SubscriptionInner.exhausted, SubscriptionInner.deliver, hex]
      · simp [ledger, hs, he, hrem, SubscriptionInner.exhausted, SubscriptionInner.deliver, hex]
  | refund k c c' hk hcalls hun hres hcause hs hn hh hq =>
    obtain ⟨hto, htl⟩ := tally_of_set (i := i) hk hcalls
    have := hres.outstanding
    have := hres.landed
    refine .refund (landed_lt_of_unsent hk (by rw [Call.Unsent]; omega)) ?_ (by omega) (by omega)
      (committed_of_hist (by rw [hh])) (total_of_enqueued hq)
    cases he : b.subs i with
    | none => simp [ledger, hs, he]
    | some sub =>
      obtain ⟨rem, hrem⟩ := hlim sub he
      simp [ledger, hs, he, hrem, SubscriptionInner.refund]
  | disconnect k c c' sub haction hk hcalls hp hhead hun hres he hs hn hh hq =>
    obtain ⟨hto, htl⟩ := tally_of_set (i := i) hk hcalls
    have := hres.outstanding
    have := hres.landed
    exact .forfeit (landed_lt_of_unsent hk (by rw [Call.Unsent]; omega)) (by simp [ledger, hs])
      (by omega) (by omega) (committed_of_hist (by rw [hh])) (total_of_enqueued hq)
  | closed k c c' hk hcalls hun hres hg =>
    obtain ⟨hto, htl⟩ := tally_of_set (i := i) hk hcalls
    have := hres.outstanding
    have := hres.landed
    exact .forfeit (landed_lt_of_unsent hk (by rw [Call.Unsent]; omega)) (by simp [ledger, hg.subs])
      (by omega) (by omega) (committed_of_hist (by rw [hg.hist])) (total_of_enqueued hg.enqueued)
  | removed hg hc =>
    obtain ⟨ho, hl⟩ := tally_of_callsKeep hc
    exact .close (by simp [ledger, hg.subs]) ho hl (committed_of_hist (by rw [hg.hist]))
      (total_of_enqueued hg.enqueued)
  | fired k c sub hk hapi he harm hs hn hh hq hc =>
    obtain ⟨ho, hl⟩ := tally_of_callsKeep hc
    exact .quiet (by simp [ledger, hs, he]) ho hl (committed_of_hist (by rw [hh]))
      (total_of_enqueued hq)
  | coalesced env sub he hco =>
    -- a limited subscription with a bounded channel has no coalesce queue
    rw [hout sub he] at hco
    cases hco

omit [DecidableEq κ] in
/-- **A direct delivery is a delivery past the claims.** -/
theorem ledgerDirect_of_direct
    (hlim : ∀ sub, b.subs i = some sub → ∃ rem, sub.remaining = some rem)
    (h : Direct ops i b a b') :
    ∃ acc : Account, Ledger.Direct (b.ledger i) (b'.ledger i) acc ∧
      ∃ sub, b.subs i = some sub ∧ sub.remaining = some acc.remaining := by
  obtain ⟨k, c, sub, ha, hk, hp, hapi, he, hm, hroom, hout, hs, hn, hh, hq, hc⟩ := h
  obtain ⟨rem, hrem⟩ := hlim sub he
  obtain ⟨ho, hl⟩ := tally_of_callsKeep hc
  refine ⟨⟨rem, sub.inFlight⟩, ⟨?_, ?_, ho, hl, ?_, ?_⟩, sub, he, hrem⟩
  · simp [ledger, he, hrem]
  · simp [ledger, hs, hrem, SubscriptionInner.deliverNow]
  · simp [ledger, hh]
  · simp [ledger, hq]

end Moves

/-! ### The conservation law over runs -/

section Runs

variable {i : SubscriptionId} {L : ℕ} {b b' : Bus δ τ} {ops : BusOps δ τ κ} {a : BusAction δ τ}

theorem Limited.remaining (hb : b.WellFormed) (h : b.Limited i L) :
    ∀ sub, b.subs i = some sub → ∃ rem, sub.remaining = some rem := by
  obtain ⟨opts, hopts, -, hlimit⟩ := h
  intro sub hsub
  obtain ⟨opts', hopts', hfits⟩ := hb.entry i sub hsub
  obtain rfl : opts = opts' := Option.some.inj (hopts.symm.trans hopts')
  have := hfits.limited
  rw [hlimit] at this
  exact Option.isSome_iff_exists.mp this

theorem Limited.outbound (hb : b.WellFormed) (h : b.Limited i L) :
    ∀ sub, b.subs i = some sub → sub.outbound = .mpsc := by
  obtain ⟨opts, hopts, hpolicy, -⟩ := h
  exact hb.outbound_mpsc hopts hpolicy

/-- A limited subscription was limited before the step, which had an effect on it, or the step has
created it with a fresh ledger. -/
theorem limited_of_step (hb : b.WellFormed) (hs : step ops b a = some b') (h : b'.Limited i L) :
    b.Limited i L ∧ (Effect i b a b' ∨ Direct ops i b a b') ∨
      b'.ledger i = ⟨some ⟨L, 0⟩, 0, 0, 0, 0⟩ := by
  rcases effect_or_created i hs with heff | ⟨rfl, topic, opts, rfl⟩
  · obtain ⟨opts, hopts, hpolicy, hlimit⟩ := h
    exact .inl ⟨⟨opts, (opts_of_effect heff).symm.trans hopts, hpolicy, hlimit⟩, heff⟩
  · obtain ⟨opts', hopts', hpolicy, hlimit⟩ := h
    have hu := hb.untouched b.nextId (Nat.le_refl _)
    rcases subscribe_cases b topic opts hu with hu' | ⟨sub, hsub, rfl, hhist, -, henq⟩
    · rw [hu'.hist] at hopts'
      cases hopts'
    · obtain rfl : opts = opts' := by simpa [hhist] using hopts'
      -- no call holds a claim on an id that was not handed out
      have hzero : ∀ f : Call δ → ℕ, (∀ c ∈ b.calls, f c = 0) → (b.calls.map f).sum = 0 := by
        intro f hf
        refine List.sum_eq_zero fun x hx => ?_
        obtain ⟨c, hc, rfl⟩ := List.mem_map.mp hx
        exact hf c hc
      have hland : ∀ c ∈ b.calls, c.landed b.nextId = 0 := by
        intro c hc
        have := c.landed_le_outstanding b.nextId
        have := (hu.calls c hc).1
        omega
      right
      simp [ledger, hsub, hhist, henq, calls_subscribe, hlimit, hzero _ hland,
        hzero _ fun c hc => (hu.calls c hc).1]

/-- A `try_publish` is about to enqueue to `i` although none of the quota is left unclaimed. -/
def Overdraws (ops : BusOps δ τ κ) (i : SubscriptionId) (b : Bus δ τ) : BusAction δ τ → Prop
  | .visit k j => j = i ∧ ∃ c ∈ b.calls[k]?, ∃ sub ∈ b.subs j,
      c.phase = .fanout ∧ c.api = .tryPublish ∧ sub.remaining = some 0 ∧ sub.outbound = .mpsc ∧
      ops.matchesEvent sub.topic c.envelope.topic c.envelope.data = true ∧
      (b.mpsc j).rxAlive = true ∧ (b.mpsc j).hasRoom = true
  | _ => False

instance (ops : BusOps δ τ κ) (i : SubscriptionId) (b : Bus δ τ) :
    ∀ a, Decidable (Overdraws ops i b a)
  | .visit k j => inferInstanceAs (Decidable (j = i ∧ ∃ c ∈ b.calls[k]?, ∃ sub ∈ b.subs j, _))
  | .subscribe _ _ | .unsubscribe _ | .publish _ | .tryPublish _ | .advance _ | .cancel _
  | .recv _ | .dropRx _ | .withMaxEventSize _ => isFalse id

omit [DecidableEq κ] in
theorem overdraws_of_direct (h : Direct ops i b a b') {sub : SubscriptionInner τ}
    (hsub : b.subs i = some sub) (hrem : sub.remaining = some 0) : Overdraws ops i b a := by
  obtain ⟨k, c, sub', rfl, hk, hp, hapi, he, hm, hroom, hout, -⟩ := h
  obtain rfl : sub = sub' := Option.some.inj (hsub.symm.trans he)
  exact ⟨rfl, c, hk, sub, hsub, hp, hapi, hrem, hout, hm, hroom⟩

/-- **One step that does not overdraw keeps the conservation law.** -/
theorem conserved_step (hb : b.WellFormed) (hno : ¬ Overdraws ops i b a)
    (hs : step ops b a = some b') (hcons : ∀ L, b.Limited i L → Ledger.Conserved L (b.ledger i)) :
    ∀ L, b'.Limited i L → Ledger.Conserved L (b'.ledger i) := by
  intro L hL'
  rcases limited_of_step hb hs hL' with ⟨hL, heff | hdir⟩ | hfresh
  · exact (hcons L hL).step
      (ledgerStep_of_effect (hL.remaining hb) (hL.outbound hb) heff)
  · obtain ⟨acc, hd, sub, hsub, hrem⟩ := ledgerDirect_of_direct (hL.remaining hb) hdir
    refine (hcons L hL).direct hd (Nat.pos_of_ne_zero fun h0 => hno ?_)
    exact overdraws_of_direct hdir hsub (h0 ▸ hrem)
  · rw [hfresh]
    exact Ledger.Conserved.fresh L

/-- **The limit is respected across both publish APIs** in every run in which no `try_publish`
enqueues to the subscription while none of its quota is left unclaimed. -/
theorem enqueued_le_limit_of_not_overdraws (ops : BusOps δ τ κ) (replayCapacity : ℕ)
    (i : SubscriptionId) (as : List (BusAction δ τ))
    (hno : (machine ops replayCapacity).StepsMeet (fun b a => ¬ Overdraws ops i b a)
      (machine ops replayCapacity).init as) :
    (machine ops replayCapacity).StatesMeet
      (fun b => ∀ L, b.Limited i L → (b.mpsc i).enqueued.length ≤ L)
      (machine ops replayCapacity).init as := by
  have hall : (machine ops replayCapacity).StatesMeet
      (fun b => b.WellFormed ∧ ∀ L, b.Limited i L → Ledger.Conserved L (b.ledger i))
      (machine ops replayCapacity).init as := by
    refine Machine.statesMeet_of_stepsMeet ?_ ?_ hno
    · rintro b a b' ⟨hb, hcons⟩ hna hs
      exact ⟨wellFormed_step hb hs, conserved_step hb hna hs hcons⟩
    · refine ⟨wellFormed_init ops replayCapacity, ?_⟩
      rintro L ⟨opts, hopts, -⟩
      cases hopts
  exact hall.mono fun b hb L hL => (hb.2 L hL).total_le

/-! ### Runs of the async `publish` alone -/

/-- Only the async `publish` is in progress. -/
def AllAsync (b : Bus δ τ) : Prop := ∀ c ∈ b.calls, c.api = .publish

/-- Without `try_publish` every call stays an async publish. -/
theorem allAsync_step (hb : b.AllAsync) (ha : ∀ env, a ≠ .tryPublish env)
    (hs : step ops b a = some b') : b'.AllAsync := by
  cases callsNext_of_step hs with
  | same hcalls => rw [AllAsync, hcalls]; exact hb
  | publish env _ hcalls => exact Party.forall_mem_concat hcalls hb rfl
  | tryPublish env haction => exact absurd haction (ha env)
  | advance k c c' hk hcalls hadv =>
    exact Party.forall_mem_set hcalls hb (hadv.api.trans (hb c (List.mem_of_getElem? hk)))
  | visit k j c c' hk hcalls hapi =>
    exact Party.forall_mem_set hcalls hb (hapi.trans (hb c (List.mem_of_getElem? hk)))
  | cancel k c c' _ hk hcalls hapi =>
    exact Party.forall_mem_set hcalls hb (hapi.trans (hb c (List.mem_of_getElem? hk)))

omit [DecidableEq κ] in
theorem AllAsync.not_direct (hb : b.AllAsync) : ¬ Direct ops i b a b' := by
  rintro ⟨k, c, sub, ha, hk, hp, hapi, -⟩
  rw [hb c (List.mem_of_getElem? hk)] at hapi
  cases hapi

omit [DecidableEq κ] in
theorem AllAsync.not_overdraws (hb : b.AllAsync) : ¬ Overdraws ops i b a := by
  intro h
  cases a with
  | visit k j =>
    obtain ⟨-, c, hk, sub, -, -, hapi, -⟩ := h
    rw [hb c (List.mem_of_getElem? hk)] at hapi
    cases hapi
  | _ => exact h

/-- What every state of an async-only run satisfies. -/
structure AsyncInv (b : Bus δ τ) : Prop where
  wellFormed : b.WellFormed
  allAsync : b.AllAsync
  conserved : ∀ i L, b.Limited i L → Ledger.Conserved L (b.ledger i)
  live : ∀ i L, b.Limited i L → 1 ≤ L → Ledger.Live (b.ledger i)

theorem asyncInv_init (ops : BusOps δ τ κ) (replayCapacity : ℕ) :
    (machine ops replayCapacity).init.AsyncInv where
  wellFormed := wellFormed_init ops replayCapacity
  allAsync := by simp [AllAsync, machine]
  conserved := by rintro i L ⟨opts, hopts, -⟩; cases hopts
  live := by rintro i L ⟨opts, hopts, -⟩; cases hopts

/-- Without `try_publish` every action keeps the invariant of the async bus. -/
theorem asyncInv_step (hb : b.AsyncInv) (ha : ∀ env, a ≠ .tryPublish env)
    (hs : step ops b a = some b') : b'.AsyncInv where
  wellFormed := wellFormed_step hb.wellFormed hs
  allAsync := allAsync_step hb.allAsync ha hs
  conserved i :=
    conserved_step hb.wellFormed hb.allAsync.not_overdraws hs (hb.conserved i)
  live i L hL' h1 := by
    rcases limited_of_step hb.wellFormed hs hL' with ⟨hL, heff | hdir⟩ | hfresh
    · exact (hb.live i L hL h1).step
        (ledgerStep_of_effect (hL.remaining hb.wellFormed) (hL.outbound hb.wellFormed) heff)
    · exact absurd hdir hb.allAsync.not_direct
    · rw [hfresh]
      rintro acc ⟨⟩
      exact h1

theorem asyncInv_of_run {replayCapacity : ℕ} {as : List (BusAction δ τ)}
    (hrun : (machine ops replayCapacity).run (machine ops replayCapacity).init as = some b)
    (hasync : ∀ env, BusAction.tryPublish env ∉ as) : b.AsyncInv := by
  have hsteps : (machine ops replayCapacity).StepsMeet (fun _ a => ∀ env, a ≠ .tryPublish env)
      (machine ops replayCapacity).init as :=
    Machine.StepsMeet.of_forall_mem fun a ha _ env h => hasync env (h ▸ ha)
  have hall : (machine ops replayCapacity).StatesMeet AsyncInv
      (machine ops replayCapacity).init as :=
    Machine.statesMeet_of_stepsMeet (fun _ _ _ hb ha hs => asyncInv_step hb ha hs)
      (asyncInv_init ops replayCapacity) hsteps
  exact hall.last hrun

end Runs

end Bus

/-- The call is about to give back a claim on `i`: its send was dropped, or it was cancelled. -/
def Call.GivesBack {δ : Type} (i : SubscriptionId) (c : Call δ) : Prop :=
  (c.phase = .commit .dropped ∨ c.phase = .unwind) ∧ c.guards.head?.map (·.id) = some i

namespace Bus

variable {δ τ κ : Type} [DecidableEq κ]

section Main

variable {i : SubscriptionId} {L : ℕ} {b b' : Bus δ τ} {ops : BusOps δ τ κ} {k : ℕ} {c : Call δ}

omit [DecidableEq κ] in
/-- A call that gives a claim back changes, beside itself, that quota only. -/
theorem advance_givesBack (hk : b.calls[k]? = some c) (hc : c.GivesBack i)
    (hs : b.advance ops k = some b') : ∃ c', b' = (b.refundClaim i).setCall k c' := by
  obtain ⟨hphase, hhead⟩ := hc
  obtain ⟨m, rest, hg, rfl⟩ := Call.guards_of_head hhead
  rcases hphase with hp | hp
  · simp only [advance, hk, hp, hg] at hs
    split at hs
    · exact ⟨_, (Option.some.inj hs).symm⟩
    · cases hs
  · simp only [advance, hk, hp, hg] at hs
    split at hs
    · exact ⟨_, (Option.some.inj hs).symm⟩
    · cases hs

omit [DecidableEq κ] in
theorem advance_delivered (hk : b.calls[k]? = some c) (hp : c.phase = .commit .delivered)
    (hhead : c.guards.head?.map (·.id) = some i) (hs : b.advance ops k = some b') :
    ∃ c', b' = ((b.commitDelivered i c.envelope).recordCommit i).setCall k c' := by
  obtain ⟨m, rest, hg, rfl⟩ := Call.guards_of_head hhead
  simp only [advance, hk, hp, hg] at hs
  split at hs
  · exact ⟨_, (Option.some.inj hs).symm⟩
  · cases hs

/-- The claim a call holds is in flight. -/
theorem inFlight_pos (hcons : Ledger.Conserved L (b.ledger i)) (hk : b.calls[k]? = some c)
    (hhead : c.guards.head?.map (·.id) = some i) {sub : SubscriptionInner τ} {rem : ℕ}
    (hsub : b.subs i = some sub) (hrem : sub.remaining = some rem) : 0 < sub.inFlight := by
  have hfl := hcons.inFlight_eq ⟨rem, sub.inFlight⟩ (by simp [ledger, hsub, hrem])
  have hone : 0 < c.outstanding i := by
    obtain ⟨m, rest, hg, hm⟩ := Call.guards_of_head hhead
    rw [Call.outstanding_cons hg, if_pos hm]
    omega
  have hle : 0 < (b.ledger i).outstanding := by
    have h0 := sum_map_lt_sum_map (f := fun _ => 0) (g := Call.outstanding i) hk hone
      fun _ => Nat.zero_le _
    exact Nat.lt_of_le_of_lt (Nat.zero_le _) h0
  simp only at hfl
  omega

omit [DecidableEq κ] in
/-- A claim that is given back returns to the quota, and nothing was enqueued for it. -/
theorem refund_of_givesBack (hb : b.AsyncInv) (hlim : b.Limited i L) (hk : b.calls[k]? = some c)
    (hc : c.GivesBack i) (hs : b.advance ops k = some b') :
    (b'.hist i).committed = (b.hist i).committed ∧ (b'.mpsc i).enqueued = (b.mpsc i).enqueued ∧
      ∀ sub rem, b.subs i = some sub → sub.remaining = some rem →
        ∃ sub', b'.subs i = some sub' ∧ sub'.remaining = some (rem + 1) ∧
          sub'.inFlight + 1 = sub.inFlight := by
  obtain ⟨c', rfl⟩ := advance_givesBack hk hc hs
  refine ⟨?_, ?_, fun sub rem hsub hrem => ?_⟩
  · simp only [setCall, refundClaim]; split <;> rfl
  · simp only [setCall, refundClaim]; split <;> rfl
  · have hpos := inFlight_pos (hb.conserved i L hlim) hk hc.2 hsub hrem
    refine ⟨sub.refund, by simp [setCall, refundClaim, hsub, setSub], ?_, ?_⟩
    · simp [SubscriptionInner.refund, hrem]
    · simp only [SubscriptionInner.refund]; omega

/-- The `Delivered` commit removes the entry only when the whole quota was delivered. -/
theorem delivered_of_exhausted (hb : b.AsyncInv) (hlim : b.Limited i L) (hk : b.calls[k]? = some c)
    (hp : c.phase = .commit .delivered) (hhead : c.guards.head?.map (·.id) = some i)
    {sub : SubscriptionInner τ} (hsub : b.subs i = some sub) (hs : b.advance ops k = some b')
    (hgone : b'.subs i = none) : (b'.hist i).committed = L ∧ (b'.mpsc i).enqueued.length = L := by
  obtain ⟨rem, hrem⟩ := hlim.remaining hb.wellFormed sub hsub
  have hcons := hb.conserved i L hlim
  have hfl := inFlight_pos hcons hk hhead hsub hrem
  have hbal := hcons.balance ⟨rem, sub.inFlight⟩ (by simp [ledger, hsub, hrem])
  have hcons' : Ledger.Conserved L (b'.ledger i) := by
    have hstep : step ops b (.advance k) = some b' := hs
    refine (asyncInv_step hb (by simp) hstep).conserved i L ?_
    obtain ⟨opts, hopts, hrest⟩ := hlim
    exact ⟨opts, (opts_of_effect (hb.wellFormed.effect hopts hstep)).trans hopts, hrest⟩
  obtain ⟨c', rfl⟩ := advance_delivered hk hp hhead hs
  -- the entry went because it was exhausted, so this was the last claim
  have hex : rem = 0 ∧ sub.inFlight - 1 = 0 := by
    by_contra hne
    have : ¬ (sub.deliver c.envelope.position).exhausted = true := by
      simpa [SubscriptionInner.exhausted, SubscriptionInner.deliver, hrem] using hne
    simp [setCall, recordCommit, commitDelivered, hsub, this, setSub] at hgone
  have hcommit : ((((b.commitDelivered i c.envelope).recordCommit i).setCall k c').ledger
      i).committed = (b.hist i).committed + 1 := by
    have : ((b.commitDelivered i c.envelope).hist i).committed = (b.hist i).committed := by
      simp only [commitDelivered, hsub, remove, setSub]
      split
      · split <;> rfl
      · rfl
    simp [ledger, setCall, recordCommit, this]
  have htot := hcons'.total_eq
  have hbound := hcons'.bound
  have hland := hcons'.landed_le
  simp only [ledger] at hbal hcommit htot hbound hland ⊢
  omega

end Main

/-- **The quota ledger of the async `publish`.**  In every state of every run that uses only the
async `publish`, for a subscription created with limit `L ≥ 1` and a bounded channel: while the
entry is in the map its balance adds up to `L` and is not spent with nothing in flight; at most `L`
envelopes were ever enqueued; a dropped send and a cancelled one give their claim back (cancelling
itself enqueues nothing, the guards' drops do the rest); and the `Delivered` commit removes the
entry only when exactly `L` envelopes were delivered. -/
theorem publish_quota_ledger (ops : BusOps δ τ κ) (replayCapacity : ℕ) {as : List (BusAction δ τ)}
    {b : Bus δ τ}
    (hrun : (machine ops replayCapacity).run (machine ops replayCapacity).init as = some b)
    (hasync : ∀ env, BusAction.tryPublish env ∉ as) {i : SubscriptionId} {L : ℕ}
    (hlim : b.Limited i L) (hL : 1 ≤ L) :
    (∀ sub, b.subs i = some sub → ∃ rem, sub.remaining = some rem ∧
      (b.hist i).committed + rem + sub.inFlight = L ∧ ¬ (rem = 0 ∧ sub.inFlight = 0)) ∧
    (b.mpsc i).enqueued.length ≤ L ∧
    (∀ k b', step ops b (.cancel k) = some b' → b'.subs i = b.subs i ∧
      (b'.hist i).committed = (b.hist i).committed ∧
      (b'.mpsc i).enqueued = (b.mpsc i).enqueued) ∧
    (∀ k c b', b.calls[k]? = some c → c.GivesBack i → step ops b (.advance k) = some b' →
      (b'.hist i).committed = (b.hist i).committed ∧ (b'.mpsc i).enqueued = (b.mpsc i).enqueued ∧
      ∀ sub rem, b.subs i = some sub → sub.remaining = some rem →
        ∃ sub', b'.subs i = some sub' ∧ sub'.remaining = some (rem + 1) ∧
          sub'.inFlight + 1 = sub.inFlight) ∧
    (∀ k c sub b', b.calls[k]? = some c → c.phase = .commit .delivered →
      c.guards.head?.map (·.id) = some i → b.subs i = some sub →
      step ops b (.advance k) = some b' → b'.subs i = none →
      (b'.hist i).committed = L ∧ (b'.mpsc i).enqueued.length = L) := by
  have hb := asyncInv_of_run hrun hasync
  have hcons := hb.conserved i L hlim
  -- the four parts: the balance, the bound, who cancels, who gives back, and the last delivery
  refine ⟨fun sub hsub => ?_, hcons.total_le, fun k b' hs => ?_, fun k c b' hk hc hs => ?_,
    fun k c sub b' hk hp hhead hsub hs hgone => ?_⟩
  · obtain ⟨rem, hrem⟩ := hlim.remaining hb.wellFormed sub hsub
    have hacc : (b.ledger i).account = some ⟨rem, sub.inFlight⟩ := by simp [ledger, hsub, hrem]
    have hbal := hcons.balance _ hacc
    have hlive := hb.live i L hlim hL _ hacc
    refine ⟨rem, hrem, hbal, ?_⟩
    -- an entry with nothing left and nothing in flight would be gone
    rintro ⟨hr0, hf0⟩
    simp only [hr0, hf0] at hlive
    omega
  · have hframe : Frame i b b' := (keeps_cancel hs).1
    exact ⟨hframe.subs, by rw [hframe.hist], hframe.enqueued⟩
  · exact refund_of_givesBack hb hlim hk hc hs
  · exact delivered_of_exhausted hb hlim hk hp hhead hsub hs hgone

/-- Two publishers compete for a limit of one: the first claims and delivers, the second finds the
quota claimed and returns. -/
def competingPublishers : List (BusAction Unit Unit) :=
  [.subscribe () { limit := some 1 }, .publish (.nth 1), .publish (.nth 2),
    .advance 0, .advance 0, .advance 0, .visit 0 1, .advance 0,
    .advance 1, .advance 1, .advance 1, .visit 1 1, .advance 1, .advance 0]

/-- The ledger of a limit of one adds up after two publishers have competed for it. -/
theorem publish_quota_ledger_competing : ∃ b : Bus Unit Unit,
    (machine .matchAll 10).run (machine .matchAll 10).init competingPublishers = some b ∧
    b.Limited 1 1 ∧ ∃ sub, b.subs 1 = some sub ∧ ∃ rem, sub.remaining = some rem ∧
      (b.hist 1).committed + rem + sub.inFlight = 1 ∧ ¬ (rem = 0 ∧ sub.inFlight = 0) := by
  have hend : ∃ b : Bus Unit Unit,
      (machine .matchAll 10).run (machine .matchAll 10).init competingPublishers = some b ∧
      b.Limited 1 1 ∧ ∃ sub, b.subs 1 = some sub :=
    ⟨_, rfl, ⟨{ limit := some 1 }, rfl, rfl, rfl⟩, _, rfl⟩
  obtain ⟨b, hrun, hlim, sub, hsub⟩ := hend
  have hasync : ∀ env, BusAction.tryPublish env ∉ competingPublishers := by
    simp [competingPublishers]
  have hledger := publish_quota_ledger .matchAll 10 hrun hasync hlim (Nat.le_refl 1)
  exact ⟨b, hrun, hlim, sub, hsub, hledger.1 sub hsub⟩

/-- A limit of two, one envelope by each of the two publish calls. -/
def bothApis : List (BusAction Unit Unit) :=
  [.subscribe () { limit := some 2 }, .publish (.nth 1), .tryPublish (.nth 2),
    .advance 0, .advance 0, .advance 0, .visit 0 1, .advance 0,
    .advance 1, .advance 1, .advance 1, .visit 1 1, .advance 1, .advance 0, .advance 0]

theorem enqueued_le_limit_bothApis :
    (∃ b : Bus Unit Unit,
      (machine .matchAll 10).run (machine .matchAll 10).init bothApis = some b ∧ b.Limited 1 2) ∧
    (machine .matchAll 10).StatesMeet
      (fun b : Bus Unit Unit => ∀ L, b.Limited 1 L → (b.mpsc 1).enqueued.length ≤ L)
      (machine .matchAll 10).init bothApis :=
  ⟨⟨_, rfl, { limit := some 2 }, rfl, rfl, rfl⟩,
    enqueued_le_limit_of_not_overdraws .matchAll 10 1 bothApis (by decide)⟩

/-- The quota of one is claimed by `publish`, then `try_publish` delivers past the claim, and then
the claimed envelope is delivered too. -/
def overdrawingPublishers : List (BusAction Unit Unit) :=
  [.subscribe () { limit := some 1, outboundCapacity := some 2 },
    .publish (.nth 1), .tryPublish (.nth 2),
    .advance 0, .advance 0, .advance 0, .visit 0 1, .advance 0,
    .advance 1, .advance 1, .advance 1, .visit 1 1, .advance 1, .advance 0]

/-- **The limit is exceeded** when a `try_publish` lands between the claim and the send of a
`publish`. -/
theorem enqueued_exceeds_limit : ∃ b : Bus Unit Unit,
    (machine .matchAll 10).run (machine .matchAll 10).init overdrawingPublishers = some b ∧
    b.Limited 1 1 ∧ (b.mpsc 1).enqueued = [.nth 2, .nth 1] :=
  ⟨_, rfl, ⟨{ limit := some 1, outboundCapacity := some 2 }, rfl, rfl, rfl⟩, rfl⟩

end Bus

end Boardwalk
