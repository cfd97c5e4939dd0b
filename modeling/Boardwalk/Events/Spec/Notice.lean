import Boardwalk.Events.Spec.Quota

/-!
# What a slow-consumer notice promises

The notice of a `Disconnect` subscription carries the position `(s, n)` of the last delivery that
was *committed* before the disconnect.  A client that resumes after `n` misses every envelope up to
`n` that was claimed for the subscription and never enqueued.  Finding the queue full, delivering
and committing are separate steps, so a publisher that found the queue full with an early envelope
can commit its disconnect after another one delivered and committed a later envelope.

`noHole_iff_disconnectsInOrder` says exactly when the notice is right: a run leaves no hole in any
of its states iff no disconnect commit of the run finds a claim on an envelope up to `n` unsent.
-/

namespace Boardwalk

namespace Bus

variable {δ τ κ : Type} [DecidableEq κ]

/-- Subscription `i` was created with the `Disconnect` policy. -/
def DisconnectSub (b : Bus δ τ) (i : SubscriptionId) : Prop :=
  (b.hist i).opts.map (·.slowConsumerPolicy) = some .disconnect

instance (b : Bus δ τ) (i : SubscriptionId) : Decidable (b.DisconnectSub i) :=
  inferInstanceAs (Decidable (_ = _))

/-- If the notice of `i` carries `(s, n)`, every envelope of `s` up to `n` that was claimed for `i`
has been enqueued to it. -/
def NoHole (i : SubscriptionId) (b : Bus δ τ) : Prop :=
  ∀ n s q, b.notify i = .sent n → n.streamId = some s → n.lastDeliveredSequence = some q →
    ∀ e ∈ (b.hist i).claimed, e.streamId = s → e.sequence ≤ q → e ∈ (b.mpsc i).enqueued

/-- No call holds an unsent claim on `i` for an envelope of the stream of `pos` up to `pos`, unless
that envelope is enqueued already. -/
def SettledUpTo (i : SubscriptionId) (b : Bus δ τ) (pos : StreamId × UInt64) : Prop :=
  ∀ c ∈ b.calls, c.Unsent i → c.envelope.streamId = pos.1 → c.envelope.sequence ≤ pos.2 →
    c.envelope ∈ (b.mpsc i).enqueued

instance [DecidableEq δ] (i : SubscriptionId) (b : Bus δ τ) (pos : StreamId × UInt64) :
    Decidable (SettledUpTo i b pos) :=
  inferInstanceAs (Decidable (∀ c ∈ b.calls, _))

/-- If the action is a disconnect commit on `i`, the claims up to the last delivery are settled. -/
def DisconnectsInOrder (i : SubscriptionId) (b : Bus δ τ) : BusAction δ τ → Prop
  | .advance k => ∀ c ∈ b.calls[k]?, c.phase = .commit .disconnectSlowConsumer →
      c.guards.head?.map (·.id) = some i →
      ∀ sub ∈ b.subs i, ∀ pos ∈ sub.lastDelivered, SettledUpTo i b pos
  | _ => True

instance [DecidableEq δ] (i : SubscriptionId) (b : Bus δ τ) :
    ∀ a, Decidable (DisconnectsInOrder i b a)
  | .advance k => inferInstanceAs (Decidable (∀ c ∈ b.calls[k]?, _ → _ → ∀ sub ∈ b.subs i, _))
  | .subscribe _ _ | .unsubscribe _ | .publish _ | .tryPublish _ | .visit _ _ | .cancel _
  | .recv _ | .dropRx _ | .withMaxEventSize _ => isTrue True.intro

end Bus

/-- A notice that names a position names the last delivery of its entry. -/
theorem SubscriptionInner.lastDelivered_of_notice {τ : Type} {sub : SubscriptionInner τ}
    {s : StreamId} {q : UInt64} (hs : sub.notice.streamId = some s)
    (hq : sub.notice.lastDeliveredSequence = some q) : sub.lastDelivered = some (s, q) := by
  cases hl : sub.lastDelivered with
  | none => simp [notice, hl] at hs
  | some pos =>
    obtain rfl : pos.1 = s := by simpa [notice, hl] using hs
    obtain rfl : pos.2 = q := by simpa [notice, hl] using hq
    rfl

/-- Every action but the start of a `try_publish` and the cancellation of a `publish`. -/
def BusAction.Uncancelled {δ τ : Type} : BusAction δ τ → Prop
  | .tryPublish _ | .cancel _ => False
  | _ => True

namespace Bus

variable {δ τ κ : Type} [DecidableEq κ]

/-! ### The invariant -/

/-- In runs of the async `publish` without cancellation: the notice of a subscription in the map is
not fired, claims are recorded, and as long as the entry of a `Disconnect` subscription is in the
map, a claimed envelope is enqueued or its call still holds the claim. -/
structure HoleInv (i : SubscriptionId) (b : Bus δ τ) : Prop where
  wellFormed : b.WellFormed
  allAsync : b.AllAsync
  running : ∀ c ∈ b.calls, c.phase ≠ .unwind
  armed : ∀ sub, b.subs i = some sub → sub.slowConsumerNotify = true ∧ b.notify i = .pending
  claimed : ∀ c ∈ b.calls, 0 < c.outstanding i → c.envelope ∈ (b.hist i).claimed
  accounted : b.DisconnectSub i → ∀ sub, b.subs i = some sub → ∀ e ∈ (b.hist i).claimed,
    e ∈ (b.mpsc i).enqueued ∨ ∃ c ∈ b.calls, c.Unsent i ∧ c.envelope = e

theorem holeInv_init (ops : BusOps δ τ κ) (replayCapacity : ℕ) (i : SubscriptionId) :
    HoleInv i (machine ops replayCapacity).init where
  wellFormed := wellFormed_init ops replayCapacity
  allAsync := by simp [AllAsync, machine]
  running := by simp [machine]
  armed := by simp [machine]
  claimed := by simp [machine]
  accounted := by simp [machine]

section Step

variable {i : SubscriptionId} {b b' : Bus δ τ} {ops : BusOps δ τ κ} {a : BusAction δ τ}

/-- Without cancellation no call ever unwinds. -/
theorem running_step (ha : a.Uncancelled) (hb : ∀ c ∈ b.calls, c.phase ≠ .unwind)
    (hs : step ops b a = some b') : ∀ c ∈ b'.calls, c.phase ≠ .unwind := by
  cases callsNext_of_step hs with
  | same hcalls => rwa [hcalls]
  | publish env _ hcalls => exact Party.forall_mem_concat hcalls hb (by simp)
  | tryPublish env _ hcalls => exact Party.forall_mem_concat hcalls hb (by simp)
  | advance k c c' hk hcalls hadv =>
    exact Party.forall_mem_set hcalls hb fun h =>
      hb c (List.mem_of_getElem? hk) (hadv.unwinding h)
  | visit k j c c' hk hcalls _ hphase =>
    refine Party.forall_mem_set hcalls hb fun h => ?_
    rw [h] at hphase
    simp at hphase
  | cancel k c c' haction => rw [haction] at ha; exact ha.elim

/-- An entry that is still there is armed, and its notice is not fired. -/
theorem armed_of_effect (hb : HoleInv i b) (h : Effect i b a b') :
    ∀ sub, b'.subs i = some sub → sub.slowConsumerNotify = true ∧ b'.notify i = .pending := by
  intro sub' hsub'
  -- whatever keeps the entry keeps its notice, and the rest removes the entry
  cases h with
  | quiet hf => rw [hf.notify]; exact hb.armed sub' (hf.subs ▸ hsub')
  | claim k c c' sub sub'' hk hcalls he hclaim hs hn =>
    rw [hs] at hsub'
    obtain rfl := Option.some.inj hsub'
    obtain ⟨rfl, -⟩ := SubscriptionInner.claim_some hclaim
    rw [hn]
    exact hb.armed sub he
  | land k c c' hk hcalls hs hn => rw [hn]; exact hb.armed sub' (hs ▸ hsub')
  | delivered k c c' hk hcalls hsent hres hs hn =>
    have hn' : b'.notify i = b.notify i := by
      rcases hn with hn | ⟨hnone, -⟩
      · exact hn
      · rw [hnone] at hsub'; cases hsub'
    rw [hs, Option.bind_eq_some_iff] at hsub'
    obtain ⟨sub, he, hd⟩ := hsub'
    split at hd
    · cases hd
    · obtain rfl := Option.some.inj hd
      rw [hn']
      exact hb.armed sub he
  | refund k c c' hk hcalls hun hres hcause hs hn =>
    rw [hs, Option.map_eq_some_iff] at hsub'
    obtain ⟨sub, he, rfl⟩ := hsub'
    rw [hn]
    exact hb.armed sub he
  | disconnect k c c' sub haction hk hcalls hp hhead hun hres he hs =>
    rw [hs] at hsub'; cases hsub'
  | closed k c c' hk hcalls hun hres hg => rw [hg.subs] at hsub'; cases hsub'
  | removed hg => rw [hg.subs] at hsub'; cases hsub'
  | fired k c sub hk hapi =>
    rw [hb.allAsync c (List.mem_of_getElem? hk)] at hapi; cases hapi
  | coalesced env sub he hco hs hn =>
    -- a coalesce entry is armed as well
    rw [hs] at hsub'
    obtain rfl := Option.some.inj hsub'
    rw [hn]
    exact hb.armed sub he

/-- What a call has claimed is among the envelopes claimed. -/
theorem claimed_of_effect (hb : HoleInv i b) (h : Effect i b a b') :
    ∀ c ∈ b'.calls, 0 < c.outstanding i → c.envelope ∈ (b'.hist i).claimed := by
  have hkeep : ∀ {b' : Bus δ τ}, CallsKeep i b b' →
      ∀ c ∈ b'.calls, 0 < c.outstanding i → c.envelope ∈ (b.hist i).claimed := by
    -- a call that keeps its claims on the subscription keeps their envelopes
    intro b' hc
    refine hc.forall_mem hb.claimed (fun _ _ h0 => ?_) (fun c c' hP hk hpos => ?_)
    · simp [Call.outstanding] at h0
    · rw [hk.envelope]
      exact hP (hk.outstanding ▸ hpos)
  -- a call that resolves a claim had made it
  have hres : ∀ {k : ℕ} {c c' : Call δ}, b.calls[k]? = some c → c.Resolves i c' →
      c'.envelope ∈ (b.hist i).claimed := by
    intro k c c' hk hr
    rw [hr.envelope]
    have := hr.outstanding
    exact hb.claimed c (List.mem_of_getElem? hk) (by omega)
  cases h with
  | quiet hf hc => rw [hf.hist]; exact hkeep hc
  | claim k c c' sub sub'' hk hcalls he hclaim hs hn hh hq hapi henv =>
    -- the claimed envelope joins the history in the same step
    rw [hh]
    refine Party.forall_mem_set hcalls (fun d hd hpos => ?_) fun _ => ?_
    · exact List.mem_append_left _ (hb.claimed d hd hpos)
    · rw [henv]
      exact List.mem_append_right _ List.mem_cons_self
  | land k c c' hk hcalls hs hn hh hq hapi henv ho hun =>
    rw [hh]
    refine Party.forall_mem_set hcalls hb.claimed fun _ => ?_
    rw [henv]
    exact hb.claimed c (List.mem_of_getElem? hk) hun.2
  | delivered k c c' hk hcalls hsent hr hs hn hh =>
    rw [hh]
    exact Party.forall_mem_set hcalls hb.claimed fun _ => hres hk hr
  | refund k c c' hk hcalls hun hr hcause hs hn hh =>
    rw [hh]
    exact Party.forall_mem_set hcalls hb.claimed fun _ => hres hk hr
  | disconnect k c c' sub haction hk hcalls hp hhead hun hr he hs hn hh =>
    rw [hh]
    exact Party.forall_mem_set hcalls hb.claimed fun _ => hres hk hr
  | closed k c c' hk hcalls hun hr hg =>
    rw [hg.hist]
    exact Party.forall_mem_set hcalls hb.claimed fun _ => hres hk hr
  | removed hg hc => rw [hg.hist]; exact hkeep hc
  | fired k c sub hk hapi =>
    rw [hb.allAsync c (List.mem_of_getElem? hk)] at hapi; cases hapi
  | coalesced env sub he hco hs hn hh hq hc => rw [hh]; exact hkeep hc

/-- A `Disconnect` subscription whose entry is there refunds no claim. -/
theorem no_refund (hb : HoleInv i b) (hdis : b.DisconnectSub i) {k : ℕ} {c : Call δ}
    (hk : b.calls[k]? = some c)
    (hcause : c.phase = .unwind ∨ c.phase = .commit .dropped ∧
      c.guards.head?.map (·.id) = some i ∨ b.subs i = none) : b.subs i = none := by
  have hmem := List.mem_of_getElem? hk
  rcases hcause with hp | ⟨hp, hhead⟩ | hnone
  · exact absurd hp (hb.running c hmem)
  · -- a dropped send is one of a `DropNewest` subscription
    have hdrop := hb.wellFormed.dropping c hmem hp
    obtain ⟨m, rest, hg, rfl⟩ := Call.guards_of_head hhead
    obtain ⟨opts, hopts, hpol⟩ := hb.wellFormed.policies c hmem m (by simp [hg])
    have h1 : m.slowConsumerPolicy = .dropNewest := by simpa [hg] using hdrop
    have h2 : opts.slowConsumerPolicy = .disconnect := by simpa [DisconnectSub, hopts] using hdis
    rw [h1, h2] at hpol
    cases hpol
  · exact hnone

/-- An envelope still to be sent is still to be sent where the calls keep. -/
theorem CallsKeep.exists_unsent {e : EventEnvelope δ} (h : CallsKeep i b b')
    (hb : ∃ c ∈ b.calls, c.Unsent i ∧ c.envelope = e) :
    ∃ c ∈ b'.calls, c.Unsent i ∧ c.envelope = e := by
  cases h with
  | same hcalls => rwa [hcalls]
  | start api env hcalls =>
    obtain ⟨c, hc, hP⟩ := hb
    exact ⟨c, hcalls ▸ List.mem_append_left _ hc, hP⟩
  | move k c c' hk hcalls hkeeps =>
    rw [hcalls]
    refine Party.exists_mem_set hk hb ?_
    rintro ⟨hun, henv⟩
    exact ⟨by rwa [Call.Unsent, hkeeps.outstanding, hkeeps.landed], hkeeps.envelope.trans henv⟩

/-- **A claimed envelope stays accounted for.** -/
theorem accounted_of_effect (hb : HoleInv i b) (hdis : b.DisconnectSub i) (h : Effect i b a b') :
    ∀ sub, b'.subs i = some sub → ∀ e ∈ (b'.hist i).claimed,
      e ∈ (b'.mpsc i).enqueued ∨ ∃ c ∈ b'.calls, c.Unsent i ∧ c.envelope = e := by
  intro sub' hsub' e he
  cases h with
  | quiet hf hc =>
    rw [hf.hist] at he
    rw [hf.enqueued]
    exact (hb.accounted hdis sub' (hf.subs ▸ hsub') e he).imp_right hc.exists_unsent
  | claim k c c' sub sub'' hk hcalls hentry hclaim hs hn hh hq hapi henv ho hl =>
    -- the new claim is held by the call that made it, and that call has sent nothing yet
    have hun' : c'.Unsent i := by
      have := c.landed_le_outstanding i
      rw [Call.Unsent]
      omega
    have hmem' : c' ∈ b'.calls := by
      obtain ⟨hlt, -⟩ := List.getElem?_eq_some_iff.mp hk
      rw [hcalls]
      exact List.mem_iff_getElem?.mpr ⟨k, by simp [hlt]⟩
    rw [hh] at he
    rcases List.mem_append.mp he with hold | hnew
    · rw [hq, hcalls]
      refine (hb.accounted hdis sub hentry e hold).imp_right fun hex => Party.exists_mem_set hk hex ?_
      rintro ⟨-, hce⟩
      exact ⟨hun', henv.trans hce⟩
    · exact .inr ⟨c', hmem', hun', henv.trans (List.mem_singleton.mp hnew).symm⟩
  | land k c c' hk hcalls hs hn hh hq hapi henv ho hun hl =>
    rw [hh] at he
    rw [hq]
    rcases hb.accounted hdis sub' (hs ▸ hsub') e he with henq | hex
    · exact .inl (List.mem_append_left _ henq)
    · by_cases hce : c.envelope = e
      · exact .inl (hce ▸ List.mem_append_right _ List.mem_cons_self)
      · rw [hcalls]
        exact .inr (Party.exists_mem_set hk hex fun hc => absurd hc.2 hce)
  | delivered k c c' hk hcalls hsent hr hs hn hh hq =>
    rw [hh] at he
    rw [hs, Option.bind_eq_some_iff] at hsub'
    obtain ⟨sub, hentry, -⟩ := hsub'
    rw [hq, hcalls]
    refine (hb.accounted hdis sub hentry e he).imp_right fun hex => Party.exists_mem_set hk hex ?_
    -- the commit resolves the claim that has landed; an unsent one of the same call stays
    rintro ⟨hun, hce⟩
    have hlt : c.landed i < c.outstanding i := hun
    have := hr.outstanding
    have := hr.landed
    refine ⟨?_, hr.envelope.trans hce⟩
    rw [Call.Unsent]
    omega
  | refund k c c' hk hcalls hun hr hcause hs =>
    rw [hs, no_refund hb hdis hk hcause] at hsub'
    cases hsub'
  | disconnect k c c' sub haction hk hcalls hp hhead hun hres hentry hs =>
    rw [hs] at hsub'; cases hsub'
  | closed k c c' hk hcalls hun hres hg => rw [hg.subs] at hsub'; cases hsub'
  | removed hg => rw [hg.subs] at hsub'; cases hsub'
  | fired k c sub hk hapi =>
    rw [hb.allAsync c (List.mem_of_getElem? hk)] at hapi; cases hapi
  | coalesced env sub hentry hco hs hn hh hq hc =>
    rw [hh] at he
    rw [hq]
    exact (hb.accounted hdis sub hentry e he).imp_right hc.exists_unsent

variable (ops) in
omit [DecidableEq κ] in
theorem disconnectSub_of_effect (h : Effect i b a b' ∨ Direct ops i b a b') :
    b'.DisconnectSub i ↔ b.DisconnectSub i := by
  rw [DisconnectSub, DisconnectSub, opts_of_effect h]

/-- Every uncancelled step keeps the invariant on claims. -/
theorem holeInv_step (ha : a.Uncancelled) (hb : HoleInv i b) (hs : step ops b a = some b') :
    HoleInv i b' := by
  have hwf := wellFormed_step hb.wellFormed hs
  have hasync : b'.AllAsync :=
    allAsync_step hb.allAsync (fun env h => by rw [h] at ha; exact ha) hs
  have hrun := running_step ha hb.running hs
  rcases effect_or_created i hs with (heff | hdir) | ⟨rfl, topic, opts, rfl⟩
  · -- no `try_publish` is there, so every effect is one of the loop of `publish`
    exact ⟨hwf, hasync, hrun, armed_of_effect hb heff, claimed_of_effect hb heff, fun hdis =>
      accounted_of_effect hb ((disconnectSub_of_effect ops (.inl heff)).mp hdis) heff⟩
  · exact absurd hdir hb.allAsync.not_direct
  · -- the id that is handed out was untouched, so nothing is claimed on it
    have hu := hb.wellFormed.untouched b.nextId (Nat.le_refl _)
    have hcalls : ∀ c ∈ (b.subscribe topic opts).calls, c.outstanding b.nextId = 0 := by
      rw [calls_subscribe]
      exact fun c hc => (hu.calls c hc).1
    refine ⟨hwf, hasync, hrun, ?_, fun c hc hpos => ?_, ?_⟩
    · intro sub' hsub'
      rcases subscribe_cases b topic opts hu with hu' | ⟨sub, hsub, hval, -, hnotify, -⟩
      · rw [hu'.subs] at hsub'; cases hsub'
      · rw [hsub] at hsub'
        obtain rfl := Option.some.inj hsub'
        exact ⟨by rw [hval], hnotify⟩
    · have := hcalls c hc
      omega
    · intro _ sub' _ e he
      rcases subscribe_cases b topic opts hu with hu' | ⟨sub, -, -, hhist, -⟩
      · rw [hu'.hist] at he; cases he
      · rw [hhist] at he; cases he

end Step

/-! ### The notice -/

section Exact

variable {i : SubscriptionId} {b b' : Bus δ τ} {ops : BusOps δ τ κ} {a : BusAction δ τ} {k : ℕ}
  {c : Call δ}

/-- A step that is not a disconnect commit on the entry of `i` leaves no hole. -/
theorem noHole_of_effect (hb : HoleInv i b) (hP : NoHole i b) (h : Effect i b a b')
    (hnot : ∀ k c, a = .advance k → b.calls[k]? = some c →
      c.phase = .commit .disconnectSlowConsumer → c.guards.head?.map (·.id) = some i →
      b.subs i = none) : NoHole i b' := by
  intro n s q hsent hs hq e he hstream hseq
  cases h with
  | quiet hf =>
    rw [hf.enqueued]
    exact hP n s q (hf.notify ▸ hsent) hs hq e (hf.hist ▸ he) hstream hseq
  | claim k c c' sub sub' hk hcalls hentry hclaim hsubs hn =>
    -- a claim needs the entry, whose notice is not fired
    rw [hn, (hb.armed sub hentry).2] at hsent
    cases hsent
  | land k c c' hk hcalls hsubs hn hh henq =>
    rw [henq]
    exact List.mem_append_left _ (hP n s q (hn ▸ hsent) hs hq e (hh ▸ he) hstream hseq)
  | delivered k c c' hk hcalls hsent' hr hsubs hn hh henq =>
    rw [hh] at he
    rw [henq]
    have hsent' : b.notify i = .sent n := by
      rcases hn with hn | ⟨-, hn⟩
      · rw [← hn]; exact hsent
      · rw [hn] at hsent; exact Oneshot.dropSender_eq_sent.mp hsent
    exact hP n s q hsent' hs hq e he hstream hseq
  | refund k c c' hk hcalls hun hr hcause hsubs hn hh henq =>
    rw [henq]
    exact hP n s q (hn ▸ hsent) hs hq e (hh ▸ he) hstream hseq
  | disconnect k c c' sub haction hk hcalls hp hhead hun hres hentry =>
    rw [hnot k c haction hk hp hhead] at hentry
    cases hentry
  | closed k c c' hk hcalls hun hres hg =>
    rw [hg.enqueued]
    rw [hg.notify] at hsent
    exact hP n s q (Oneshot.dropSender_eq_sent.mp hsent) hs hq e (hg.hist ▸ he) hstream hseq
  | removed hg =>
    rw [hg.enqueued]
    rw [hg.notify] at hsent
    exact hP n s q (Oneshot.dropSender_eq_sent.mp hsent) hs hq e (hg.hist ▸ he) hstream hseq
  | fired k c sub hk hapi =>
    rw [hb.allAsync c (List.mem_of_getElem? hk)] at hapi; cases hapi
  | coalesced env sub hentry hco hsubs hn =>
    rw [hn, (hb.armed sub hentry).2] at hsent
    cases hsent

omit [DecidableEq κ] in
/-- The disconnect commit on an armed entry sends the notice and changes nothing else of `i`. -/
theorem advance_disconnect {sub : SubscriptionInner τ} (hk : b.calls[k]? = some c)
    (hp : c.phase = .commit .disconnectSlowConsumer)
    (hhead : c.guards.head?.map (·.id) = some i) (hsub : b.subs i = some sub)
    (harmed : sub.slowConsumerNotify = true ∧ b.notify i = .pending)
    (hs : b.advance ops k = some b') :
    b'.notify i = .sent sub.notice ∧ b'.hist i = b.hist i ∧ b'.mpsc i = b.mpsc i := by
  obtain ⟨m, rest, hg, rfl⟩ := Call.guards_of_head hhead
  simp only [advance, hk, hp, hg] at hs
  split at hs
  · obtain rfl := Option.some.inj hs
    simp [commitMatch, setCall, commitDisconnect, hsub, fireNotice, harmed, remove, setSub,
      Oneshot.send, Oneshot.dropSender]
  · cases hs

/-- **The disconnect commit leaves no hole exactly when the claims up to the last delivery are
settled.** -/
theorem noHole_disconnect_iff {sub : SubscriptionInner τ} (hb : HoleInv i b)
    (hdis : b.DisconnectSub i) (hsub : b.subs i = some sub) (hn : b'.notify i = .sent sub.notice)
    (hh : b'.hist i = b.hist i) (hq : b'.mpsc i = b.mpsc i) :
    NoHole i b' ↔ ∀ pos ∈ sub.lastDelivered, SettledUpTo i b pos := by
  constructor
  · intro hP pos hpos c hc hun hstream hseq
    have hpos' : sub.lastDelivered = some pos := hpos
    have hclaimed : c.envelope ∈ (b'.hist i).claimed := by
      rw [hh]
      exact hb.claimed c hc (Nat.lt_of_le_of_lt (Nat.zero_le _) hun)
    rw [← hq]
    exact hP sub.notice pos.1 pos.2 hn (by simp [SubscriptionInner.notice, hpos'])
      (by simp [SubscriptionInner.notice, hpos']) c.envelope hclaimed hstream hseq
  · intro hsettled n s q hsent hs hq' e he hstream hseq
    rw [hn] at hsent
    cases hsent
    rw [hh] at he
    rw [hq]
    -- a claimed envelope that is not enqueued is still claimed by a call, and that is settled
    rcases hb.accounted hdis sub hsub e he with henq | ⟨c, hc, hun, rfl⟩
    · exact henq
    · exact hsettled (s, q) (SubscriptionInner.lastDelivered_of_notice hs hq') c hc hun hstream hseq

/-- A step keeps "no hole behind a notice" exactly when it disconnects in order. -/
theorem noHole_step_iff (hb : HoleInv i b) (hP : b.DisconnectSub i → NoHole i b)
    (hs : step ops b a = some b') :
    (b'.DisconnectSub i → NoHole i b') ↔ (b.DisconnectSub i → DisconnectsInOrder i b a) := by
  rcases effect_or_created i hs with (heff | hdir) | ⟨rfl, topic, opts, rfl⟩
  · rw [disconnectSub_of_effect ops (.inl heff)]
    refine forall_congr' fun hdis => ?_
    -- the only step that can break the order is the commit of a disconnect at this entry
    by_cases hd : ∃ k c sub, a = .advance k ∧ b.calls[k]? = some c ∧
        c.phase = .commit .disconnectSlowConsumer ∧ c.guards.head?.map (·.id) = some i ∧
        b.subs i = some sub
    · obtain ⟨k, c, sub, rfl, hk, hp, hhead, hsub⟩ := hd
      obtain ⟨hn, hh, hq⟩ := advance_disconnect hk hp hhead hsub (hb.armed sub hsub) hs
      rw [noHole_disconnect_iff hb hdis hsub hn hh hq]
      constructor
      · intro h c₂ hk₂ hp₂ hhead₂ sub₂ hsub₂
        obtain rfl : sub = sub₂ := Option.some.inj (hsub.symm.trans hsub₂)
        exact h
      · intro h
        exact h c hk hp hhead sub hsub
    · refine iff_of_true (noHole_of_effect hb (hP hdis) heff ?_) ?_
      · intro k c ha hk hp hhead
        by_contra hne
        obtain ⟨sub, hsub⟩ := Option.ne_none_iff_exists'.mp hne
        exact hd ⟨k, c, sub, ha, hk, hp, hhead, hsub⟩
      · cases a with
        | advance k =>
          intro c hk hp hhead sub hsub
          exact absurd ⟨k, c, sub, rfl, hk, hp, hhead, hsub⟩ hd
        | _ => exact True.intro
  · exact absurd hdir hb.allAsync.not_direct
  · have hu := hb.wellFormed.untouched b.nextId (Nat.le_refl _)
    -- a new entry has sent no notice
    refine iff_of_true (fun _ n s q hsent => ?_) (fun hdis => ?_)
    · rcases subscribe_cases b topic opts hu with hu' | ⟨_, -, -, -, hnotify, -⟩
      · rw [hu'.notify] at hsent; cases hsent
      · rw [hnotify] at hsent; cases hsent
    · rw [DisconnectSub, hu.hist] at hdis
      cases hdis

end Exact

/-- **Everything lost comes after the reported position, exactly when every disconnect commits in
order.**  For a run of async publishes and receives (and anything else but `try_publish` and
cancellations), the notice of a `Disconnect` subscription leaves no hole in any state of the run iff
each disconnect commit on it finds the claims up to the last delivery settled. -/
theorem noHole_iff_disconnectsInOrder (ops : BusOps δ τ κ) (replayCapacity : ℕ)
    (i : SubscriptionId) (as : List (BusAction δ τ)) (has : ∀ a ∈ as, a.Uncancelled) :
    (machine ops replayCapacity).StatesMeet (fun b => b.DisconnectSub i → NoHole i b)
      (machine ops replayCapacity).init as ↔
    (machine ops replayCapacity).StepsMeet (fun b a => b.DisconnectSub i → DisconnectsInOrder i b a)
      (machine ops replayCapacity).init as :=
  Machine.statesMeet_iff_stepsMeet (fun _ _ _ ha hb hs => holeInv_step ha hb hs)
    (fun _ _ _ _ hb hP hs => noHole_step_iff hb hP hs) has (holeInv_init ops replayCapacity i)
    (fun hdis => by cases hdis)

/-- Two publishers one after the other on a queue of one: the second disconnects, and its envelope
is lost after the reported position. -/
def publishersInTurn : List (BusAction Unit Unit) :=
  [.subscribe () { outboundCapacity := some 1 }, .publish (.nth 1), .publish (.nth 2),
    .advance 0, .advance 0, .advance 0, .visit 0 1, .advance 0, .advance 0, .advance 0,
    .advance 1, .advance 1, .advance 1, .visit 1 1, .advance 1, .advance 1, .advance 1]

theorem noHole_publishersInTurn :
    (∃ b : Bus Unit Unit,
      (machine .matchAll 10).run (machine .matchAll 10).init publishersInTurn = some b ∧
      b.DisconnectSub 1 ∧ b.notify 1 ≠ .pending) ∧
    (machine .matchAll 10).StatesMeet (fun b => b.DisconnectSub 1 → NoHole 1 b)
      (machine .matchAll 10).init publishersInTurn :=
  ⟨⟨_, rfl, rfl, by decide⟩,
    (noHole_iff_disconnectsInOrder .matchAll 10 1 publishersInTurn
      (by simp [publishersInTurn, BusAction.Uncancelled])).mpr (by decide)⟩

/-- A queue of one.  Both envelopes are claimed; the second is enqueued, so the first finds the
queue full; the second is committed, and then the first commits its disconnect. -/
def overtakingPublishers : List (BusAction Unit Unit) :=
  [.subscribe () { outboundCapacity := some 1 }, .publish (.nth 1), .publish (.nth 2),
    .advance 0, .advance 0, .advance 0, .visit 0 1, .advance 0,
    .advance 1, .advance 1, .advance 1, .visit 1 1, .advance 1,
    .advance 1, .advance 0, .advance 1, .advance 0]

/-- **A notice with a hole**: it reports sequence 2 as delivered, envelope 1 was claimed and is
lost. -/
theorem notice_with_hole : ∃ b : Bus Unit Unit,
    (machine .matchAll 10).run (machine .matchAll 10).init overtakingPublishers = some b ∧
    b.DisconnectSub 1 ∧
    b.notify 1 = .sent { streamId := some (EventEnvelope.nth 2).streamId,
                         lastDeliveredSequence := some 2, reason := REASON_SLOW_CONSUMER } ∧
    EventEnvelope.nth 1 ∈ (b.hist 1).claimed ∧ (b.mpsc 1).enqueued = [.nth 2] ∧
    ¬ NoHole 1 b := by
  refine ⟨_, rfl, rfl, rfl, by decide, rfl, fun h => ?_⟩
  exact absurd (h _ _ _ rfl rfl rfl (.nth 1) (by decide) rfl (by decide)) (by decide)

/-! ### The notice names an envelope that was enqueued

This holds in every run, with both publish calls and with cancellations. -/

/-- The positions recorded for `i` are those of envelopes enqueued to it. -/
structure NamesEnqueued (i : SubscriptionId) (b : Bus δ τ) : Prop where
  landed : ∀ c ∈ b.calls, 0 < c.landed i → c.envelope ∈ (b.mpsc i).enqueued
  last : ∀ sub, b.subs i = some sub → ∀ pos, sub.lastDelivered = some pos →
    ∃ e ∈ (b.mpsc i).enqueued, e.position = pos
  notice : ∀ n, b.notify i = .sent n → ∀ s q, n.streamId = some s →
    n.lastDeliveredSequence = some q → ∃ e ∈ (b.mpsc i).enqueued, e.position = (s, q)

section Names

variable {i : SubscriptionId} {b b' : Bus δ τ} {ops : BusOps δ τ κ} {a : BusAction δ τ}

omit [DecidableEq κ] in
/-- Nothing that was enqueued is taken back. -/
theorem enqueued_mono (h : Effect i b a b' ∨ Direct ops i b a b') :
    ∀ e ∈ (b.mpsc i).enqueued, e ∈ (b'.mpsc i).enqueued := by
  intro e he
  rcases h with h | h
  · cases h with
    | quiet hf => rwa [hf.enqueued]
    | claim k c c' sub sub' hk hcalls hentry hclaim hs hn hh hq => rwa [hq]
    | land k c c' hk hcalls hs hn hh hq => rw [hq]; exact List.mem_append_left _ he
    | delivered k c c' hk hcalls hsent hr hs hn hh hq => rwa [hq]
    | refund k c c' hk hcalls hun hr hcause hs hn hh hq => rwa [hq]
    | disconnect k c c' sub haction hk hcalls hp hhead hun hr hentry hs hn hh hq => rwa [hq]
    | closed k c c' hk hcalls hun hr hg => rwa [hg.enqueued]
    | removed hg => rwa [hg.enqueued]
    | fired k c sub hk hapi hentry harm hs hn hh hq => rwa [hq]
    | coalesced env sub hentry hco hs hn hh hq => rwa [hq]
  · cases h with
    | mk k c sub ha hk hp hapi hentry hm hroom hout hs hn hh hq =>
      rw [hq]; exact List.mem_append_left _ he

omit [DecidableEq κ] in
/-- What a call has landed is among the envelopes queued. -/
theorem names_landed (hb : NamesEnqueued i b) (h : Effect i b a b' ∨ Direct ops i b a b') :
    ∀ c ∈ b'.calls, 0 < c.landed i → c.envelope ∈ (b'.mpsc i).enqueued := by
  -- the queue's history only grows
  have hmono := enqueued_mono h
  have hold : ∀ c ∈ b.calls, 0 < c.landed i → c.envelope ∈ (b'.mpsc i).enqueued :=
    fun c hc hpos => hmono _ (hb.landed c hc hpos)
  have hkeep : CallsKeep i b b' →
      ∀ c ∈ b'.calls, 0 < c.landed i → c.envelope ∈ (b'.mpsc i).enqueued := by
    intro hc
    refine hc.forall_mem hold (fun api env h0 => ?_) (fun c c' hP hk hpos => ?_)
    · simp [Call.landed] at h0
    · rw [hk.envelope]
      exact hP (hk.landed ▸ hpos)
  have hres : ∀ {k : ℕ} {c c' : Call δ}, b'.calls = b.calls.set k c' → c.Resolves i c' →
      ∀ c ∈ b'.calls, 0 < c.landed i → c.envelope ∈ (b'.mpsc i).enqueued := by
    intro k c c' hcalls hr
    refine Party.forall_mem_set hcalls hold fun hpos => ?_
    have := hr.landed
    omega
  rcases h with h | h
  · cases h with
    | quiet hf hc => exact hkeep hc
    | claim k c c' sub sub' hk hcalls hentry hclaim hs hn hh hq hapi henv ho hl =>
      refine Party.forall_mem_set hcalls hold fun hpos => ?_
      rw [henv]
      exact hold c (List.mem_of_getElem? hk) (hl ▸ hpos)
    | land k c c' hk hcalls hs hn hh hq hapi henv =>
      -- the envelope lands in the step that appends it
      refine Party.forall_mem_set hcalls hold fun _ => ?_
      rw [henv, hq]
      exact List.mem_append_right _ List.mem_cons_self
    | delivered k c c' hk hcalls hsent hr => exact hres hcalls hr
    | refund k c c' hk hcalls hun hr => exact hres hcalls hr
    | disconnect k c c' sub haction hk hcalls hp hhead hun hr => exact hres hcalls hr
    | closed k c c' hk hcalls hun hr => exact hres hcalls hr
    | removed hg hc => exact hkeep hc
    | fired k c sub hk hapi hentry harm hs hn hh hq hc => exact hkeep hc
    | coalesced env sub hentry hco hs hn hh hq hc => exact hkeep hc
  · cases h with
    | mk k c sub ha hk hp hapi hentry hm hroom hout hs hn hh hq hc => exact hkeep hc

omit [DecidableEq κ] in
/-- The last delivered position of an entry is that of an envelope queued. -/
theorem names_last (hb : NamesEnqueued i b)
    (hout : ∀ sub, b.subs i = some sub → sub.outbound = .mpsc)
    (h : Effect i b a b' ∨ Direct ops i b a b') :
    ∀ sub, b'.subs i = some sub → ∀ pos, sub.lastDelivered = some pos →
      ∃ e ∈ (b'.mpsc i).enqueued, e.position = pos := by
  have hmono := enqueued_mono h
  intro sub' hsub' pos hpos
  have hold : ∀ sub, b.subs i = some sub → sub.lastDelivered = some pos →
      ∃ e ∈ (b'.mpsc i).enqueued, e.position = pos := by
    intro sub hsub hlast
    obtain ⟨e, he, hp⟩ := hb.last sub hsub pos hlast
    exact ⟨e, hmono e he, hp⟩
  rcases h with h | h
  · cases h with
    | quiet hf => exact hold sub' (hf.subs ▸ hsub') hpos
    | claim k c c' sub sub'' hk hcalls hentry hclaim hs =>
      rw [hs] at hsub'
      obtain rfl := Option.some.inj hsub'
      obtain ⟨rfl, -⟩ := SubscriptionInner.claim_some hclaim
      exact hold sub hentry hpos
    | land k c c' hk hcalls hs => exact hold sub' (hs ▸ hsub') hpos
    | delivered k c c' hk hcalls hsent hr hs hn hh hq =>
      rw [hs, Option.bind_eq_some_iff] at hsub'
      obtain ⟨sub, hentry, hd⟩ := hsub'
      split at hd
      · cases hd
      · -- the committed envelope has landed
        obtain rfl := Option.some.inj hd
        obtain rfl := Option.some.inj hpos
        rw [hq]
        exact ⟨c.envelope, hb.landed c (List.mem_of_getElem? hk) (by omega), rfl⟩
    | refund k c c' hk hcalls hun hr hcause hs =>
      rw [hs, Option.map_eq_some_iff] at hsub'
      obtain ⟨sub, hentry, rfl⟩ := hsub'
      exact hold sub hentry hpos
    | disconnect k c c' sub haction hk hcalls hp hhead hun hr hentry hs =>
      rw [hs] at hsub'; cases hsub'
    | closed k c c' hk hcalls hun hr hg => rw [hg.subs] at hsub'; cases hsub'
    | removed hg => rw [hg.subs] at hsub'; cases hsub'
    | fired k c sub hk hapi hentry harm hs =>
      rw [hs] at hsub'
      obtain rfl := Option.some.inj hsub'
      exact hold sub hentry hpos
    | coalesced env sub hentry hco =>
      rw [hout sub hentry] at hco
      cases hco
  · cases h with
    | mk k c sub ha hk hp hapi hentry hm hroom hout hs hn hh hq =>
      -- a direct delivery appends the envelope and counts it at once
      rw [hs] at hsub'
      obtain rfl := Option.some.inj hsub'
      obtain rfl := Option.some.inj hpos
      rw [hq]
      exact ⟨c.envelope, List.mem_append_right _ List.mem_cons_self, rfl⟩

omit [DecidableEq κ] in
/-- The notice of an entry names its last delivery. -/
theorem names_entry (hb : NamesEnqueued i b) {sub : SubscriptionInner τ}
    (hsub : b.subs i = some sub) {s : StreamId} {q : UInt64} (hs : sub.notice.streamId = some s)
    (hq : sub.notice.lastDeliveredSequence = some q) :
    ∃ e ∈ (b.mpsc i).enqueued, e.position = (s, q) := by
  exact hb.last sub hsub (s, q) (SubscriptionInner.lastDelivered_of_notice hs hq)

omit [DecidableEq κ] in
/-- The last sequence a notice names is that of an envelope queued. -/
theorem names_notice (hb : NamesEnqueued i b) (h : Effect i b a b' ∨ Direct ops i b a b') :
    ∀ n, b'.notify i = .sent n → ∀ s q, n.streamId = some s → n.lastDeliveredSequence = some q →
      ∃ e ∈ (b'.mpsc i).enqueued, e.position = (s, q) := by
  have hmono := enqueued_mono h
  intro n hsent s q hs hq
  have hold : b.notify i = .sent n → ∃ e ∈ (b'.mpsc i).enqueued, e.position = (s, q) := by
    intro hn
    obtain ⟨e, he, hp⟩ := hb.notice n hn s q hs hq
    exact ⟨e, hmono e he, hp⟩
  -- a notice that is fired now is the one of the entry
  have hfire : ∀ sub, b.subs i = some sub → (b.notify i).send sub.notice = .sent n →
      ∃ e ∈ (b'.mpsc i).enqueued, e.position = (s, q) := by
    intro sub hsub hsend
    rcases Oneshot.send_eq_sent hsend with hn | rfl
    · exact hold hn
    · obtain ⟨e, he, hp⟩ := names_entry hb hsub hs hq
      exact ⟨e, hmono e he, hp⟩
  rcases h with h | h
  · cases h with
    | quiet hf => exact hold (hf.notify ▸ hsent)
    | claim k c c' sub sub' hk hcalls hentry hclaim hsubs hn => exact hold (hn ▸ hsent)
    | land k c c' hk hcalls hsubs hn => exact hold (hn ▸ hsent)
    | delivered k c c' hk hcalls hsent' hr hsubs hn =>
      rcases hn with hn | ⟨-, hn⟩
      · exact hold (hn ▸ hsent)
      · rw [hn] at hsent
        exact hold (Oneshot.dropSender_eq_sent.mp hsent)
    | refund k c c' hk hcalls hun hr hcause hsubs hn => exact hold (hn ▸ hsent)
    | disconnect k c c' sub haction hk hcalls hp hhead hun hr hentry hsubs hn =>
      rw [hn] at hsent
      split at hsent
      · exact hfire sub hentry (Oneshot.dropSender_eq_sent.mp hsent)
      · exact hold (Oneshot.dropSender_eq_sent.mp hsent)
    | closed k c c' hk hcalls hun hr hg =>
      rw [hg.notify] at hsent
      exact hold (Oneshot.dropSender_eq_sent.mp hsent)
    | removed hg =>
      rw [hg.notify] at hsent
      exact hold (Oneshot.dropSender_eq_sent.mp hsent)
    | fired k c sub hk hapi hentry harm hsubs hn =>
      rw [hn] at hsent
      exact hfire sub hentry hsent
    | coalesced env sub hentry hco hsubs hn => exact hold (hn ▸ hsent)
  · cases h with
    | mk k c sub ha hk hp hapi hentry hm hroom hout hsubs hn => exact hold (hn ▸ hsent)

/-- **The positions recorded for a subscription with a bounded channel always name enqueued
envelopes.** -/
theorem namesEnqueued_step (hwf : b.WellFormed) {opts : SubscribeOpts}
    (hopts : (b.hist i).opts = some opts) (hmpsc : opts.slowConsumerPolicy.isMpsc = true)
    (hb : NamesEnqueued i b) (hs : step ops b a = some b') : NamesEnqueued i b' := by
  have heff := hwf.effect hopts hs
  exact ⟨names_landed hb heff, names_last hb (hwf.outbound_mpsc hopts hmpsc) heff,
    names_notice hb heff⟩

/-- A subscription that was just created has no recorded position. -/
theorem namesEnqueued_created (hwf : b.WellFormed) (topic : τ) (opts : SubscribeOpts) :
    NamesEnqueued b.nextId (b.subscribe topic opts) := by
  have hu := hwf.untouched b.nextId (Nat.le_refl _)
  refine ⟨fun c hc hpos => ?_, fun sub' hsub' pos hpos => ?_, fun n hn => ?_⟩
  · rw [calls_subscribe] at hc
    have := (hu.calls c hc).1
    have := c.landed_le_outstanding b.nextId
    omega
  · rcases subscribe_cases b topic opts hu with hu' | ⟨sub, hsub, rfl, -⟩
    · rw [hu'.subs] at hsub'; cases hsub'
    · rw [hsub] at hsub'
      obtain rfl := Option.some.inj hsub'
      cases hpos
  · rcases subscribe_cases b topic opts hu with hu' | ⟨_, -, -, -, hnotify, -⟩
    · rw [hu'.notify] at hn; cases hn
    · rw [hnotify] at hn; cases hn

end Names

/-! ### Taking from the queue of a `Disconnect` subscription -/

/-- Taking an envelope of a bounded channel. -/
theorem recv_mpsc {b bus : Bus δ τ} {i : SubscriptionId} {opts : SubscribeOpts}
    {env : EventEnvelope δ} (hopts : (b.hist i).opts = some opts)
    (hmpsc : opts.slowConsumerPolicy.isMpsc = true) (hr : b.recv i = some (env, bus)) :
    ∃ q, (b.mpsc i).recv = some (env, q) ∧ bus = b.setMpsc i q := by
  have hout : opts.slowConsumerPolicy.outbound = .mpsc := by
    cases hpol : opts.slowConsumerPolicy <;> simp_all [SlowConsumerPolicy.outbound,
      SlowConsumerPolicy.isMpsc]
  simp only [recv, hopts, hout, Option.map_some, Option.map_eq_some_iff, Prod.exists,
    Prod.mk.injEq] at hr
  obtain ⟨e, q, hq, rfl, rfl⟩ := hr
  exact ⟨q, hq, rfl⟩

theorem recv_none {b : Bus δ τ} {i : SubscriptionId} {opts : SubscribeOpts}
    (hopts : (b.hist i).opts = some opts) (hpol : opts.slowConsumerPolicy = .disconnect)
    (hr : b.recv i = none) : (b.mpsc i).buf = [] := by
  simp only [recv, hopts, hpol, Option.map_some, SlowConsumerPolicy.outbound,
    Option.map_eq_none_iff] at hr
  unfold Mpsc.recv at hr
  split at hr
  · assumption
  · cases hr

end Bus

end Boardwalk
