import Boardwalk.Events.Spec.Invariant

/-!
# What a subscription is offered

A loop over the entries offers its envelope to an entry when the entry's pattern matches it.  The
pattern of a subscription never changes, every loop that starts while the entry is there visits it,
and nothing reaches the queue of a subscription that its pattern does not match (`OnTopic`).
-/

namespace Boardwalk

/-- The pattern matches the topic and the payload of the envelope. -/
def BusOps.Matches {δ τ κ : Type} (ops : BusOps δ τ κ) (p : τ) (env : EventEnvelope δ) : Prop :=
  ops.matchesEvent p env.topic env.data = true

namespace CoalesceState

variable {δ κ : Type} [DecidableEq κ] {key : EventEnvelope δ → FieldPath → Option κ}
  {env e : EventEnvelope δ}

/-- Replacing in a queue brings in the new envelope and no other. -/
theorem mem_replaceFirst {path : FieldPath} {k : κ} {l l' : List (EventEnvelope δ)}
    (h : replaceFirst key path k env l = some l') (he : e ∈ l') : e ∈ l ∨ e = env := by
  induction l generalizing l' with
  | nil => simp [replaceFirst] at h
  | cons slot rest ih =>
    rw [replaceFirst] at h
    split at h
    · obtain rfl := Option.some.inj h
      rcases List.mem_cons.mp he with rfl | he
      · exact .inr rfl
      · exact .inl (List.mem_cons_of_mem _ he)
    · obtain ⟨rest', hrest, rfl⟩ := Option.map_eq_some_iff.mp h
      rcases List.mem_cons.mp he with rfl | he
      · exact .inl List.mem_cons_self
      · exact (ih hrest he).imp_left (List.mem_cons_of_mem _)

/-- What a push leaves in a coalesce queue was there, or is the envelope. -/
theorem mem_push {s : CoalesceState δ} (he : e ∈ (s.push key env).2.queue) :
    e ∈ s.queue ∨ e = env := by
  unfold push at he
  split at he
  · exact .inl he
  · split at he
    · rename_i queue hqueue
      obtain ⟨k, -, hk⟩ := Option.bind_eq_some_iff.mp hqueue
      exact mem_replaceFirst hk he
    · split at he
      · rcases List.mem_append.mp he with he | he
        · exact .inl he
        · exact .inr (List.mem_singleton.mp he)
      · exact .inl he

end CoalesceState

namespace Bus

variable {δ τ κ : Type} [DecidableEq κ]

/-! ### The coalesce queues -/

section Coalesce

variable (b : Bus δ τ) (i j : SubscriptionId)

@[simp] theorem coalesce_remove : (b.remove j).coalesce = b.coalesce := by
  unfold remove; split <;> rfl

@[simp] theorem queue_reap : ((b.reap j).coalesce i).queue = (b.coalesce i).queue := by
  unfold reap
  split
  · by_cases hij : i = j
    · subst hij; simp [CoalesceState.close]
    · simp [hij]
  · simp

@[simp] theorem queue_foldl_reap (l : List SubscriptionId) :
    ((l.foldl reap b).coalesce i).queue = (b.coalesce i).queue := by
  induction l generalizing b with
  | nil => rfl
  | cons j l ih => rw [List.foldl_cons, ih, queue_reap]

@[simp] theorem coalesce_fireNotice (sub : SubscriptionInner τ) :
    (b.fireNotice j sub).coalesce = b.coalesce := by
  unfold fireNotice; split <;> rfl

@[simp] theorem coalesce_commitDelivered (env : EventEnvelope δ) :
    (b.commitDelivered j env).coalesce = b.coalesce := by
  unfold commitDelivered
  split
  · rfl
  · dsimp only
    split
    · rw [coalesce_remove]; rfl
    · rfl

@[simp] theorem coalesce_refundClaim : (b.refundClaim j).coalesce = b.coalesce := by
  unfold refundClaim; split <;> rfl

@[simp] theorem coalesce_commitDisconnect : (b.commitDisconnect j).coalesce = b.coalesce := by
  unfold commitDisconnect; split <;> simp

theorem coalesce_sendMatch (k : ℕ) (c : Call δ) (m : Match) :
    (b.sendMatch k c m).coalesce = b.coalesce := by
  unfold sendMatch
  split
  · rfl
  · rfl
  · split <;> rfl

theorem coalesce_commitMatch (k : ℕ) (c : Call δ) (m : Match) (rest : List Match)
    (o : SendResult) : (b.commitMatch k c m rest o).coalesce = b.coalesce := by
  cases o <;> simp [commitMatch, setCall, recordCommit]

end Coalesce

omit [DecidableEq κ] in
theorem queue_advance {ops : BusOps δ τ κ} {b b' : Bus δ τ} {k : ℕ} (i : SubscriptionId)
    (hs : b.advance ops k = some b') : (b'.coalesce i).queue = (b.coalesce i).queue := by
  obtain ⟨c, -, hadv⟩ := advance_cases hs
  cases hadv with
  | tooLarge | fits | reject | record | evict | acquire | permit | awaitClosed | push | unwound =>
    rfl
  | finish => simp [finishLoop, setCall]
  | send m => rw [coalesce_sendMatch]
  | commit => rw [coalesce_commitMatch]
  | dropGuard => simp [setCall]

/-! ### Offers -/

/-- An entry that does not match is passed over. -/
theorem visitEntry_of_not_match {ops : BusOps δ τ κ} {b : Bus δ τ} {c : Call δ}
    {j : SubscriptionId} (h : ∀ sub, b.subs j = some sub → ¬ ops.Matches sub.topic c.envelope) :
    b.visitEntry ops c j = (b, c) := by
  unfold visitEntry
  split
  · rfl
  · rename_i sub hsub
    exact if_neg (h sub hsub)

/-- What the loop of a call does with an entry that matches: the offer of the envelope. -/
def offer (ops : BusOps δ τ κ) (b : Bus δ τ) (c : Call δ) (i : SubscriptionId)
    (sub : SubscriptionInner τ) : Bus δ τ × Call δ :=
  match sub.outbound, c.api with
  | .coalesce, _ => b.coalesceEntry ops c i sub
  | .mpsc, .tryPublish => b.tryPublishEntry c i sub
  | .mpsc, .publish => b.publishEntry c i sub

theorem visitEntry_of_match {ops : BusOps δ τ κ} {b : Bus δ τ} {c : Call δ} {i : SubscriptionId}
    {sub : SubscriptionInner τ} (hsub : b.subs i = some sub)
    (h : ops.Matches sub.topic c.envelope) : b.visitEntry ops c i = b.offer ops c i sub := by
  have h' : ops.matchesEvent sub.topic c.envelope.topic c.envelope.data = true := h
  simp only [visitEntry, hsub, h', if_true]
  rfl

/-- The loop of call `k` offers its envelope to the entry of `i`. -/
def offerStep (ops : BusOps δ τ κ) (b : Bus δ τ) (k : ℕ) (c : Call δ) (i : SubscriptionId)
    (sub : SubscriptionInner τ) : Bus δ τ :=
  (b.offer ops { c with todo := c.todo.erase i } i sub).1.setCall k
    (b.offer ops { c with todo := c.todo.erase i } i sub).2

/-- The loop of call `k` passes the entry of `i` over. -/
def passOver (b : Bus δ τ) (k : ℕ) (c : Call δ) (i : SubscriptionId) : Bus δ τ :=
  b.setCall k { c with todo := c.todo.erase i }

section Visits

variable {ops : BusOps δ τ κ} {b : Bus δ τ} {k : ℕ} {c : Call δ} {i : SubscriptionId}
  {sub : SubscriptionInner τ}

/-- A visit of a loop that has the entry still before it. -/
theorem visit_eq (hk : b.calls[k]? = some c) (hphase : c.phase = .fanout) (hi : i ∈ c.todo) :
    b.visit ops k i =
      some ((b.visitEntry ops { c with todo := c.todo.erase i } i).1.setCall k
        (b.visitEntry ops { c with todo := c.todo.erase i } i).2) := by
  unfold visit
  rw [hk]
  exact if_pos ⟨hphase, hi⟩

theorem visit_of_match (hk : b.calls[k]? = some c) (hphase : c.phase = .fanout) (hi : i ∈ c.todo)
    (hsub : b.subs i = some sub) (h : ops.Matches sub.topic c.envelope) :
    b.visit ops k i = some (b.offerStep ops k c i sub) := by
  have hentry : b.visitEntry ops { c with todo := c.todo.erase i } i =
      b.offer ops { c with todo := c.todo.erase i } i sub := visitEntry_of_match hsub h
  rw [visit_eq hk hphase hi, hentry]
  rfl

theorem visit_of_not_match (hk : b.calls[k]? = some c) (hphase : c.phase = .fanout)
    (hi : i ∈ c.todo) (hsub : b.subs i = some sub) (h : ¬ ops.Matches sub.topic c.envelope) :
    b.visit ops k i = some (b.passOver k c i) := by
  have hentry : b.visitEntry ops { c with todo := c.todo.erase i } i =
      (b, { c with todo := c.todo.erase i }) := by
    refine visitEntry_of_not_match fun sub' hsub' => ?_
    obtain rfl := Option.some.inj (hsub.symm.trans hsub')
    exact h
  rw [visit_eq hk hphase hi, hentry]
  rfl

end Visits

omit [DecidableEq κ] in
/-- The loop that a call starts is over all entries there are. -/
theorem mem_todo_of_acquire {ops : BusOps δ τ κ} {b b' : Bus δ τ} {k : ℕ} {c : Call δ}
    {i : SubscriptionId} {sub : SubscriptionInner τ} (hk : b.calls[k]? = some c)
    (hp : c.phase = .acquire) (hs : b.advance ops k = some b') (hi : i < b.nextId)
    (hsub : b.subs i = some sub) : ∃ c', b'.calls[k]? = some c' ∧ c'.phase = .fanout ∧
      c'.envelope = c.envelope ∧ i ∈ c'.todo := by
  simp only [advance, hk, hp] at hs
  split at hs
  · obtain rfl := Option.some.inj hs
    obtain ⟨hlt, -⟩ := List.getElem?_eq_some_iff.mp hk
    refine ⟨{ c with phase := .fanout, todo := b.keys }, by simp [setCall, hlt], rfl, rfl, ?_⟩
    simp [keys, hi, hsub]
  · cases hs

/-- **A claim is made for a matching envelope only.** -/
theorem matches_of_claim {ops : BusOps δ τ κ} {b b' : Bus δ τ} {a : BusAction δ τ}
    {i : SubscriptionId} {k : ℕ} {c c' : Call δ} (hs : step ops b a = some b')
    (hk : b.calls[k]? = some c) (hk' : b'.calls[k]? = some c')
    (hlt : c.outstanding i < c'.outstanding i) :
    ∃ sub, b.subs i = some sub ∧ ops.Matches sub.topic c.envelope := by
  -- a call that is replaced by one with as many guards, or not at all, gains no claim
  have hset : ∀ {n : ℕ} {d d' : Call δ}, b.calls[n]? = some d → b'.calls = b.calls.set n d' →
      d'.outstanding i ≤ d.outstanding i → False := by
    intro n d d' hn hcalls hle
    rw [hcalls, List.getElem?_set] at hk'
    split at hk'
    · rename_i hnk
      subst hnk
      obtain rfl := Option.some.inj (hk.symm.trans hn)
      split at hk'
      · obtain rfl := Option.some.inj hk'
        omega
      · cases hk'
    · obtain rfl := Option.some.inj (hk.symm.trans hk')
      omega
  have hsame : b'.calls = b.calls → False := by
    intro hcalls
    rw [hcalls, hk] at hk'
    obtain rfl := Option.some.inj hk'
    omega
  have happend : ∀ {d : Call δ}, b'.calls = b.calls ++ [d] → False := by
    intro d hcalls
    obtain ⟨hlen, -⟩ := List.getElem?_eq_some_iff.mp hk
    rw [hcalls, List.getElem?_append_left hlen, hk] at hk'
    obtain rfl := Option.some.inj hk'
    omega
  cases a with
  | subscribe topic opts =>
    obtain rfl := step_subscribe hs
    exact (hsame (calls_subscribe b topic opts)).elim
  | unsubscribe j =>
    obtain rfl := step_unsubscribe hs
    exact (hsame (b.calls_reap j)).elim
  | publish env => obtain rfl := Option.some.inj hs; exact (happend rfl).elim
  | tryPublish env => obtain rfl := Option.some.inj hs; exact (happend rfl).elim
  | advance n =>
    obtain ⟨d, hn, -, d', hcalls, hadv⟩ := moved_advance hs
    exact (hset hn hcalls (List.Sublist.countP_le hadv.guards.sublist)).elim
  | visit n j =>
    obtain ⟨d, hn, -, -, b₂, d₂, hentry, rfl⟩ := visit_cases hs
    by_cases hmatch : ∃ sub, b.subs j = some sub ∧ ops.Matches sub.topic d.envelope
    · obtain ⟨sub, hsub, hmatch⟩ := hmatch
      obtain ⟨-, hcalls, -, -, -, hguards⟩ := visitEntry_call hentry
      have hcalls' : (b₂.setCall n d₂).calls = b.calls.set n d₂ := by simp [setCall, hcalls]
      by_cases hij : j = i
      · subst hij
        by_cases hnk : n = k
        · subst hnk
          obtain rfl := Option.some.inj (hk.symm.trans hn)
          exact ⟨sub, hsub, hmatch⟩
        · rw [hcalls', List.getElem?_set_ne hnk, hk] at hk'
          obtain rfl := Option.some.inj hk'
          omega
      · refine (hset hn hcalls' ?_).elim
        rcases hguards with hg | ⟨sub', -, hg⟩
        · simp [Call.outstanding, hg]
        · simp [Call.outstanding, hg, hij]
    · have hpass : b.visitEntry ops { d with todo := d.todo.erase j } j =
          (b, { d with todo := d.todo.erase j }) :=
        visitEntry_of_not_match fun sub hsub hm => hmatch ⟨sub, hsub, hm⟩
      rw [hpass] at hentry
      cases hentry
      exact (hset hn rfl (Nat.le_refl _)).elim
  | cancel n =>
    obtain ⟨d, d', hn, -, hcalls, -, hguards, -⟩ := moved_cancel hs
    exact (hset hn hcalls (by simp [Call.outstanding, hguards])).elim
  | recv j =>
    obtain ⟨env, hr⟩ := step_recv hs
    exact (hsame (frame_recv (i := j) hr).2).elim
  | dropRx j => obtain rfl := Option.some.inj hs; exact (hsame rfl).elim
  | withMaxEventSize limit => obtain rfl := Option.some.inj hs; exact (hsame rfl).elim

/-- One iteration of a loop pushes at most its envelope, and only onto the queue of an entry that
matches. -/
theorem mem_queue_visitEntry {ops : BusOps δ τ κ} {b b₂ : Bus δ τ} {c c₂ : Call δ}
    {i j : SubscriptionId} {e : EventEnvelope δ} (h : b.visitEntry ops c j = (b₂, c₂))
    (he : e ∈ (b₂.coalesce i).queue) :
    e ∈ (b.coalesce i).queue ∨ ∃ sub, b.subs i = some sub ∧ ops.Matches sub.topic e := by
  unfold visitEntry at h
  split at h
  · cases h
    exact .inl he
  rename_i sub hsub
  split at h
  · rename_i hmatch
    split at h
    · -- the coalesce arm
      unfold coalesceEntry at h
      dsimp only at h
      have hpush : b₂.coalesce =
          Function.update b.coalesce j ((b.coalesce j).push ops.extractKey c.envelope).2 := by
        split at h <;> cases h <;> rfl
      rw [hpush] at he
      by_cases hij : i = j
      · subst hij
        rw [Function.update_self] at he
        rcases CoalesceState.mem_push he with he | rfl
        · exact .inl he
        · exact .inr ⟨sub, hsub, hmatch⟩
      · rw [Function.update_of_ne hij] at he
        exact .inl he
    · -- the channel arms leave the coalesce queues alone
      unfold tryPublishEntry at h
      split at h
      · cases h
        exact .inl he
      · split at h <;> cases h
        · rw [coalesce_fireNotice] at he
          exact .inl he
        · exact .inl he
        · exact .inl he
        · exact .inl he
      · cases h
        exact .inl he
    · unfold publishEntry at h
      split at h <;> cases h <;> exact .inl he
  · cases h
    exact .inl he

omit [DecidableEq κ] in
/-- A receive takes the envelope from the queue of the subscription. -/
theorem recv_mem {b b' : Bus δ τ} {j : SubscriptionId} {env : EventEnvelope δ}
    (hs : b.recv j = some (env, b')) :
    (env ∈ (b.mpsc j).enqueued ∨ env ∈ (b.coalesce j).queue) ∧
      ∀ i, ∀ e ∈ (b'.coalesce i).queue, e ∈ (b.coalesce i).queue := by
  unfold recv at hs
  split at hs
  · cases hs
  · -- from a channel comes what was at its head
    obtain ⟨⟨e, q⟩, hq, he⟩ := Option.map_eq_some_iff.mp hs
    cases he
    obtain ⟨hbuf, -⟩ := Mpsc.recv_some hq
    exact ⟨.inl (by simp [Mpsc.enqueued, hbuf]), fun _ _ h => h⟩
  · -- a pop leaves the rest of its own queue
    obtain ⟨⟨e, state⟩, hpop, he⟩ := Option.map_eq_some_iff.mp hs
    cases he
    unfold CoalesceState.pop at hpop
    split at hpop
    · cases hpop
    · rename_i x rest hqueue
      cases hpop
      refine ⟨.inr (by simp [hqueue]), fun i e he => ?_⟩
      by_cases hij : i = j
      · subst hij
        simp only [Function.update_self] at he
        rw [hqueue]
        exact List.mem_cons_of_mem _ he
      · simpa [hij] using he

/-- What a step leaves in the coalesce queue of `i` was there, or is an envelope that a loop offered
to its entry. -/
theorem mem_queue_of_step {ops : BusOps δ τ κ} {b b' : Bus δ τ} {a : BusAction δ τ}
    {i : SubscriptionId} {e : EventEnvelope δ}
    (hi : ∀ topic opts, a = .subscribe topic opts → i ≠ b.nextId) (hs : step ops b a = some b')
    (he : e ∈ (b'.coalesce i).queue) :
    e ∈ (b.coalesce i).queue ∨ ∃ sub, b.subs i = some sub ∧ ops.Matches sub.topic e := by
  cases a with
  | subscribe topic opts =>
    -- a new coalesce queue begins empty, under an id that is not `i`
    have hi := hi topic opts rfl
    obtain rfl := step_subscribe hs
    unfold subscribe at he
    dsimp only at he
    split at he
    · exact .inl (by simpa [hi] using he)
    · split at he
      · exact .inl he
      · exact .inl he
  | unsubscribe j =>
    obtain rfl := step_unsubscribe hs
    exact .inl (by rwa [queue_reap] at he)
  | publish env => obtain rfl := Option.some.inj hs; exact .inl he
  | tryPublish env => obtain rfl := Option.some.inj hs; exact .inl he
  | advance n => exact .inl (by rwa [queue_advance i hs] at he)
  | visit n j =>
    -- only the visit of a coalesce entry pushes
    obtain ⟨d, -, -, -, b₂, d₂, hentry, rfl⟩ := visit_cases hs
    exact mem_queue_visitEntry hentry he
  | cancel n =>
    obtain ⟨d, -, ⟨-, rfl⟩ | ⟨m, rest, -, -, rfl⟩⟩ := cancel_cases hs
    · exact .inl he
    · exact .inl he
  | recv j =>
    obtain ⟨env, hr⟩ := step_recv hs
    exact .inl ((recv_mem hr).2 i e he)
  | dropRx j =>
    obtain rfl := Option.some.inj hs
    by_cases hij : i = j
    · subst hij; exact .inl (by simpa [dropRx, CoalesceState.markReceiverDropped] using he)
    · exact .inl (by simpa [dropRx, setMpsc, hij] using he)
  | withMaxEventSize limit => obtain rfl := Option.some.inj hs; exact .inl he

/-! ### The pattern of a subscription -/

/-- Subscription `i` has the pattern `p`, and what is claimed for it or queued to it matches. -/
structure OnTopic (b : Bus δ τ) (ops : BusOps δ τ κ) (i : SubscriptionId) (p : τ) : Prop where
  created : i < b.nextId
  entry : ∀ sub, b.subs i = some sub → sub.topic = p
  claims : ∀ c ∈ b.calls, 0 < c.outstanding i → ops.Matches p c.envelope
  enqueued : ∀ env ∈ (b.mpsc i).enqueued, ops.Matches p env
  queued : ∀ env ∈ (b.coalesce i).queue, ops.Matches p env

section OneSubscription

variable {ops : BusOps δ τ κ} {b b' : Bus δ τ} {a : BusAction δ τ} {i : SubscriptionId} {p : τ}

theorem OnTopic.effect (h : b.OnTopic ops i p) (hs : step ops b a = some b') :
    Effect i b a b' ∨ Direct ops i b a b' :=
  effect_of_step (fun _ _ _ => Nat.ne_of_lt h.created) hs

omit [DecidableEq κ] in
/-- **The pattern of an entry never changes.** -/
theorem topic_of_effect (h : Effect i b a b' ∨ Direct ops i b a b')
    (hb : ∀ sub, b.subs i = some sub → sub.topic = p) :
    ∀ sub, b'.subs i = some sub → sub.topic = p := by
  intro sub' hsub'
  -- no step writes the topic of an entry
  rcases h with h | h
  · cases h with
    | quiet hf => exact hb sub' (hf.subs ▸ hsub')
    | claim _ _ _ sub sub'' _ _ he hc hs =>
      rw [hs] at hsub'
      obtain rfl := Option.some.inj hsub'
      obtain ⟨rfl, -⟩ := SubscriptionInner.claim_some hc
      exact hb sub he
    | land _ _ _ _ _ hs => exact hb sub' (hs ▸ hsub')
    | delivered _ c _ _ _ _ _ hs =>
      rw [hs, Option.bind_eq_some_iff] at hsub'
      obtain ⟨sub, he, hd⟩ := hsub'
      split at hd
      · cases hd
      · obtain rfl := Option.some.inj hd
        exact hb sub he
    | refund _ _ _ _ _ _ _ _ hs =>
      rw [hs, Option.map_eq_some_iff] at hsub'
      obtain ⟨sub, he, rfl⟩ := hsub'
      exact hb sub he
    | disconnect _ _ _ _ _ _ _ _ _ _ _ _ hs => rw [hs] at hsub'; cases hsub'
    | closed _ _ _ _ _ _ _ hg => rw [hg.subs] at hsub'; cases hsub'
    | removed hg => rw [hg.subs] at hsub'; cases hsub'
    | fired _ _ sub _ _ he _ hs =>
      rw [hs] at hsub'
      obtain rfl := Option.some.inj hsub'
      exact hb sub he
    | coalesced _ sub he _ hs =>
      rw [hs] at hsub'
      obtain rfl := Option.some.inj hsub'
      exact hb sub he
  · cases h with
    | mk _ _ sub _ _ _ _ he _ _ _ hs =>
      rw [hs] at hsub'
      obtain rfl := Option.some.inj hsub'
      exact hb sub he

/-- **Claims are for matching envelopes.** -/
theorem OnTopic.claims_step (h : b.OnTopic ops i p) (hs : step ops b a = some b') :
    ∀ c ∈ b'.calls, 0 < c.outstanding i → ops.Matches p c.envelope := by
  have hkeep : CallsKeep i b b' →
      ∀ c ∈ b'.calls, 0 < c.outstanding i → ops.Matches p c.envelope := by
    intro hc
    refine hc.forall_mem h.claims (fun _ _ h0 => ?_) (fun c c' hP hk hpos => ?_)
    · simp [Call.outstanding] at h0
    · rw [hk.envelope]
      exact hP (hk.outstanding ▸ hpos)
  -- a call that resolves a claim held one before
  have hres : ∀ {k : ℕ} {c c' : Call δ}, b.calls[k]? = some c → c.Resolves i c' →
      0 < c'.outstanding i → ops.Matches p c'.envelope := by
    intro k c c' hk hr _
    rw [hr.envelope]
    refine h.claims c (List.mem_of_getElem? hk) ?_
    have := hr.outstanding
    omega
  rcases h.effect hs with heff | heff
  · cases heff with
    | quiet _ hc => exact hkeep hc
    | claim k c c' sub _ hk hcalls he _ _ _ _ _ _ henv ho =>
      refine Party.forall_mem_set hcalls h.claims fun _ => ?_
      obtain ⟨hlt, -⟩ := List.getElem?_eq_some_iff.mp hk
      have hk' : b'.calls[k]? = some c' := by rw [hcalls]; simp [hlt]
      obtain ⟨sub', he', hm⟩ := matches_of_claim hs hk hk' (by rw [ho]; exact Nat.lt_succ_self _)
      rw [h.entry sub' he'] at hm
      rw [henv]
      exact hm
    | land k c c' hk hcalls _ _ _ _ _ henv ho =>
      refine Party.forall_mem_set hcalls h.claims fun hpos => ?_
      rw [henv]
      exact h.claims c (List.mem_of_getElem? hk) (ho ▸ hpos)
    | delivered k c c' hk hcalls _ hr => exact Party.forall_mem_set hcalls h.claims (hres hk hr)
    | refund k c c' hk hcalls _ hr => exact Party.forall_mem_set hcalls h.claims (hres hk hr)
    | disconnect k c c' _ _ hk hcalls _ _ _ hr =>
      exact Party.forall_mem_set hcalls h.claims (hres hk hr)
    | closed k c c' hk hcalls _ hr => exact Party.forall_mem_set hcalls h.claims (hres hk hr)
    | removed _ hc => exact hkeep hc
    | fired _ _ _ _ _ _ _ _ _ _ _ hc => exact hkeep hc
    | coalesced _ _ _ _ _ _ _ _ hc => exact hkeep hc
  · cases heff with
    | mk _ _ _ _ _ _ _ _ _ _ _ _ _ _ _ hc => exact hkeep hc

omit [DecidableEq κ] in
/-- **Queued envelopes match.** -/
theorem OnTopic.enqueued_effect (h : b.OnTopic ops i p)
    (heff : Effect i b a b' ∨ Direct ops i b a b') :
    ∀ env ∈ (b'.mpsc i).enqueued, ops.Matches p env := by
  have hsame : (b'.mpsc i).enqueued = (b.mpsc i).enqueued →
      ∀ env ∈ (b'.mpsc i).enqueued, ops.Matches p env := by
    intro he env henv
    exact h.enqueued env (he ▸ henv)
  have hpush : ∀ {c : Call δ}, (b'.mpsc i).enqueued = (b.mpsc i).enqueued ++ [c.envelope] →
      ops.Matches p c.envelope → ∀ env ∈ (b'.mpsc i).enqueued, ops.Matches p env := by
    intro c he hm env henv
    rw [he] at henv
    rcases List.mem_append.mp henv with henv | henv
    · exact h.enqueued env henv
    · rwa [List.mem_singleton.mp henv]
  rcases heff with heff | heff
  · cases heff with
    | quiet hf => exact hsame hf.enqueued
    | claim _ _ _ _ _ _ _ _ _ _ _ _ hq => exact hsame hq
    | land k c c' hk _ _ _ _ hq _ _ _ hun =>
      -- what lands was claimed, and only matching envelopes are claimed
      exact hpush hq (h.claims c (List.mem_of_getElem? hk) hun.2)
    | delivered _ _ _ _ _ _ _ _ _ _ hq => exact hsame hq
    | refund _ _ _ _ _ _ _ _ _ _ _ hq => exact hsame hq
    | disconnect _ _ _ _ _ _ _ _ _ _ _ _ _ _ _ hq => exact hsame hq
    | closed _ _ _ _ _ _ _ hg => exact hsame hg.enqueued
    | removed hg => exact hsame hg.enqueued
    | fired _ _ _ _ _ _ _ _ _ _ hq => exact hsame hq
    | coalesced _ _ _ _ _ _ _ hq => exact hsame hq
  · cases heff with
    | mk k c sub _ _ _ _ he hm _ _ _ _ _ hq =>
      -- a `try_publish` asks the entry's pattern before it delivers
      refine hpush hq ?_
      have hm' : ops.Matches sub.topic c.envelope := hm
      rwa [h.entry sub he] at hm'

/-- A subscription on a topic stays on it. -/
theorem OnTopic.step (h : b.OnTopic ops i p) (hs : step ops b a = some b') :
    b'.OnTopic ops i p where
  created := by
    rcases nextId_of_step hs with hn | ⟨topic, opts, -, rfl⟩
    · rw [hn]; exact h.created
    · rw [nextId_subscribe]; exact Nat.lt_succ_of_lt h.created
  entry := topic_of_effect (h.effect hs) h.entry
  claims := h.claims_step hs
  enqueued := h.enqueued_effect (h.effect hs)
  queued env he := by
    rcases mem_queue_of_step (fun _ _ _ => Nat.ne_of_lt h.created) hs he with he | ⟨sub, hsub, hm⟩
    · exact h.queued env he
    · rwa [h.entry sub hsub] at hm

/-- **A subscription keeps its pattern** along a run of the bus. -/
theorem OnTopic.run {replayCapacity : ℕ} {as : List (BusAction δ τ)} (h : b.OnTopic ops i p)
    (hrun : (machine ops replayCapacity).run b as = some b') : b'.OnTopic ops i p :=
  have hstep : ∀ s a t, s.OnTopic ops i p → (machine ops replayCapacity).step s a = some t →
      t.OnTopic ops i p := fun _ _ _ h hs => OnTopic.step h hs
  Machine.Leads.inv hstep h ⟨as, hrun⟩

/-- The queues of the ids not yet handed out are empty. -/
def FreshQueues (b : Bus δ τ) : Prop := ∀ i, b.nextId ≤ i → (b.coalesce i).queue = []

/-- Queues of ids not yet given out stay empty. -/
theorem freshQueues_step (hb : b.WellFormed) (hq : b.FreshQueues)
    (hs : Bus.step ops b a = some b') : b'.FreshQueues := by
  intro i hi
  have hle : b.nextId ≤ i ∧ ∀ topic opts, a = .subscribe topic opts → i ≠ b.nextId := by
    rcases nextId_of_step hs with hn | ⟨topic, opts, rfl, rfl⟩
    · refine ⟨hn ▸ hi, fun topic opts ha => ?_⟩
      subst ha
      rw [step_subscribe hs, nextId_subscribe] at hn
      omega
    · rw [nextId_subscribe] at hi
      exact ⟨by omega, fun _ _ _ => by omega⟩
  refine List.eq_nil_iff_forall_not_mem.mpr fun e he => ?_
  rcases mem_queue_of_step hle.2 hs he with he | ⟨sub, hsub, -⟩
  · rw [hq i hle.1] at he
    cases he
  · exact absurd (hb.lt_nextId hsub) (Nat.not_lt.mpr hle.1)

theorem freshQueues_of_reachable {replayCapacity : ℕ}
    (h : (machine ops replayCapacity).Reachable b) : b.FreshQueues := by
  have hboth := h.inv (I := fun b => b.WellFormed ∧ b.FreshQueues)
    ⟨wellFormed_init ops replayCapacity, fun _ _ => rfl⟩
    fun b a b' hb hs => ⟨wellFormed_step hb.1 hs, freshQueues_step hb.1 hb.2 hs⟩
  exact hboth.2

/-- A subscription that `subscribe` creates has the pattern it was given. -/
theorem onTopic_subscribe (hb : b.WellFormed) (hq : b.FreshQueues) {opts : SubscribeOpts}
    (hs : Bus.step ops b (.subscribe p opts) = some b')
    (hsome : (b'.subs b.nextId).isSome = true) : b'.OnTopic ops b.nextId p := by
  -- nothing was claimed, sent or queued under the new id
  have hu := hb.untouched b.nextId (Nat.le_refl _)
  have hqueue := hq b.nextId (Nat.le_refl _)
  obtain rfl := step_subscribe hs
  have hcalls := calls_subscribe b p opts
  rcases subscribe_cases b p opts hu with hnone | ⟨sub, hsub, hval, -, -, henq⟩
  · rw [hnone.subs] at hsome
    cases hsome
  · refine ⟨by rw [nextId_subscribe]; exact Nat.lt_succ_self _, ?_, ?_, ?_, ?_⟩
    · intro sub' hsub'
      rw [hsub] at hsub'
      obtain rfl := Option.some.inj hsub'
      rw [hval]
    · intro c hc hpos
      rw [hcalls] at hc
      rw [(hu.calls c hc).1] at hpos
      cases hpos
    · simp [henq]
    · have hempty : ((b.subscribe p opts).coalesce b.nextId).queue = [] := by
        unfold subscribe
        dsimp only
        split
        · simp [CoalesceState.new]
        · split
          · exact hqueue
          · exact hqueue
      simp [hempty]

/-- A subscription with the pattern `p` is offered what the pattern matches: every loop that starts
visits its entry, and the visit of a matching envelope is the offer. -/
structure Offers (b : Bus δ τ) (ops : BusOps δ τ κ) (i : SubscriptionId) (p : τ) : Prop where
  visited : ∀ (k : ℕ) (c : Call δ) (b' : Bus δ τ), b.calls[k]? = some c → c.phase = .acquire →
    b.advance ops k = some b' → ∃ c', b'.calls[k]? = some c' ∧ c'.phase = .fanout ∧
      c'.envelope = c.envelope ∧ i ∈ c'.todo
  offered : ∀ (sub : SubscriptionInner τ) (c : Call δ), b.subs i = some sub →
    ops.Matches p c.envelope → b.visitEntry ops c i = b.offer ops c i sub

theorem OnTopic.offers (h : b.OnTopic ops i p) (hsome : (b.subs i).isSome = true) :
    b.Offers ops i p where
  visited k c b' hk hp hs := by
    obtain ⟨sub, hsub⟩ := Option.isSome_iff_exists.mp hsome
    exact mem_todo_of_acquire hk hp hs h.created hsub
  offered sub c hsub hm := visitEntry_of_match hsub (by rwa [h.entry sub hsub])

omit [DecidableEq κ] in
/-- **What a consumer receives matches its pattern.** -/
theorem OnTopic.recv (h : b.OnTopic ops i p) {env : EventEnvelope δ}
    (hs : b.recv i = some (env, b')) : ops.Matches p env := by
  rcases (recv_mem hs).1 with he | he
  · exact h.enqueued env he
  · exact h.queued env he

end OneSubscription

end Bus

end Boardwalk
