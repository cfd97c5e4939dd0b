import Boardwalk.Events.Spec.Step

/-!
# What one step of the bus does to one subscription

`Effect i b a b'` lists what a step from `b` to `b'` can do to subscription `i`: to its entry, its
slow-consumer one-shot, its history, the envelopes ever enqueued to it, and the claims that publish
calls hold on it.  `Direct` is the one thing that only `try_publish` does, a delivery without a
claim.  `effect_of_step` proves that the list is complete.  The invariants of the other modules are
proved from the list and never unfold a step.
-/

namespace Boardwalk

/-! ### The claims a call holds -/

namespace Call

variable {δ : Type}

/-- The number of claims the call holds on `i`. -/
def outstanding (i : SubscriptionId) (c : Call δ) : ℕ := c.guards.countP fun m => m.id == i

/-- `1` when the call has enqueued its envelope to `i` and not yet committed it. -/
def landed (i : SubscriptionId) (c : Call δ) : ℕ :=
  if c.phase = .commit .delivered ∧ c.guards.head?.map (·.id) = some i then 1 else 0

/-- The call holds a clone of the sender of `i`. -/
def holdsSender (i : SubscriptionId) (c : Call δ) : Bool := c.matched.any fun m => m.id == i

/-- The call holds a claim on `i` whose envelope it has not enqueued. -/
def Unsent (i : SubscriptionId) (c : Call δ) : Prop := c.landed i < c.outstanding i

instance (i : SubscriptionId) (c : Call δ) : Decidable (c.Unsent i) :=
  inferInstanceAs (Decidable (_ < _))

theorem guards_of_head {i : SubscriptionId} {c : Call δ}
    (h : c.guards.head?.map (·.id) = some i) : ∃ m rest, c.guards = m :: rest ∧ m.id = i := by
  cases hg : c.guards with
  | nil => simp [hg] at h
  | cons m rest => exact ⟨m, rest, rfl, by simpa [hg] using h⟩

theorem landed_le_outstanding (i : SubscriptionId) (c : Call δ) :
    c.landed i ≤ c.outstanding i := by
  unfold landed outstanding
  split
  · rename_i h
    obtain ⟨m, rest, hg, hm⟩ := guards_of_head h.2
    simp [hg, hm]
  · exact Nat.zero_le _

theorem landed_eq_zero {i : SubscriptionId} {c : Call δ} (h : c.phase ≠ .commit .delivered) :
    c.landed i = 0 := by
  simp [landed, h]

theorem landed_cons_ne {i : SubscriptionId} {c : Call δ} {m : Match} {rest : List Match}
    (hg : c.guards = m :: rest) (hm : m.id ≠ i) : c.landed i = 0 := by
  simp [landed, hg, hm]

theorem outstanding_cons {i : SubscriptionId} {c : Call δ} {m : Match} {rest : List Match}
    (hg : c.guards = m :: rest) :
    c.outstanding i = (rest.countP fun m => m.id == i) + if m.id = i then 1 else 0 := by
  simp [outstanding, hg, List.countP_cons]

/-- The call's claims on `i`, its envelope and its sender clones are as before (it may have given
clones up). -/
structure Keeps (i : SubscriptionId) (c c' : Call δ) : Prop where
  api : c'.api = c.api
  envelope : c'.envelope = c.envelope
  outstanding : c'.outstanding i = c.outstanding i
  landed : c'.landed i = c.landed i
  holdsSender : c'.holdsSender i = true → c.holdsSender i = true
  held : 0 < c'.outstanding i → c.holdsSender i = true → c'.holdsSender i = true

theorem Keeps.phase {i : SubscriptionId} {c : Call δ} {p : Phase}
    (h : c.phase ≠ .commit .delivered) (h' : p ≠ .commit .delivered) :
    c.Keeps i { c with phase := p } where
  api := rfl
  envelope := rfl
  outstanding := rfl
  landed := by rw [landed_eq_zero h, landed_eq_zero h']
  holdsSender := id
  held _ := id

/-- One claim on `i` of the call is resolved. -/
structure Resolves (i : SubscriptionId) (c c' : Call δ) : Prop where
  api : c'.api = c.api
  envelope : c'.envelope = c.envelope
  outstanding : c'.outstanding i + 1 = c.outstanding i
  landed : c'.landed i = 0
  holdsSender : c'.holdsSender i = true → c.holdsSender i = true
  held : 0 < c'.outstanding i → c.holdsSender i = true → c'.holdsSender i = true

end Call

namespace Bus

variable {δ τ κ : Type} [DecidableEq κ]

/-- The calls are as before as far as `i` goes: one moved without touching its claims on `i`, or a
new call came in. -/
inductive CallsKeep (i : SubscriptionId) (b b' : Bus δ τ) : Prop where
  | same (calls : b'.calls = b.calls)
  | start (api : PublishApi) (env : EventEnvelope δ)
      (calls : b'.calls = b.calls ++ [{ api, envelope := env }])
  | move (k : ℕ) (c c' : Call δ) (at_k : b.calls[k]? = some c)
      (calls : b'.calls = b.calls.set k c') (keeps : c.Keeps i c')

/-- The entry, the one-shot, the history and the enqueued envelopes of `i` are as before. -/
structure Frame (i : SubscriptionId) (b b' : Bus δ τ) : Prop where
  subs : b'.subs i = b.subs i
  notify : b'.notify i = b.notify i
  hist : b'.hist i = b.hist i
  enqueued : (b'.mpsc i).enqueued = (b.mpsc i).enqueued

/-- The entry of `i` is removed, and with it its one-shot sender. -/
structure Removed (i : SubscriptionId) (b b' : Bus δ τ) : Prop where
  entry : ∃ sub, b.subs i = some sub
  subs : b'.subs i = none
  notify : b'.notify i = (b.notify i).dropSender
  hist : b'.hist i = b.hist i
  enqueued : (b'.mpsc i).enqueued = (b.mpsc i).enqueued

/-- What a step `a` does to subscription `i`. -/
inductive Effect (i : SubscriptionId) (b : Bus δ τ) (a : BusAction δ τ) (b' : Bus δ τ) : Prop where
  | quiet (frame : Frame i b b') (calls : CallsKeep i b b')
  /-- The loop of a `publish` claims a slot. -/
  | claim (k : ℕ) (c c' : Call δ) (sub sub' : SubscriptionInner τ)
      (at_k : b.calls[k]? = some c) (calls : b'.calls = b.calls.set k c')
      (entry : b.subs i = some sub) (claimed : sub.claim = some sub')
      (subs : b'.subs i = some sub') (notify : b'.notify i = b.notify i)
      (hist : b'.hist i = { b.hist i with claimed := (b.hist i).claimed ++ [c.envelope] })
      (enqueued : (b'.mpsc i).enqueued = (b.mpsc i).enqueued)
      (api : c'.api = c.api) (envelope : c'.envelope = c.envelope)
      (outstanding : c'.outstanding i = c.outstanding i + 1)
      (landed : c'.landed i = c.landed i) (holdsSender : c'.holdsSender i = true)
  /-- A call enqueues its envelope on a claim it holds. -/
  | land (k : ℕ) (c c' : Call δ)
      (at_k : b.calls[k]? = some c) (calls : b'.calls = b.calls.set k c')
      (subs : b'.subs i = b.subs i) (notify : b'.notify i = b.notify i)
      (hist : b'.hist i = b.hist i)
      (enqueued : (b'.mpsc i).enqueued = (b.mpsc i).enqueued ++ [c.envelope])
      (api : c'.api = c.api) (envelope : c'.envelope = c.envelope)
      (outstanding : c'.outstanding i = c.outstanding i)
      (unsent : c.landed i = 0 ∧ 0 < c.outstanding i) (landed : c'.landed i = 1)
      (holdsSender : c'.holdsSender i = c.holdsSender i)
  /-- A call commits an envelope it has enqueued. -/
  | delivered (k : ℕ) (c c' : Call δ)
      (at_k : b.calls[k]? = some c) (calls : b'.calls = b.calls.set k c')
      (sent : c.landed i = 1) (resolves : c.Resolves i c')
      (subs : b'.subs i = (b.subs i).bind fun sub =>
        if (sub.deliver c.envelope.position).exhausted then none
        else some (sub.deliver c.envelope.position))
      (notify : b'.notify i = b.notify i ∨
        b'.subs i = none ∧ b'.notify i = (b.notify i).dropSender)
      (hist : b'.hist i = { b.hist i with committed := (b.hist i).committed + 1 })
      (enqueued : (b'.mpsc i).enqueued = (b.mpsc i).enqueued)
  /-- A call gives a claim back, which the entry, if it is still there, gets refunded. -/
  | refund (k : ℕ) (c c' : Call δ)
      (at_k : b.calls[k]? = some c) (calls : b'.calls = b.calls.set k c')
      (unsent : c.landed i = 0) (resolves : c.Resolves i c')
      (cause : c.phase = .unwind ∨ c.phase = .commit .dropped ∧ c.guards.head?.map (·.id) = some i ∨
        b.subs i = none)
      (subs : b'.subs i = (b.subs i).map SubscriptionInner.refund)
      (notify : b'.notify i = b.notify i) (hist : b'.hist i = b.hist i)
      (enqueued : (b'.mpsc i).enqueued = (b.mpsc i).enqueued)
  /-- A call finds the queue full and disconnects the subscriber. -/
  | disconnect (k : ℕ) (c c' : Call δ) (sub : SubscriptionInner τ) (action : a = .advance k)
      (at_k : b.calls[k]? = some c) (calls : b'.calls = b.calls.set k c')
      (phase : c.phase = .commit .disconnectSlowConsumer)
      (head : c.guards.head?.map (·.id) = some i)
      (unsent : c.landed i = 0) (resolves : c.Resolves i c')
      (entry : b.subs i = some sub) (subs : b'.subs i = none)
      (notify : b'.notify i = if sub.slowConsumerNotify then
        ((b.notify i).send sub.notice).dropSender else (b.notify i).dropSender)
      (hist : b'.hist i = b.hist i)
      (enqueued : (b'.mpsc i).enqueued = (b.mpsc i).enqueued)
  /-- A call finds the receiver gone and removes the entry. -/
  | closed (k : ℕ) (c c' : Call δ)
      (at_k : b.calls[k]? = some c) (calls : b'.calls = b.calls.set k c')
      (unsent : c.landed i = 0) (resolves : c.Resolves i c') (gone : Removed i b b')
  /-- The entry is removed: by `unsubscribe`, or at the end of a loop. -/
  | removed (gone : Removed i b b') (calls : CallsKeep i b b')
  /-- The loop of a `try_publish` finds the queue full and fires the notice. -/
  | fired (k : ℕ) (c : Call δ) (sub : SubscriptionInner τ)
      (at_k : b.calls[k]? = some c) (api : c.api = .tryPublish)
      (entry : b.subs i = some sub) (armed : sub.slowConsumerNotify = true)
      (subs : b'.subs i = some { sub with slowConsumerNotify := false })
      (notify : b'.notify i = (b.notify i).send sub.notice) (hist : b'.hist i = b.hist i)
      (enqueued : (b'.mpsc i).enqueued = (b.mpsc i).enqueued) (calls : CallsKeep i b b')
  /-- A loop pushes onto the coalesce queue. -/
  | coalesced (env : EventEnvelope δ) (sub : SubscriptionInner τ)
      (entry : b.subs i = some sub) (outbound : sub.outbound = .coalesce)
      (subs : b'.subs i = some (sub.deliverNow env.position))
      (notify : b'.notify i = b.notify i) (hist : b'.hist i = b.hist i)
      (enqueued : (b'.mpsc i).enqueued = (b.mpsc i).enqueued) (calls : CallsKeep i b b')

/-- The loop of a `try_publish` enqueues its envelope to `i`: the only delivery without a claim. -/
inductive Direct (ops : BusOps δ τ κ) (i : SubscriptionId) (b : Bus δ τ) (a : BusAction δ τ)
    (b' : Bus δ τ) : Prop where
  | mk (k : ℕ) (c : Call δ) (sub : SubscriptionInner τ) (action : a = .visit k i)
      (at_k : b.calls[k]? = some c) (loop : c.phase = .fanout) (api : c.api = .tryPublish)
      (entry : b.subs i = some sub)
      (matched : ops.matchesEvent sub.topic c.envelope.topic c.envelope.data = true)
      (room : (b.mpsc i).rxAlive = true ∧ (b.mpsc i).hasRoom = true)
      (outbound : sub.outbound = .mpsc)
      (subs : b'.subs i = some (sub.deliverNow c.envelope.position))
      (notify : b'.notify i = b.notify i)
      (hist : b'.hist i = { b.hist i with committed := (b.hist i).committed + 1 })
      (enqueued : (b'.mpsc i).enqueued = (b.mpsc i).enqueued ++ [c.envelope])
      (calls : CallsKeep i b b')

/-! ### The operations that leave a subscription alone -/

theorem Frame.refl (i : SubscriptionId) (b : Bus δ τ) : Frame i b b := ⟨rfl, rfl, rfl, rfl⟩

theorem Frame.trans {i : SubscriptionId} {b b' b'' : Bus δ τ} (h : Frame i b b')
    (h' : Frame i b' b'') : Frame i b b'' :=
  ⟨h'.subs.trans h.subs, h'.notify.trans h.notify, h'.hist.trans h.hist,
    h'.enqueued.trans h.enqueued⟩

section OtherSubscription

variable {i j : SubscriptionId} (b : Bus δ τ)

theorem frame_setCall (k : ℕ) (c : Call δ) : Frame i b (b.setCall k c) := ⟨rfl, rfl, rfl, rfl⟩

theorem frame_setSub (h : i ≠ j) (sub : SubscriptionInner τ) : Frame i b (b.setSub j sub) :=
  ⟨by simp [setSub, h], rfl, rfl, rfl⟩

theorem frame_setMpsc (h : i ≠ j) (q : Mpsc (EventEnvelope δ)) : Frame i b (b.setMpsc j q) :=
  ⟨rfl, rfl, rfl, by simp [setMpsc, h]⟩

/-- An operation on any queue, that of `i` included, that enqueues nothing. -/
theorem frame_setMpsc_of_enqueued {q : Mpsc (EventEnvelope δ)}
    (h : q.enqueued = (b.mpsc j).enqueued) : Frame i b (b.setMpsc j q) := by
  by_cases hij : i = j
  · subst hij
    exact ⟨rfl, rfl, rfl, by simp [setMpsc, h]⟩
  · exact b.frame_setMpsc hij q

theorem frame_recordClaim (h : i ≠ j) (env : EventEnvelope δ) : Frame i b (b.recordClaim j env) :=
  ⟨rfl, rfl, by simp [recordClaim, h], rfl⟩

theorem frame_recordCommit (h : i ≠ j) : Frame i b (b.recordCommit j) :=
  ⟨rfl, rfl, by simp [recordCommit, h], rfl⟩

theorem frame_remove (h : i ≠ j) : Frame i b (b.remove j) := by
  unfold remove
  split
  · exact Frame.refl i b
  · exact ⟨by simp [h], by simp [h], rfl, rfl⟩

theorem frame_reap (h : i ≠ j) : Frame i b (b.reap j) := by
  unfold reap
  split
  · obtain ⟨hs, hn, hh, he⟩ := b.frame_remove h
    exact ⟨hs, hn, hh, he⟩
  · exact b.frame_remove h

theorem frame_fireNotice (h : i ≠ j) (sub : SubscriptionInner τ) :
    Frame i b (b.fireNotice j sub) := by
  unfold fireNotice
  split
  · exact ⟨by simp [setSub, h], by simp [h], rfl, rfl⟩
  · exact Frame.refl i b

theorem frame_commitDelivered (h : i ≠ j) (env : EventEnvelope δ) :
    Frame i b (b.commitDelivered j env) := by
  unfold commitDelivered
  split
  · exact Frame.refl i b
  · dsimp only
    split
    · exact (b.frame_setSub h _).trans (frame_remove _ h)
    · exact b.frame_setSub h _

theorem frame_refundClaim (h : i ≠ j) : Frame i b (b.refundClaim j) := by
  unfold refundClaim
  split
  · exact Frame.refl i b
  · exact b.frame_setSub h _

theorem frame_commitDisconnect (h : i ≠ j) : Frame i b (b.commitDisconnect j) := by
  unfold commitDisconnect
  split
  · exact Frame.refl i b
  · exact (b.frame_fireNotice h _).trans (frame_remove _ h)

end OtherSubscription

/-! ### The operations leave the calls alone -/

section Calls

variable (b : Bus δ τ) (i : SubscriptionId)

@[simp] theorem calls_remove : (b.remove i).calls = b.calls := by
  unfold remove; split <;> rfl

@[simp] theorem calls_reap : (b.reap i).calls = b.calls := by
  unfold reap; split <;> simp

@[simp] theorem calls_foldl_reap (l : List SubscriptionId) :
    (l.foldl reap b).calls = b.calls := by
  induction l generalizing b with
  | nil => rfl
  | cons j l ih => rw [List.foldl_cons, ih, calls_reap]

@[simp] theorem calls_fireNotice (sub : SubscriptionInner τ) :
    (b.fireNotice i sub).calls = b.calls := by
  unfold fireNotice; split <;> rfl

@[simp] theorem calls_commitDelivered (env : EventEnvelope δ) :
    (b.commitDelivered i env).calls = b.calls := by
  unfold commitDelivered
  split
  · rfl
  · dsimp only
    split
    · rw [calls_remove]; rfl
    · rfl

@[simp] theorem calls_refundClaim : (b.refundClaim i).calls = b.calls := by
  unfold refundClaim; split <;> rfl

@[simp] theorem calls_commitDisconnect : (b.commitDisconnect i).calls = b.calls := by
  unfold commitDisconnect; split <;> simp

end Calls

/-! ### Removing entries -/

theorem removed_remove {i : SubscriptionId} {b : Bus δ τ} {sub : SubscriptionInner τ}
    (h : b.subs i = some sub) : Removed i b (b.remove i) := by
  unfold remove
  simp only [h]
  exact ⟨⟨sub, h⟩, by simp, by simp, rfl, rfl⟩

theorem remove_of_none {i : SubscriptionId} {b : Bus δ τ} (h : b.subs i = none) :
    b.remove i = b := by
  simp [remove, h]

theorem removed_reap {i : SubscriptionId} {b : Bus δ τ} {sub : SubscriptionInner τ}
    (h : b.subs i = some sub) : Removed i b (b.reap i) := by
  obtain ⟨he, hs, hn, hh, hq⟩ := removed_remove h
  unfold reap
  split
  · exact ⟨he, hs, hn, hh, hq⟩
  · exact ⟨he, hs, hn, hh, hq⟩

/-- A subscription is left alone by a reap, or its entry goes. -/
theorem reap_cases (i j : SubscriptionId) (b : Bus δ τ) :
    Frame i b (b.reap j) ∨ Removed i b (b.reap j) := by
  by_cases hij : i = j
  · subst hij
    cases h : b.subs i with
    | none =>
      left
      simp only [reap, h, remove_of_none h]
      exact Frame.refl i b
    | some sub => exact .inr (removed_reap h)
  · exact .inl (b.frame_reap hij)

/-- Reaping a list of subscriptions leaves a given one alone or removes it. -/
theorem foldl_reap_cases (i : SubscriptionId) (l : List SubscriptionId) (b : Bus δ τ) :
    Frame i b (l.foldl reap b) ∨ Removed i b (l.foldl reap b) := by
  induction l generalizing b with
  | nil => exact .inl (Frame.refl i b)
  | cons j l ih =>
    rw [List.foldl_cons]
    rcases reap_cases i j b with hf | hr
    · rcases ih (b.reap j) with hf' | ⟨⟨sub, he⟩, hs, hn, hh, hq⟩
      · exact .inl (hf.trans hf')
      · refine .inr ⟨⟨sub, hf.subs ▸ he⟩, hs, ?_, hh.trans hf.hist, hq.trans hf.enqueued⟩
        rw [hn, hf.notify]
    · -- the entry is gone after `j`, so the rest of the list leaves it alone
      rcases ih (b.reap j) with hf' | ⟨⟨sub, he⟩, -⟩
      · exact .inr ⟨hr.entry, hf'.subs.trans hr.subs, hf'.notify.trans hr.notify,
          hf'.hist.trans hr.hist, hf'.enqueued.trans hr.enqueued⟩
      · rw [hr.subs] at he
        cases he

/-! ### Sends and commits

Each operation of a call on its first match `m` either concerns another subscription, and then it
keeps the call's claims on `i`, or it is one of the effects on `i`. -/

section FirstMatch

variable {i : SubscriptionId} {b : Bus δ τ} {k : ℕ} {c : Call δ} {m : Match} {rest : List Match}
  {a : BusAction δ τ}

@[simp] theorem api_afterMatch (c : Call δ) (gs : List Match) :
    (afterMatch c gs).api = c.api := by
  cases gs <;> rfl

@[simp] theorem envelope_afterMatch (c : Call δ) (gs : List Match) :
    (afterMatch c gs).envelope = c.envelope := by
  cases gs <;> rfl

@[simp] theorem outstanding_afterMatch (c : Call δ) (gs : List Match) :
    (afterMatch c gs).outstanding i = gs.countP fun m => m.id == i := by
  cases gs <;> rfl

@[simp] theorem landed_afterMatch (c : Call δ) (gs : List Match) :
    (afterMatch c gs).landed i = 0 := by
  cases gs <;> exact Call.landed_eq_zero (by simp [afterMatch])

theorem holdsSender_afterMatch {c : Call δ} {gs : List Match}
    (h : (afterMatch c gs).holdsSender i = true) : c.holdsSender i = true := by
  cases gs with
  | nil => simp [afterMatch, Call.holdsSender] at h
  | cons m gs => exact h

theorem held_afterMatch {c : Call δ} {gs : List Match} (h : 0 < gs.countP fun m => m.id == i)
    (hc : c.holdsSender i = true) : (afterMatch c gs).holdsSender i = true := by
  cases gs with
  | nil => simp at h
  | cons m gs => exact hc

/-- Committing the match of another subscription keeps the claims on `i`. -/
theorem keeps_afterMatch {c' : Call δ} (hg : c.guards = m :: rest) (hm : i ≠ m.id)
    (hapi : c'.api = c.api) (henv : c'.envelope = c.envelope) (hmat : c'.matched = c.matched) :
    c.Keeps i (afterMatch c' rest) where
  api := by rw [api_afterMatch, hapi]
  envelope := by rw [envelope_afterMatch, henv]
  outstanding := by simp [Call.outstanding_cons hg, Ne.symm hm]
  landed := by rw [landed_afterMatch, Call.landed_cons_ne hg (Ne.symm hm)]
  holdsSender h := by
    have := holdsSender_afterMatch h
    rwa [Call.holdsSender, hmat] at this
  held h hc := by
    rw [outstanding_afterMatch] at h
    exact held_afterMatch h (by rwa [Call.holdsSender, hmat])

/-- Committing a match of `i` resolves one claim on it. -/
theorem resolves_afterMatch {c' : Call δ} (hg : c.guards = m :: rest) (hm : m.id = i)
    (hapi : c'.api = c.api) (henv : c'.envelope = c.envelope) (hmat : c'.matched = c.matched) :
    c.Resolves i (afterMatch c' rest) where
  api := by rw [api_afterMatch, hapi]
  envelope := by rw [envelope_afterMatch, henv]
  outstanding := by simp [Call.outstanding_cons hg, hm]
  landed := landed_afterMatch c' rest
  holdsSender h := by
    have := holdsSender_afterMatch h
    rwa [Call.holdsSender, hmat] at this
  held h hc := by
    rw [outstanding_afterMatch] at h
    exact held_afterMatch h (by rwa [Call.holdsSender, hmat])

theorem landed_commit_delivered (hg : c.guards = m :: rest) (hm : m.id = i)
    (hp : c.phase = .commit .delivered) : c.landed i = 1 := by
  simp [Call.landed, hg, hm, hp]

theorem callsKeep_setCall {b' : Bus δ τ} {c' : Call δ} (hk : b.calls[k]? = some c)
    (hcalls : b'.calls = b.calls) (hkeeps : c.Keeps i c') : CallsKeep i b (b'.setCall k c') :=
  .move k c c' hk (by simp [setCall, hcalls]) hkeeps

/-- An operation that leaves `i` alone and keeps the claims of the call that makes it. -/
theorem quiet_move {b' : Bus δ τ} {c' : Call δ} (hk : b.calls[k]? = some c)
    (hframe : Frame i b b') (hcalls : b'.calls = b.calls) (hkeeps : c.Keeps i c') :
    Effect i b a (b'.setCall k c') :=
  .quiet (hframe.trans (frame_setCall b' k c')) (callsKeep_setCall hk hcalls hkeeps)

/-- A call that only changes its phase, with nothing landed before or after. -/
theorem quiet_phase (hk : b.calls[k]? = some c) (h : c.phase ≠ .commit .delivered) {p : Phase}
    (h' : p ≠ .commit .delivered) : Effect i b a (b.setCall k { c with phase := p }) :=
  quiet_move hk (Frame.refl i b) rfl (Call.Keeps.phase h h')

/-- **A push onto the queue of the first match.** -/
theorem effect_push {q : Mpsc (EventEnvelope δ)} (hk : b.calls[k]? = some c)
    (hp : c.phase ≠ .commit .delivered) (hg : c.guards = m :: rest)
    (hq : q.enqueued = (b.mpsc m.id).enqueued ++ [c.envelope]) :
    Effect i b a ((b.setMpsc m.id q).setCall k { c with phase := .commit .delivered }) := by
  by_cases hm : m.id = i
  · refine .land k c _ hk rfl rfl rfl rfl ?_ rfl rfl rfl ?_ ?_ rfl
    · subst hm
      simpa [setCall, setMpsc] using hq
    · refine ⟨Call.landed_eq_zero hp, ?_⟩
      rw [Call.outstanding_cons hg]
      simp [hm]
    · exact landed_commit_delivered (c := { c with phase := _ }) hg hm rfl
  · refine quiet_move hk (b.frame_setMpsc (Ne.symm hm) q) rfl ⟨rfl, rfl, rfl, ?_, id, fun _ => id⟩
    rw [Call.landed_eq_zero hp]
    exact Call.landed_cons_ne (c := { c with phase := .commit .delivered }) hg hm

theorem effect_sendMatch (hk : b.calls[k]? = some c) (hp : c.phase = .send)
    (hg : c.guards = m :: rest) : Effect i b a (b.sendMatch k c m) := by
  have hne : c.phase ≠ .commit .delivered := by simp [hp]
  unfold sendMatch
  split
  · rename_i q hq
    refine effect_push hk hne hg ?_
    rw [Mpsc.trySend_ok hq, Mpsc.enqueued_push]
  · exact quiet_phase hk hne (by simp)
  · split <;> exact quiet_phase hk hne (by simp)

/-- A permit takes a slot of the queue and enqueues nothing. -/
theorem effect_permit {q : Mpsc (EventEnvelope δ)} (hk : b.calls[k]? = some c)
    (hp : c.phase = .await) (hq : (b.mpsc m.id).reserve = some q) :
    Effect i b a ((b.setMpsc m.id q).setCall k { c with phase := .granted }) := by
  have hframe : Frame i b (b.setMpsc m.id q) :=
    b.frame_setMpsc_of_enqueued (Mpsc.enqueued_reserve hq)
  exact quiet_move hk hframe rfl (Call.Keeps.phase (by simp [hp]) (by simp))

/-- **The `Delivered` commit.** -/
theorem effect_commitDelivered {c' : Call δ} (hk : b.calls[k]? = some c)
    (hp : c.phase = .commit .delivered) (hg : c.guards = m :: rest)
    (hapi : c'.api = c.api) (henv : c'.envelope = c.envelope) (hmat : c'.matched = c.matched) :
    Effect i b a (((b.commitDelivered m.id c.envelope).recordCommit m.id).setCall k
      (afterMatch c' rest)) := by
  by_cases hm : m.id = i
  · subst hm
    have hcalls : (((b.commitDelivered m.id c.envelope).recordCommit m.id).setCall k
        (afterMatch c' rest)).calls = b.calls.set k (afterMatch c' rest) := by
      simp [setCall, recordCommit]
    refine .delivered k c _ hk hcalls (landed_commit_delivered hg rfl hp)
      (resolves_afterMatch hg rfl hapi henv hmat) ?_ ?_ ?_ ?_
    -- the entry may be gone, and if it is there the commit may exhaust it
    all_goals
      simp only [setCall, recordCommit, commitDelivered, remove, setSub]
      cases hsub : b.subs m.id with
      | none => simp [hsub]
      | some sub =>
        by_cases hex : (sub.deliver c.envelope.position).exhausted <;> simp [hex]
  · have hframe := (b.frame_commitDelivered (Ne.symm hm) c.envelope).trans
      (frame_recordCommit _ (Ne.symm hm))
    exact quiet_move hk hframe (by simp [recordCommit])
      (keeps_afterMatch hg (Ne.symm hm) hapi henv hmat)

/-- A claim is given back: by the `Dropped` commit, by a guard's drop, and by a commit that finds no
entry. -/
theorem effect_refundClaim {c' : Call δ} (hk : b.calls[k]? = some c)
    (hp : c.phase ≠ .commit .delivered) (hi : m.id = i → c.Resolves i c')
    (hcause : m.id = i → c.phase = .unwind ∨
      c.phase = .commit .dropped ∧ c.guards.head?.map (·.id) = some i ∨ b.subs i = none)
    (hne : i ≠ m.id → c.Keeps i c') : Effect i b a ((b.refundClaim m.id).setCall k c') := by
  have hcalls : ((b.refundClaim m.id).setCall k c').calls = b.calls.set k c' := by simp [setCall]
  by_cases hm : m.id = i
  · have hres := hi hm
    have hwhy := hcause hm
    subst hm
    refine .refund k c _ hk hcalls (Call.landed_eq_zero hp) hres hwhy ?_ ?_ ?_ ?_
    all_goals
      simp only [setCall, refundClaim, setSub]
      cases hsub : b.subs m.id <;> simp [hsub]
  · exact quiet_move hk (b.frame_refundClaim (Ne.symm hm)) (by simp) (hne (Ne.symm hm))

/-- A commit that finds no entry leaves the bus as a refund does. -/
theorem refundClaim_of_none {j : SubscriptionId} (h : b.subs j = none) : b.refundClaim j = b := by
  simp [refundClaim, h]

/-- **The `DisconnectSlowConsumer` commit.** -/
theorem effect_commitDisconnect {c' : Call δ} (hk : b.calls[k]? = some c)
    (hp : c.phase = .commit .disconnectSlowConsumer) (hg : c.guards = m :: rest)
    (hapi : c'.api = c.api) (henv : c'.envelope = c.envelope) (hmat : c'.matched = c.matched) :
    Effect i b (.advance k) ((b.commitDisconnect m.id).setCall k (afterMatch c' rest)) := by
  have hne : c.phase ≠ .commit .delivered := by simp [hp]
  have hcalls : ((b.commitDisconnect m.id).setCall k (afterMatch c' rest)).calls =
      b.calls.set k (afterMatch c' rest) := by
    simp [setCall]
  cases hsub : b.subs m.id with
  | none =>
    -- without an entry no notice is fired and there is nothing to remove
    have hsame : b.commitDisconnect m.id = b.refundClaim m.id := by
      simp [commitDisconnect, refundClaim, hsub]
    rw [hsame]
    exact effect_refundClaim hk hne (fun hm => resolves_afterMatch hg hm hapi henv hmat)
      (fun hm => .inr (.inr (hm ▸ hsub))) (fun hm => keeps_afterMatch hg hm hapi henv hmat)
  | some sub =>
    by_cases hm : m.id = i
    · subst hm
      refine .disconnect k c _ sub rfl hk hcalls hp (by simp [hg]) (Call.landed_eq_zero hne)
        (resolves_afterMatch hg rfl hapi henv hmat) hsub ?_ ?_ ?_ ?_
      all_goals
        simp only [setCall, commitDisconnect, hsub, fireNotice, setSub, remove]
        by_cases hno : sub.slowConsumerNotify <;> simp [hno, hsub]
    · exact quiet_move hk (b.frame_commitDisconnect (Ne.symm hm)) (by simp)
        (keeps_afterMatch hg (Ne.symm hm) hapi henv hmat)

/-- **The `Closed` commit.** -/
theorem effect_commitClosed (hk : b.calls[k]? = some c)
    (hp : c.phase = .commit .closed) (hg : c.guards = m :: rest) :
    Effect i b a ((b.remove m.id).setCall k (afterMatch c rest)) := by
  have hne : c.phase ≠ .commit .delivered := by simp [hp]
  have hcalls : ((b.remove m.id).setCall k (afterMatch c rest)).calls =
      b.calls.set k (afterMatch c rest) := by
    simp [setCall]
  -- an entry that is gone already cannot be closed
  cases hsub : b.subs m.id with
  | none =>
    have hsame : b.remove m.id = b.refundClaim m.id := by
      rw [remove_of_none hsub, refundClaim_of_none hsub]
    rw [hsame]
    exact effect_refundClaim hk hne (fun hm => resolves_afterMatch hg hm rfl rfl rfl)
      (fun hm => .inr (.inr (hm ▸ hsub))) (fun hm => keeps_afterMatch hg hm rfl rfl rfl)
  | some sub =>
    by_cases hm : m.id = i
    · subst hm
      obtain ⟨he, hs, hn, hh, hq⟩ := removed_remove hsub
      exact .closed k c _ hk hcalls (Call.landed_eq_zero hne)
        (resolves_afterMatch hg rfl rfl rfl rfl) ⟨he, hs, hn, hh, hq⟩
    · -- another entry sees a call that dropped a guard for somebody else
      exact quiet_move hk (b.frame_remove (Ne.symm hm)) (by simp)
        (keeps_afterMatch hg (Ne.symm hm) rfl rfl rfl)

theorem effect_commitMatch {outcome : SendResult} (hk : b.calls[k]? = some c)
    (hp : c.phase = .commit outcome) (hg : c.guards = m :: rest) :
    Effect i b (.advance k) (b.commitMatch k c m rest outcome) := by
  cases outcome with
  | delivered => exact effect_commitDelivered hk hp hg rfl rfl rfl
  | dropped =>
    exact effect_refundClaim hk (by simp [hp]) (fun hm => resolves_afterMatch hg hm rfl rfl rfl)
      (fun hm => .inr (.inl ⟨hp, by simp [hg, hm]⟩)) (fun hm => keeps_afterMatch hg hm rfl rfl rfl)
  | disconnectSlowConsumer => exact effect_commitDisconnect hk hp hg rfl rfl rfl
  | closed => exact effect_commitClosed hk hp hg

/-- The drop of the first active guard of a cancelled call. -/
theorem effect_dropGuard (hk : b.calls[k]? = some c) (hp : c.phase = .unwind)
    (hg : c.guards = m :: rest) :
    Effect i b a ((b.refundClaim m.id).setCall k { c with guards := rest }) := by
  have hne : c.phase ≠ .commit .delivered := by simp [hp]
  have hcount := Call.outstanding_cons (i := i) hg
  refine effect_refundClaim hk hne
    (fun hm => ⟨rfl, rfl, ?_, Call.landed_eq_zero hne, id, fun _ => id⟩) (fun _ => .inl hp)
    (fun hm => ⟨rfl, rfl, ?_, ?_, id, fun _ => id⟩)
  · rw [hcount, if_pos hm]; rfl
  · rw [hcount, if_neg (Ne.symm hm)]; rfl
  · rw [Call.landed_eq_zero hne]; exact Call.landed_eq_zero (c := { c with guards := rest }) hne

end FirstMatch

/-! ### The loops -/

section Loops

variable {i j : SubscriptionId} {b : Bus δ τ} {k : ℕ} {c : Call δ} {a : BusAction δ τ}

/-- **The end of a loop.** -/
theorem effect_finishLoop (hk : b.calls[k]? = some c) (hp : c.phase = .fanout) :
    Effect i b a (b.finishLoop k c) := by
  have hkeeps : CallsKeep i b (b.finishLoop k c) := by
    refine .move k c (afterMatch { c with toRemove := [] } c.guards) hk ?_
      ⟨?_, ?_, ?_, ?_, ?_, ?_⟩
    · simp [finishLoop, setCall]
    · simp
    · simp
    · rw [outstanding_afterMatch]; rfl
    · rw [landed_afterMatch, Call.landed_eq_zero (by simp [hp])]
    · intro h; exact holdsSender_afterMatch (c := { c with toRemove := [] }) h
    · intro h hc
      rw [outstanding_afterMatch] at h
      exact held_afterMatch (c := { c with toRemove := [] }) h hc
  rcases foldl_reap_cases i c.toRemove b with ⟨hs, hn, hh, hq⟩ | ⟨he, hs, hn, hh, hq⟩
  · exact .quiet ⟨hs, hn, hh, hq⟩ hkeeps
  · exact .removed ⟨he, hs, hn, hh, hq⟩ hkeeps

/-- A call in its loop keeps its claims when only its result, its lists of entries or a failed
assertion change. -/
theorem keeps_of_fanout {c' : Call δ} (hp : c.phase = .fanout) (hp' : c'.phase ≠ .commit .delivered)
    (hapi : c'.api = c.api) (henv : c'.envelope = c.envelope) (hg : c'.guards = c.guards)
    (hmat : c'.matched = c.matched) : c.Keeps i c' where
  api := hapi
  envelope := henv
  outstanding := by rw [Call.outstanding, Call.outstanding, hg]
  landed := by rw [Call.landed_eq_zero hp', Call.landed_eq_zero (by simp [hp])]
  holdsSender h := by rwa [Call.holdsSender, hmat] at h
  held _ h := by rwa [Call.holdsSender, hmat]

/-- **One iteration of the claim loop of `publish`.** -/
theorem effect_publishEntry {sub : SubscriptionInner τ} (hk : b.calls[k]? = some c)
    (hp : c.phase = .fanout) (hsub : b.subs j = some sub) {c₁ : Call δ}
    (hc₁ : c₁ = { c with todo := c.todo.erase j }) :
    Effect i b a ((b.publishEntry c₁ j sub).1.setCall k (b.publishEntry c₁ j sub).2) := by
  have hne : c.phase ≠ .commit .delivered := by simp [hp]
  subst hc₁
  unfold publishEntry
  split
  · exact quiet_move hk (Frame.refl i b) rfl (keeps_of_fanout hp hne rfl rfl rfl rfl)
  · rename_i sub' hclaim
    -- the claim is made at the entry that is visited
    by_cases hij : i = j
    · subst hij
      refine .claim k c _ sub sub' hk rfl hsub hclaim ?_ rfl ?_ rfl rfl rfl ?_ ?_ ?_
      · simp [setCall, recordClaim, setSub]
      · simp [setCall, recordClaim, setSub]
      · simp [Call.outstanding]
      · rw [Call.landed_eq_zero hne]
        exact Call.landed_eq_zero (by simp [hp])
      · simp [Call.holdsSender]
    · refine quiet_move hk ((b.frame_setSub hij sub').trans (frame_recordClaim _ hij _)) rfl
        ⟨rfl, rfl, ?_, ?_, ?_, ?_⟩
      · simp [Call.outstanding, Ne.symm hij]
      · rw [Call.landed_eq_zero hne]
        exact Call.landed_eq_zero (by simp [hp])
      · simp [Call.holdsSender, Ne.symm hij]
      · intro _ h
        simp only [Call.holdsSender, List.any_append, Bool.or_eq_true] at h ⊢
        exact .inl h

/-- **One iteration of the loop of `try_publish`** that does not enqueue to `i`. -/
theorem effect_tryPublishEntry {sub : SubscriptionInner τ} (hk : b.calls[k]? = some c)
    (hp : c.phase = .fanout) (hapi : c.api = .tryPublish) (hsub : b.subs j = some sub)
    {c₁ : Call δ} (hc₁ : c₁ = { c with todo := c.todo.erase j })
    (hno : ∀ q, (b.mpsc j).trySend c.envelope = .ok q → i ≠ j) :
    Effect i b a ((b.tryPublishEntry c₁ j sub).1.setCall k (b.tryPublishEntry c₁ j sub).2) := by
  have hne : c.phase ≠ .commit .delivered := by simp [hp]
  subst hc₁
  unfold tryPublishEntry
  split
  · rename_i q hq
    have hij := hno q hq
    exact quiet_move hk (((b.frame_setMpsc hij q).trans (frame_setSub _ hij _)).trans
      (frame_recordCommit _ hij)) rfl (keeps_of_fanout hp hne rfl rfl rfl rfl)
  · split
    · by_cases hij : i = j
      · subst hij
        -- the entry stays in the map until the end of the loop; only its one-shot is used up
        by_cases hno : sub.slowConsumerNotify
        · refine .fired k c sub hk hapi hsub hno ?_ ?_ ?_ ?_
            (callsKeep_setCall hk (by simp) (keeps_of_fanout hp hne rfl rfl rfl rfl))
          all_goals simp [setCall, fireNotice, hno, setSub]
        · simp only [fireNotice, hno, Bool.false_eq_true, if_false]
          exact quiet_move hk (Frame.refl i b) rfl (keeps_of_fanout hp hne rfl rfl rfl rfl)
      · exact quiet_move hk (b.frame_fireNotice hij sub) (by simp)
          (keeps_of_fanout hp hne rfl rfl rfl rfl)
    · exact quiet_move hk (Frame.refl i b) rfl (keeps_of_fanout hp hne rfl rfl rfl rfl)
    · exact quiet_move hk (Frame.refl i b) rfl (keeps_of_fanout hp hne rfl rfl rfl rfl)
    · exact quiet_move hk (Frame.refl i b) rfl (keeps_of_fanout hp (by simp) rfl rfl rfl rfl)
  · exact quiet_move hk (Frame.refl i b) rfl (keeps_of_fanout hp hne rfl rfl rfl rfl)

omit [DecidableEq κ] in
/-- **One iteration of the loop of `try_publish`** that enqueues to `i`. -/
theorem direct_tryPublishEntry {ops : BusOps δ τ κ} {sub : SubscriptionInner τ}
    {q : Mpsc (EventEnvelope δ)} (hk : b.calls[k]? = some c) (hp : c.phase = .fanout)
    (hapi : c.api = .tryPublish) (hsub : b.subs i = some sub) (hout : sub.outbound = .mpsc)
    (hmatch : ops.matchesEvent sub.topic c.envelope.topic c.envelope.data = true) {c₁ : Call δ}
    (hc₁ : c₁ = { c with todo := c.todo.erase i })
    (hq : (b.mpsc i).trySend c.envelope = .ok q) :
    Direct ops i b (.visit k i)
      ((b.tryPublishEntry c₁ i sub).1.setCall k (b.tryPublishEntry c₁ i sub).2) := by
  subst hc₁
  simp only [tryPublishEntry, hq]
  refine .mk k c sub rfl hk hp hapi hsub hmatch (Mpsc.room_of_trySend_ok hq) hout ?_ rfl ?_ ?_
    (callsKeep_setCall hk rfl (keeps_of_fanout hp (by simp [hp]) rfl rfl rfl rfl))
  · simp [setCall, recordCommit, setSub]
  · simp [setCall, recordCommit, setSub, setMpsc]
  · simp [setCall, recordCommit, setSub, setMpsc, Mpsc.trySend_ok hq]

/-- The `Coalesce` arm. -/
theorem effect_coalesceEntry {ops : BusOps δ τ κ} {sub : SubscriptionInner τ}
    (hk : b.calls[k]? = some c) (hp : c.phase = .fanout) (hsub : b.subs j = some sub)
    (hout : sub.outbound = .coalesce) {c₁ : Call δ}
    (hc₁ : c₁ = { c with todo := c.todo.erase j }) :
    Effect i b a ((b.coalesceEntry ops c₁ j sub).1.setCall k (b.coalesceEntry ops c₁ j sub).2) := by
  have hne : c.phase ≠ .commit .delivered := by simp [hp]
  subst hc₁
  unfold coalesceEntry
  dsimp only
  split
  · by_cases hij : i = j
    · subst hij
      refine .coalesced c.envelope sub hsub hout ?_ rfl rfl rfl
        (callsKeep_setCall hk rfl (keeps_of_fanout hp hne rfl rfl rfl rfl))
      simp [setCall, setSub]
    · exact quiet_move hk ⟨by simp [setSub, hij], rfl, rfl, rfl⟩ rfl
        (keeps_of_fanout hp hne rfl rfl rfl rfl)
  all_goals exact quiet_move hk ⟨rfl, rfl, rfl, rfl⟩ rfl (keeps_of_fanout hp hne rfl rfl rfl rfl)

theorem effect_visitEntry {ops : BusOps δ τ κ} (hk : b.calls[k]? = some c) (hp : c.phase = .fanout)
    {c₁ : Call δ} (hc₁ : c₁ = { c with todo := c.todo.erase j }) {b' : Bus δ τ}
    (hb' : b' = (b.visitEntry ops c₁ j).1.setCall k (b.visitEntry ops c₁ j).2) :
    Effect i b (.visit k j) b' ∨ Direct ops i b (.visit k j) b' := by
  have hskip : Effect i b (.visit k j) (b.setCall k c₁) := by
    subst hc₁
    exact quiet_move hk (Frame.refl i b) rfl (keeps_of_fanout hp (by simp [hp]) rfl rfl rfl rfl)
  unfold visitEntry at hb'
  cases hsub : b.subs j with
  | none =>
    simp only [hsub] at hb'
    exact .inl (hb' ▸ hskip)
  | some sub =>
    by_cases hmatch : ops.matchesEvent sub.topic c₁.envelope.topic c₁.envelope.data
    · simp only [hsub, hmatch, if_true] at hb'
      cases hout : sub.outbound with
      | coalesce =>
        simp only [hout] at hb'
        exact .inl (hb' ▸ effect_coalesceEntry hk hp hsub hout hc₁)
      | mpsc =>
        cases hapi : c₁.api with
        | publish =>
          simp only [hout, hapi] at hb'
          exact .inl (hb' ▸ effect_publishEntry hk hp hsub hc₁)
        | tryPublish =>
          have hapi' : c.api = .tryPublish := by rw [← hapi, hc₁]
          have hmatch' : ops.matchesEvent sub.topic c.envelope.topic c.envelope.data = true := by
            rw [← hmatch, hc₁]
          simp only [hout, hapi] at hb'
          -- only a push onto the queue of `i` itself is a direct delivery to it
          by_cases hdir : i = j ∧ ∃ q, (b.mpsc j).trySend c.envelope = .ok q
          · obtain ⟨rfl, q, hq⟩ := hdir
            exact .inr (hb' ▸ direct_tryPublishEntry hk hp hapi' hsub hout hmatch' hc₁ hq)
          · exact .inl (hb' ▸ effect_tryPublishEntry hk hp hapi' hsub hc₁
              fun q hq hij => hdir ⟨hij, q, hq⟩)
    · simp only [hsub, hmatch] at hb'
      exact .inl (hb' ▸ hskip)

theorem effect_visit {ops : BusOps δ τ κ} {b' : Bus δ τ} (hs : b.visit ops k j = some b') :
    Effect i b (.visit k j) b' ∨ Direct ops i b (.visit k j) b' := by
  obtain ⟨c, hk, hp, -, b₂, c₂, hentry, rfl⟩ := visit_cases hs
  exact effect_visitEntry hk hp rfl (by rw [hentry])

end Loops

/-! ### Steps -/

section Steps

variable {i : SubscriptionId} {b b' : Bus δ τ} {k : ℕ}

omit [DecidableEq κ] in
/-- **The operations of a call.**  Only the send, the push on a permit and the commits reach beyond
the call itself. -/
theorem effect_advance {ops : BusOps δ τ κ} (hs : b.advance ops k = some b') :
    Effect i b (.advance k) b' := by
  obtain ⟨c, hk, hadv⟩ := advance_cases hs
  cases hadv with
  | tooLarge hp => exact quiet_phase hk (by simp [hp]) (by simp)
  | fits hp => exact quiet_phase hk (by simp [hp]) (by simp)
  | reject limit hp =>
    exact quiet_move hk ⟨rfl, rfl, rfl, rfl⟩ rfl (Call.Keeps.phase (by simp [hp]) (by simp))
  | record p hp hnext =>
    refine quiet_move hk ⟨rfl, rfl, rfl, rfl⟩ rfl (Call.Keeps.phase (by simp [hp]) ?_)
    rw [hnext]
    split <;> simp
  | evict id hp =>
    exact quiet_move hk ⟨rfl, rfl, rfl, rfl⟩ rfl (Call.Keeps.phase (by simp [hp]) (by simp))
  | acquire hp =>
    refine quiet_move hk ⟨rfl, rfl, rfl, rfl⟩ rfl ⟨rfl, rfl, rfl, ?_, id, fun _ => id⟩
    rw [Call.landed_eq_zero (c := c) (by simp [hp]), Call.landed_eq_zero (by simp)]
  | finish hp => exact effect_finishLoop hk hp
  | send m rest hp hg => exact effect_sendMatch hk hp hg
  | permit m rest q hp hg halive hq => exact effect_permit hk hp hq
  | awaitClosed m rest hp => exact quiet_phase hk (by simp [hp]) (by simp)
  | push m rest hp hg =>
    exact effect_push hk (by simp [hp]) hg (Mpsc.enqueued_pushReserved _ _)
  | commit m rest outcome hp hg => exact effect_commitMatch hk hp hg
  | dropGuard m rest hp hg => exact effect_dropGuard hk hp hg
  | unwound hp hg =>
    -- the call gives up its sender clones; it has no claim left
    refine quiet_move hk (Frame.refl i b) rfl ⟨rfl, rfl, rfl, ?_, by simp [Call.holdsSender],
      by simp [Call.outstanding, hg]⟩
    rw [Call.landed_eq_zero (c := c) (by simp [hp]), Call.landed_eq_zero (by simp)]

/-- Dropping the future of a call touches no entry and enqueues nothing. -/
theorem keeps_cancel (hs : b.cancel k = some b') : Frame i b b' ∧ CallsKeep i b b' := by
  obtain ⟨c, hk, ⟨hp, rfl⟩ | ⟨m, rest, hp, -, rfl⟩⟩ := cancel_cases hs
  · exact ⟨frame_setCall b k _,
      callsKeep_setCall hk rfl (Call.Keeps.phase (by simp [hp]) (by simp))⟩
  · have hframe : Frame i b (b.setMpsc m.id (b.mpsc m.id).release) :=
      b.frame_setMpsc_of_enqueued (Mpsc.enqueued_release _)
    exact ⟨hframe.trans (frame_setCall _ k _),
      callsKeep_setCall hk rfl (Call.Keeps.phase (by simp [hp]) (by simp))⟩

theorem frame_recv {j : SubscriptionId} {env : EventEnvelope δ}
    (hs : b.recv j = some (env, b')) : Frame i b b' ∧ b'.calls = b.calls := by
  rcases recv_cases hs with ⟨q, hq, rfl⟩ | ⟨state, rfl⟩
  · exact ⟨b.frame_setMpsc_of_enqueued (Mpsc.enqueued_recv hq), rfl⟩
  · exact ⟨⟨rfl, rfl, rfl, rfl⟩, rfl⟩

theorem frame_dropRx (j : SubscriptionId) : Frame i b (b.dropRx j) := by
  have hframe : Frame i b (b.setMpsc j (b.mpsc j).dropRx) :=
    b.frame_setMpsc_of_enqueued (Mpsc.enqueued_dropRx _)
  exact ⟨hframe.subs, hframe.notify, hframe.hist, hframe.enqueued⟩

theorem frame_subscribe (hi : i ≠ b.nextId) (topic : τ) (opts : SubscribeOpts) :
    Frame i b (b.subscribe topic opts) ∧ (b.subscribe topic opts).calls = b.calls := by
  unfold subscribe
  dsimp only
  split
  · exact ⟨⟨by simp [setSub, hi], by simp [hi], by simp [hi], rfl⟩, rfl⟩
  · split
    · exact ⟨⟨by simp [setSub, setMpsc, hi], by simp [setMpsc, hi], by simp [setMpsc, hi],
        by simp [setMpsc, setSub, hi]⟩, rfl⟩
    · exact ⟨⟨rfl, rfl, rfl, rfl⟩, rfl⟩

/-- **The list of effects is complete**: except for a direct delivery, every step of the bus that
does not create the subscription is one of them. -/
theorem effect_of_step {ops : BusOps δ τ κ} {a : BusAction δ τ}
    (hi : ∀ topic opts, a = .subscribe topic opts → i ≠ b.nextId)
    (hs : step ops b a = some b') : Effect i b a b' ∨ Direct ops i b a b' := by
  -- one case for each action; only a visit may hand over at once
  cases a with
  | subscribe topic opts =>
    obtain rfl := step_subscribe hs
    obtain ⟨hframe, hcalls⟩ := frame_subscribe (hi topic opts rfl) topic opts
    exact .inl (.quiet hframe (.same hcalls))
  | unsubscribe j =>
    obtain rfl := step_unsubscribe hs
    rcases reap_cases i j b with hf | hr
    · exact .inl (.quiet hf (.same (b.calls_reap j)))
    · exact .inl (.removed hr (.same (b.calls_reap j)))
  | publish env =>
    obtain rfl := Option.some.inj hs
    exact .inl (.quiet ⟨rfl, rfl, rfl, rfl⟩ (.start .publish env rfl))
  | tryPublish env =>
    obtain rfl := Option.some.inj hs
    exact .inl (.quiet ⟨rfl, rfl, rfl, rfl⟩ (.start .tryPublish env rfl))
  | advance k => exact .inl (effect_advance hs)
  | visit k j => exact effect_visit hs
  | cancel k =>
    obtain ⟨hframe, hcalls⟩ := keeps_cancel (i := i) hs
    exact .inl (.quiet hframe hcalls)
  | recv j =>
    obtain ⟨env, hr⟩ := step_recv hs
    obtain ⟨hframe, hcalls⟩ := frame_recv hr
    exact .inl (.quiet hframe (.same hcalls))
  | dropRx j =>
    obtain rfl := Option.some.inj hs
    exact .inl (.quiet (frame_dropRx j) (.same rfl))
  | withMaxEventSize limit =>
    obtain rfl := Option.some.inj hs
    exact .inl (.quiet ⟨rfl, rfl, rfl, rfl⟩ (.same rfl))

end Steps

end Bus

end Boardwalk
