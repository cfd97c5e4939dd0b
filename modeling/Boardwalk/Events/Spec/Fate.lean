import Boardwalk.Events.Spec.Armed
import Boardwalk.Events.Spec.Coalesce
import Boardwalk.Events.Spec.Offered
import Mathlib.Algebra.BigOperators.Group.Finset.Basic
import Mathlib.Data.Set.Card

/-!
# What a `try_publish` does to each subscription

A matching subscription has one of five fates: it gets the envelope, or the envelope is dropped, or
it overwrites one of its key, or the subscription is disconnected, or its receiver is gone and it is
reaped.  The result of the call counts the first four (`tryPublish_accounts`), and a subscription
that does not match stays as it is.
-/

namespace Boardwalk

/-- What a publish comes to for a subscription that it matches. -/
inductive Fate where
  | enqueued
  | dropped
  | coalesced
  | disconnected
  /-- The receiver is gone. -/
  | reaped
  deriving Repr, DecidableEq

namespace Bus

variable {δ τ κ : Type} [DecidableEq κ]

/-! ### The five fates -/

namespace Local

section Parts

variable (l : Local δ τ)

/-- The consumer has not dropped its end. -/
def receiverAlive : Outbound → Bool
  | .mpsc => l.mpsc.rxAlive
  | .coalesce => !l.coalesce.receiverDropped

def hasRoom : Outbound → Bool
  | .mpsc => l.mpsc.hasRoom
  | .coalesce => decide (l.coalesce.queue.length < l.coalesce.capacity)

/-- The envelopes that wait for the consumer. -/
def queued : Outbound → List (EventEnvelope δ)
  | .mpsc => l.mpsc.buf
  | .coalesce => l.coalesce.queue

def setQueued (queue : List (EventEnvelope δ)) : Outbound → Local δ τ
  | .mpsc => { l with mpsc := { l.mpsc with buf := queue } }
  | .coalesce => { l with coalesce := { l.coalesce with queue } }

/-- The subscription is removed; a coalesce queue is closed. -/
def gone (notify : Oneshot SlowConsumerNotice) : Outbound → Local δ τ
  | .mpsc => { l with entry := none, notify }
  | .coalesce => { l with entry := none, notify, coalesce := l.coalesce.close }

/-- An envelope with the key of `env` waits in the coalesce queue. -/
def KeyQueued (ops : BusOps δ τ κ) (env : EventEnvelope δ) : Outbound → Prop
  | .mpsc => False
  | .coalesce => l.coalesce.Queued ops.extractKey env

/-- The envelope comes last in the queue and a unit of the quota is used; with the last unit the
subscription is removed. -/
def enqueue (env : EventEnvelope δ) (sub : SubscriptionInner τ) : Local δ τ :=
  let l := l.setQueued (l.queued sub.outbound ++ [env]) sub.outbound
  if sub.remaining = some 1 then l.gone .dropped sub.outbound
  else
    { l with
      entry := some { sub with
        lastDelivered := some env.position
        remaining := sub.remaining.map (· - 1) } }

end Parts

/-- The fates of a subscription with the entry `sub`: when each of them comes, and what becomes of
`l`, the part of the subscription. -/
inductive Falls (ops : BusOps δ τ κ) (env : EventEnvelope δ) (sub : SubscriptionInner τ)
    (l l' : Local δ τ) : Fate → Prop where
  | enqueued (alive : l.receiverAlive sub.outbound = true)
      (fresh : ¬ l.KeyQueued ops env sub.outbound) (room : l.hasRoom sub.outbound = true)
      (after : l' = l.enqueue env sub) : Falls ops env sub l l' .enqueued
  | dropped (alive : l.receiverAlive sub.outbound = true)
      (fresh : ¬ l.KeyQueued ops env sub.outbound) (full : l.hasRoom sub.outbound = false)
      (policy : sub.slowConsumerPolicy ≠ .disconnect) (after : l' = l) :
      Falls ops env sub l l' .dropped
  /-- The first envelope of the key is overwritten. -/
  | coalesced (k : κ) (older newer : List (EventEnvelope δ)) (slot : EventEnvelope δ)
      (outbound : sub.outbound = .coalesce) (alive : l.receiverAlive sub.outbound = true)
      (key : ops.extractKey env l.coalesce.keyPath = some k)
      (queue : l.coalesce.queue = older ++ slot :: newer)
      (same : ops.extractKey slot l.coalesce.keyPath = some k)
      (first : ∀ e ∈ older, ops.extractKey e l.coalesce.keyPath ≠ some k)
      (after : l' = l.setQueued (older ++ env :: newer) .coalesce) :
      Falls ops env sub l l' .coalesced
  /-- The notice is fired, for the first time. -/
  | disconnected (outbound : sub.outbound = .mpsc) (alive : l.receiverAlive sub.outbound = true)
      (full : l.hasRoom sub.outbound = false) (policy : sub.slowConsumerPolicy = .disconnect)
      (unfired : l.notify = .pending) (after : l' = l.gone (.sent sub.notice) sub.outbound) :
      Falls ops env sub l l' .disconnected
  | reaped (dead : l.receiverAlive sub.outbound = false)
      (after : l' = l.gone .dropped sub.outbound) : Falls ops env sub l l' .reaped

section Falls

variable {ops : BusOps δ τ κ} {env : EventEnvelope δ} {sub : SubscriptionInner τ}
  {l l' : Local δ τ} {fate fate' : Fate}

omit [DecidableEq κ] in
theorem keyQueued_of_coalesced {k : κ} {older newer : List (EventEnvelope δ)}
    {slot : EventEnvelope δ} (houtbound : sub.outbound = .coalesce)
    (hkey : ops.extractKey env l.coalesce.keyPath = some k)
    (hqueue : l.coalesce.queue = older ++ slot :: newer)
    (hsame : ops.extractKey slot l.coalesce.keyPath = some k) :
    l.KeyQueued ops env sub.outbound := by
  rw [houtbound]
  exact ⟨k, hkey, slot, by simp [hqueue], hsame⟩

omit [DecidableEq κ] in
/-- No two fates come together. -/
theorem Falls.unique (h : Falls ops env sub l l' fate) (h' : Falls ops env sub l l' fate') :
    fate = fate' := by
  -- each fate excludes the others by what it asks of the queue, the key and the policy
  cases h with
  | enqueued alive fresh room =>
    cases h' with
    | enqueued => rfl
    | dropped _ _ full => simp [room] at full
    | coalesced k older newer slot outbound _ key queue same =>
      exact absurd (keyQueued_of_coalesced outbound key queue same) fresh
    | disconnected _ _ full => simp [room] at full
    | reaped dead => simp [alive] at dead
  | dropped alive fresh full policy =>
    cases h' with
    | enqueued _ _ room => simp [full] at room
    | dropped => rfl
    | coalesced k older newer slot outbound _ key queue same =>
      exact absurd (keyQueued_of_coalesced outbound key queue same) fresh
    | disconnected _ _ _ policy' => exact absurd policy' policy
    | reaped dead => simp [alive] at dead
  | coalesced k older newer slot outbound alive key queue same =>
    have queued := keyQueued_of_coalesced outbound key queue same
    cases h' with
    | enqueued _ fresh => exact absurd queued fresh
    | dropped _ fresh => exact absurd queued fresh
    | coalesced => rfl
    | disconnected outbound' => simp [outbound] at outbound'
    | reaped dead => simp [alive] at dead
  | disconnected outbound alive full policy =>
    cases h' with
    | enqueued _ _ room => simp [full] at room
    | dropped _ _ _ policy' => exact absurd policy policy'
    | coalesced k older newer slot outbound' => simp [outbound] at outbound'
    | disconnected => rfl
    | reaped dead => simp [alive] at dead
  | reaped dead =>
    cases h' with
    | enqueued alive => simp [dead] at alive
    | dropped alive => simp [dead] at alive
    | coalesced k older newer slot _ alive => simp [dead] at alive
    | disconnected _ alive => simp [dead] at alive
    | reaped => rfl

/-- What a fate adds to the result. -/
structure Counts (fate : Fate) (d : Delta) : Prop where
  delivered : d.delivered = if fate = .enqueued then 1 else 0
  dropped : d.dropped = if fate = .dropped then 1 else 0
  coalesced : d.coalesced = if fate = .coalesced then 1 else 0
  disconnected : d.disconnected = decide (fate = .disconnected)

omit [DecidableEq κ] in
/-- An entry is removed with its notice unfired. -/
theorem reap_eq_gone (hsub : l.entry = some sub) :
    l.reap = l.gone l.notify.dropSender sub.outbound := by
  cases hout : sub.outbound with
  | mpsc =>
    rw [reap_mpsc hsub hout]
    simp [remove, gone, hsub]
  | coalesce =>
    obtain ⟨topic, outbound, remaining, policy, inFlight, last, notify⟩ := sub
    subst hout
    simp [reap, remove, gone, hsub]

/-- What a loop leaves of a subscription. -/
def atEnd (v : Local δ τ × Delta) : Local δ τ := if v.2.removed then v.1.reap else v.1

/-- A delivery under the mutex, once the loop is over. -/
theorem atEnd_deliverNow (env : EventEnvelope δ) (hsub : l.entry = some sub) (harmed : l.Armed)
    (hlimit : sub.remaining ≠ some 0) (queue : List (EventEnvelope δ))
    (hqueue : queue = l.queued sub.outbound ++ [env]) :
    atEnd ((l.setQueued queue sub.outbound).deliverNow sub env) = l.enqueue env sub ∧
      Counts .enqueued ((l.setQueued queue sub.outbound).deliverNow sub env).2 := by
  subst hqueue
  refine ⟨?_, rfl, rfl, rfl, rfl⟩
  unfold atEnd enqueue deliverNow
  dsimp only
  -- the last one that the limit allows takes the entry with it
  by_cases hlast : sub.remaining = some 1
  · have hremoved : (sub.deliverNow env.position).remaining = some 0 := by
      simp [SubscriptionInner.deliverNow, hlast]
    have hnotify : l.notify = .pending := (harmed sub hsub).2
    rw [if_pos (by simpa using hremoved), if_pos hlast, reap_eq_gone rfl]
    show gone _ _ sub.outbound = _
    cases sub.outbound with
    | mpsc => simp [gone, setQueued, hnotify, Oneshot.dropSender]
    | coalesce => simp [gone, setQueued, hnotify, Oneshot.dropSender]
  · -- the limit is not reached, and the entry stays
    have hkept : (sub.deliverNow env.position).remaining ≠ some 0 := by
      cases hrem : sub.remaining with
      | none => simp [SubscriptionInner.deliverNow, hrem]
      | some n =>
        have hzero : n ≠ 0 := fun h => hlimit (by rw [hrem, h])
        have hone : n ≠ 1 := fun h => hlast (by rw [hrem, h])
        have hleft : n - 1 ≠ 0 := by omega
        simpa [SubscriptionInner.deliverNow, hrem] using hleft
    rw [if_neg (by simpa using hkept), if_neg hlast]
    rfl

omit [DecidableEq κ] in
/-- **A bounded channel** in the loop of a `try_publish`. -/
theorem falls_visitTryPublish (hsub : l.entry = some sub) (harmed : l.Armed)
    (hlimit : sub.remaining ≠ some 0) (hout : sub.outbound = .mpsc) (ops : BusOps δ τ κ) :
    ∃ fate, Falls ops env sub l (atEnd (l.visitTryPublish env sub)) fate ∧
      Counts fate (l.visitTryPublish env sub).2 := by
  have hnotify : l.notify = .pending := (harmed sub hsub).2
  -- a channel has no keys, and it asks its receiver only
  have hfresh : ¬ l.KeyQueued ops env sub.outbound := by
    rw [hout]
    exact id
  have halive : l.receiverAlive sub.outbound = l.mpsc.rxAlive := by rw [hout]; rfl
  have hroom : l.hasRoom sub.outbound = l.mpsc.hasRoom := by rw [hout]; rfl
  unfold visitTryPublish Mpsc.trySend
  by_cases hrx : l.mpsc.rxAlive = true
  · simp only [hrx, Bool.not_true, Bool.false_eq_true, if_false]
    by_cases hfree : l.mpsc.hasRoom = true
    · simp only [hfree, if_true]
      have hqueue := atEnd_deliverNow env hsub harmed hlimit (l.mpsc.buf ++ [env])
        (by rw [hout]; rfl)
      have hset : l.setQueued (l.mpsc.buf ++ [env]) sub.outbound =
          { l with mpsc := l.mpsc.push env } := by rw [hout]; rfl
      rw [hset] at hqueue
      exact ⟨.enqueued, .enqueued (halive.trans hrx) hfresh (hroom.trans hfree) hqueue.1,
        hqueue.2⟩
    · have hfull : l.mpsc.hasRoom = false := by simpa using hfree
      simp only [hfull, Bool.false_eq_true, if_false]
      by_cases hpolicy : sub.slowConsumerPolicy = .disconnect
      · -- the notice is fired in the loop, and the entry goes at its end
        have hfire : l.fireNotice sub =
            { l with
              entry := some { sub with slowConsumerNotify := false }
              notify := .sent sub.notice } := by
          unfold fireNotice
          rw [if_pos (harmed sub hsub).1, hnotify]
          rfl
        have hend : (l.fireNotice sub).reap = l.gone (.sent sub.notice) sub.outbound := by
          rw [hfire, reap_eq_gone rfl, hout]
          rfl
        simp only [hpolicy]
        exact ⟨.disconnected, .disconnected hout (halive.trans hrx) (hroom.trans hfull) hpolicy
          hnotify hend, rfl, rfl, rfl, rfl⟩
      · refine ⟨.dropped, .dropped (halive.trans hrx) hfresh (hroom.trans hfull) hpolicy ?_, ?_⟩
        · split
          · rename_i hdisconnect
            exact absurd hdisconnect hpolicy
          · rfl
        · split
          · rename_i hdisconnect
            exact absurd hdisconnect hpolicy
          · exact ⟨rfl, rfl, rfl, rfl⟩
  · -- a channel without a receiver: the entry is removed, and its sender dropped
    have hdead : l.mpsc.rxAlive = false := by simpa using hrx
    simp only [hdead, Bool.not_false, if_true]
    have hend : l.reap = l.gone .dropped sub.outbound := by
      rw [reap_eq_gone hsub, hnotify]
      rfl
    exact ⟨.reaped, .reaped (halive.trans hdead) hend, rfl, rfl, rfl, rfl⟩

/-- **A coalesce queue** in the loop. -/
theorem falls_visitCoalesce (hsub : l.entry = some sub) (harmed : l.Armed)
    (hlimit : sub.remaining ≠ some 0) (hout : sub.outbound = .coalesce)
    (hpolicy : sub.slowConsumerPolicy ≠ .disconnect) :
    ∃ fate, Falls ops env sub l (atEnd (l.visitCoalesce ops env sub)) fate ∧
      Counts fate (l.visitCoalesce ops env sub).2 := by
  have hnotify : l.notify = .pending := (harmed sub hsub).2
  have halive : l.receiverAlive sub.outbound = !l.coalesce.receiverDropped := by rw [hout]; rfl
  -- a coalesce queue asks first whether there is a receiver
  unfold visitCoalesce
  by_cases hgone : l.coalesce.receiverDropped = true
  · have hpush : l.coalesce.push ops.extractKey env = (.receiverGone, l.coalesce) := if_pos hgone
    have hend : l.reap = l.gone .dropped sub.outbound := by
      rw [reap_eq_gone hsub, hnotify]
      rfl
    rw [hpush]
    exact ⟨.reaped, .reaped (by rw [halive, hgone]; rfl) hend, rfl, rfl, rfl, rfl⟩
  · have hrx : l.receiverAlive sub.outbound = true := by rw [halive]; simpa using hgone
    rw [CoalesceState.push_of_alive _ _ _ (by simpa using hgone)]
    rcases l.coalesce.offer_cases ops.extractKey env with
      ⟨k, older, slot, newer, hkey, hqueue, hsame, hfirst, hoffer⟩ | ⟨hnot, hlen, hoffer⟩ |
      ⟨hnot, hlen, hoffer⟩
    · -- its key is queued
      rw [hoffer]
      exact ⟨.coalesced, .coalesced k older newer slot hout hrx hkey hqueue hsame hfirst rfl,
        rfl, rfl, rfl, rfl⟩
    · -- there is a slot for it
      rw [hoffer]
      have hset := atEnd_deliverNow env hsub harmed hlimit (l.coalesce.queue ++ [env])
        (by rw [hout]; rfl)
      have hroom : l.hasRoom sub.outbound = true := by rw [hout]; simpa [hasRoom] using hlen
      have hfresh : ¬ l.KeyQueued ops env sub.outbound := by rw [hout]; exact hnot
      have hqueued : l.setQueued (l.coalesce.queue ++ [env]) sub.outbound =
          { l with coalesce := { l.coalesce with queue := l.coalesce.queue ++ [env] } } := by
        rw [hout]
        rfl
      rw [hqueued] at hset
      exact ⟨.enqueued, .enqueued hrx hfresh hroom hset.1, hset.2⟩
    · -- there is none
      rw [hoffer]
      have hfull : l.hasRoom sub.outbound = false := by rw [hout]; simpa [hasRoom] using hlen
      have hfresh : ¬ l.KeyQueued ops env sub.outbound := by rw [hout]; exact hnot
      exact ⟨.dropped, .dropped hrx hfresh hfull hpolicy rfl, rfl, rfl, rfl, rfl⟩

/-- The loop of a `try_publish` claims no slot. -/
theorem claimed_tryPublish (ops : BusOps δ τ κ) (env : EventEnvelope δ) (l : Local δ τ) :
    (l.visit ops .tryPublish env).2.claimed = none := by
  unfold visit
  split
  · rfl
  split
  · split
    · unfold visitCoalesce
      dsimp only
      split <;> rfl
    · unfold visitTryPublish
      split
      · rfl
      · split <;> rfl
      · rfl
    · rename_i hpublish
      cases hpublish
  · rfl

/-- **A matching subscription has a fate**, and the result counts it. -/
theorem falls_alone (hsub : l.entry = some sub) (hmatch : ops.Matches sub.topic env)
    (harmed : l.Armed) (hlimit : sub.remaining ≠ some 0) (hfits : l.Fits) :
    ∃ fate, Falls ops env sub l (l.alone ops .tryPublish env).1 fate ∧
      Counts fate (l.alone ops .tryPublish env).2.1 ∧ (l.alone ops .tryPublish env).2.2 = {} := by
  have hmatched : ops.matchesEvent sub.topic env.topic env.data = true := hmatch
  obtain ⟨v, hvisit, fate, hfalls, hcounts⟩ : ∃ v, l.visit ops .tryPublish env = v ∧
      ∃ fate, Falls ops env sub l (atEnd v) fate ∧ Counts fate v.2 := by
    refine ⟨_, rfl, ?_⟩
    -- how the entry takes its envelopes decides the visit; `disconnect` needs a channel
    cases hout : sub.outbound with
    | mpsc =>
      have hvisit : l.visit ops .tryPublish env = l.visitTryPublish env sub := by
        simp only [visit, hsub, hmatched, if_true, hout]
      rw [hvisit]
      exact falls_visitTryPublish hsub harmed hlimit hout ops
    | coalesce =>
      have hvisit : l.visit ops .tryPublish env = l.visitCoalesce ops env sub := by
        simp only [visit, hsub, hmatched, if_true, hout]
      have hpolicy : sub.slowConsumerPolicy ≠ .disconnect := by
        intro hdisconnect
        have hout' := hfits sub hsub
        rw [hout, hdisconnect] at hout'
        cases hout'
      rw [hvisit]
      exact falls_visitCoalesce hsub harmed hlimit hout hpolicy
  -- a `try_publish` claims nothing, so the visit is all
  have halone := Local.alone_of_claimed_none (claimed_tryPublish ops env l)
  rw [hvisit] at halone
  rw [halone]
  exact ⟨fate, hfalls, hcounts, rfl⟩

/-- A subscription that does not match stays as it is. -/
theorem alone_of_not_matches (hnot : ∀ sub, l.entry = some sub → ¬ ops.Matches sub.topic env) :
    l.alone ops .tryPublish env = (l, {}, {}) := by
  have hvisit : l.visit ops .tryPublish env = (l, {}) := by
    unfold visit
    cases hsub : l.entry with
    | none => rfl
    | some sub => exact if_neg (hnot sub hsub)
  simp [alone, hvisit]


end Falls

end Local

/-! ### One publish -/

section Publish

variable (ops : BusOps δ τ κ) (env : EventEnvelope δ) (b b' : Bus δ τ)

/-- The subscriptions with one of the fates. -/
def fated (fate : Fate) : Set SubscriptionId :=
  { i | ∃ sub, b.subs i = some sub ∧ ops.Matches sub.topic env ∧
    Local.Falls ops env sub (b.view i) (b'.view i) fate }

/-- A `try_publish` that leads from `b` to `b'` accounts for every subscription. -/
structure PublishAccounts : Prop where
  /-- A subscription that matches has one fate. -/
  one : ∀ i sub, b.subs i = some sub → ops.Matches sub.topic env →
    ∃! fate, Local.Falls ops env sub (b.view i) (b'.view i) fate
  /-- The result counts the fates. -/
  counts : ∃ (c : Call δ) (result : PublishResult), b'.calls = b.calls ++ [c] ∧
    c.phase = .returned result ∧
    result.delivered = (fated ops env b b' .enqueued).ncard ∧
    result.dropped = (fated ops env b b' .dropped).ncard ∧
    result.coalesced = (fated ops env b b' .coalesced).ncard ∧
    result.disconnectedSlowConsumers.Nodup ∧
    ∀ i, i ∈ result.disconnectedSlowConsumers ↔ i ∈ fated ops env b b' .disconnected
  /-- Everything else stays. -/
  others : ∀ i, (∀ sub, b.subs i = some sub → ¬ ops.Matches sub.topic env) →
    b'.view i = b.view i

/-- A count of members is the size of their set. -/
theorem sum_eq_ncard {vs : List SubscriptionId} (hnodup : vs.Nodup) {s : Set SubscriptionId}
    {f : SubscriptionId → ℕ} (hmem : ∀ i ∈ s, i ∈ vs) (hone : ∀ i ∈ s, f i = 1)
    (hzero : ∀ i, i ∉ s → f i = 0) : (vs.map f).sum = s.ncard := by
  classical
  have hset : s = ↑(vs.toFinset.filter fun i => i ∈ s) := by
    ext i
    simpa using hmem i
  have hf : ∀ i, f i = if i ∈ s then 1 else 0 := by
    intro i
    split
    · exact hone i ‹_›
    · exact hzero i ‹_›
  calc (vs.map f).sum
      = ∑ i ∈ vs.toFinset, f i := (List.sum_toFinset f hnodup).symm
    _ = ∑ i ∈ vs.toFinset, if i ∈ s then 1 else 0 := Finset.sum_congr rfl fun i _ => hf i
    _ = (vs.toFinset.filter fun i => i ∈ s).card := (Finset.card_filter _ _).symm
    _ = s.ncard := by rw [← Set.ncard_coe_finset, ← hset]

variable {ops env b b'}

theorem addTally_nothing (r : PublishResult) (vs : List SubscriptionId) :
    addTally r (fun _ => {}) vs = r := by
  simp [addTally]

omit [DecidableEq κ] in
theorem fated_unique {i : SubscriptionId} {fate fate' : Fate} (h : i ∈ fated ops env b b' fate)
    (h' : i ∈ fated ops env b b' fate') : fate = fate' := by
  obtain ⟨sub, hsub, -, hfalls⟩ := h
  obtain ⟨sub', hsub', -, hfalls'⟩ := h'
  rw [hsub, Option.some.injEq] at hsub'
  subst hsub'
  exact hfalls.unique hfalls'

section Counts

variable {vs : List SubscriptionId} {d : SubscriptionId → Delta} (hnodup : vs.Nodup)
  (hkeys : ∀ i sub, b.subs i = some sub → i ∈ vs)
  (hcounts : ∀ i, (∃ fate, i ∈ fated ops env b b' fate ∧ Local.Counts fate (d i)) ∨
    (∀ fate, i ∉ fated ops env b b' fate) ∧ d i = {})

omit [DecidableEq κ] in
include hnodup hkeys hcounts in
/-- What the result counts of a fate is the number of subscriptions with it. -/
theorem sum_eq_fated {fate : Fate} (field : Delta → ℕ) (hzero : field {} = 0)
    (hfield : ∀ fate' d, Local.Counts fate' d → field d = if fate' = fate then 1 else 0) :
    (vs.map fun i => field (d i)).sum = (fated ops env b b' fate).ncard := by
  refine sum_eq_ncard hnodup (fun i hi => ?_) (fun i hi => ?_) (fun i hi => ?_)
  · obtain ⟨sub, hsub, -⟩ := hi
    exact hkeys i sub hsub
  · rcases hcounts i with ⟨fate', hi', hc⟩ | ⟨hnone, -⟩
    · rw [hfield fate' (d i) hc, if_pos (fated_unique hi' hi)]
    · exact absurd hi (hnone fate)
  · rcases hcounts i with ⟨fate', hi', hc⟩ | ⟨-, hd⟩
    · have hne : fate' ≠ fate := by
        rintro rfl
        exact hi hi'
      rw [hfield fate' (d i) hc, if_neg hne]
    · rw [hd, hzero]

omit [DecidableEq κ] in
include hkeys hcounts in
/-- The subscriptions a call counts as disconnected are those whose fate it was. -/
theorem mem_disconnected_iff (i : SubscriptionId) :
    i ∈ (vs.filter fun i => (d i).disconnected) ↔ i ∈ fated ops env b b' .disconnected := by
  rw [List.mem_filter]
  rcases hcounts i with ⟨fate, hi, hc⟩ | ⟨hnone, hd⟩
  · rw [hc.disconnected, decide_eq_true_iff]
    constructor
    · rintro ⟨-, rfl⟩
      exact hi
    · intro hi'
      have hsame := fated_unique hi hi'
      obtain ⟨sub, hsub, -⟩ := hi'
      exact ⟨hkeys i sub hsub, hsame⟩
  · rw [hd]
    exact iff_of_false (by simp) (hnone .disconnected)

end Counts

/-- The run of an accepted call accounts for every subscription, when every one that matches has a
fate. -/
theorem publishAccounts_of_views {vs : List SubscriptionId} {c : Call δ} (hnodup : vs.Nodup)
    (hkeys : ∀ i sub, b.subs i = some sub → i ∈ vs)
    (hviews : b'.view = fun i =>
      if i ∈ vs then ((b.view i).alone ops .tryPublish env).1 else b.view i)
    (hcalls : b'.calls = b.calls ++ [c])
    (hresult : c.phase = .returned (addTally
      (addTally {} (fun i => ((b.view i).alone ops .tryPublish env).2.1) vs)
      (fun i => ((b.view i).alone ops .tryPublish env).2.2) vs))
    (hfate : ∀ i sub, b.subs i = some sub → ops.Matches sub.topic env → ∃ fate,
      Local.Falls ops env sub (b.view i) ((b.view i).alone ops .tryPublish env).1 fate ∧
      Local.Counts fate ((b.view i).alone ops .tryPublish env).2.1 ∧
      ((b.view i).alone ops .tryPublish env).2.2 = {}) :
    PublishAccounts ops env b b' := by
  have hview : ∀ i sub, b.subs i = some sub →
      b'.view i = ((b.view i).alone ops .tryPublish env).1 := by
    intro i sub hsub
    rw [hviews]
    exact if_pos (hkeys i sub hsub)
  have hstill : ∀ i, (∀ sub, b.subs i = some sub → ¬ ops.Matches sub.topic env) →
      (b.view i).alone ops .tryPublish env = (b.view i, {}, {}) :=
    fun i hnot => Local.alone_of_not_matches hnot
  -- the loop counts the fate, and the sends of a `try_publish` add nothing
  have hparts : ∀ i, ((∃ fate, i ∈ fated ops env b b' fate ∧
        Local.Counts fate ((b.view i).alone ops .tryPublish env).2.1) ∨
      (∀ fate, i ∉ fated ops env b b' fate) ∧
        ((b.view i).alone ops .tryPublish env).2.1 = {}) ∧
      ((b.view i).alone ops .tryPublish env).2.2 = {} := by
    intro i
    by_cases hmatch : ∃ sub, b.subs i = some sub ∧ ops.Matches sub.topic env
    · obtain ⟨sub, hsub, hmatch⟩ := hmatch
      obtain ⟨fate, hfalls, hc, hnothing⟩ := hfate i sub hsub hmatch
      rw [← hview i sub hsub] at hfalls
      exact ⟨.inl ⟨fate, ⟨sub, hsub, hmatch, hfalls⟩, hc⟩, hnothing⟩
    · have hnone : ∀ fate, i ∉ fated ops env b b' fate := by
        rintro fate ⟨sub, hsub, hmatches, -⟩
        exact hmatch ⟨sub, hsub, hmatches⟩
      rw [hstill i fun sub hsub hmatches => hmatch ⟨sub, hsub, hmatches⟩]
      exact ⟨.inr ⟨hnone, rfl⟩, rfl⟩
  have hcounts := fun i => (hparts i).1
  have hsends : ∀ i ∈ vs, ((b.view i).alone ops .tryPublish env).2.2 = {} :=
    fun i _ => (hparts i).2
  rw [addTally_congr hsends, addTally_nothing] at hresult
  constructor
  · intro i sub hsub hmatch
    obtain ⟨fate, hfalls, -, -⟩ := hfate i sub hsub hmatch
    rw [← hview i sub hsub] at hfalls
    exact ⟨fate, hfalls, fun fate' hfalls' => hfalls'.unique hfalls⟩
  · refine ⟨c, _, hcalls, hresult, ?_, ?_, ?_, ?_, ?_⟩
    · rw [← sum_eq_fated hnodup hkeys hcounts Delta.delivered rfl fun _ _ hc => hc.delivered]
      exact Nat.zero_add _
    · rw [← sum_eq_fated hnodup hkeys hcounts Delta.dropped rfl fun _ _ hc => hc.dropped]
      exact Nat.zero_add _
    · rw [← sum_eq_fated hnodup hkeys hcounts Delta.coalesced rfl fun _ _ hc => hc.coalesced]
      exact Nat.zero_add _
    · exact hnodup.filter _
    · exact mem_disconnected_iff hkeys hcounts
  · intro i hnot
    rw [hviews]
    dsimp only
    split
    · rw [hstill i hnot]
    · rfl

/-- Every entry of the map is a key. -/
theorem mem_keys_of_entry (hwf : b.WellFormed) {i : SubscriptionId} {sub : SubscriptionInner τ}
    (hsub : b.subs i = some sub) : i ∈ b.keys := by
  simp [keys, hwf.lt_nextId hsub, hsub]

/-- **A `try_publish` accounts for every subscription.**  On any reachable bus whose quotas are not
used up, an accepted call that runs alone visits every entry once, in any order; it gives every
subscription that matches one fate, counts the fates, and leaves the others as they are.  An
envelope that is too large changes no subscription and no ring. -/
theorem tryPublish_accounts (ops : BusOps δ τ κ) (replayCapacity : ℕ) {b : Bus δ τ}
    (hreach : (machine ops replayCapacity).Reachable b) (env : EventEnvelope δ)
    (hlimit : ∀ i sub rem, b.subs i = some sub → sub.remaining = some rem → 1 ≤ rem) :
    (¬ b.maxEventSize < ops.serializedSize env →
      (b.lock = none → ∀ order : List SubscriptionId, order.Perm b.keys →
        ∃ b', RunsAlone ops b.calls.length (b.start .tryPublish env) order b') ∧
      ∀ vs b', RunsAlone ops b.calls.length (b.start .tryPublish env) vs b' →
        vs.Perm b.keys ∧ PublishAccounts ops env b b') ∧
    (b.maxEventSize < ops.serializedSize env →
      (∃ b', RunsAlone ops b.calls.length (b.start .tryPublish env) [] b') ∧
      ∀ vs b', RunsAlone ops b.calls.length (b.start .tryPublish env) vs b' →
        b'.view = b.view ∧ b'.replayCache = b.replayCache ∧
          ∃ c, b'.calls = b.calls ++ [c] ∧ c.phase = .rejected (.tooLarge b.maxEventSize)) := by
  have hwf := wellFormed_of_reachable hreach
  have hclaimless : ∀ i policy,
      ((b.view i).visit ops .tryPublish env).2.claimed = some policy →
        policy = .disconnect ∨ policy = .dropNewest := by
    intro i policy hclaimed
    rw [Local.claimed_tryPublish] at hclaimed
    cases hclaimed
  refine ⟨fun hsize => ⟨fun hlock order hperm => ?_, fun vs b' hrun => ?_⟩,
    fun hsize => ⟨⟨_, (runsAlone_rejected_iff ops env hsize .tryPublish [] _).mpr ⟨rfl, rfl⟩⟩,
      fun vs b' hrun => ?_⟩⟩
  · exact runsAlone_of_perm hwf hlock hsize hclaimless hperm
  · -- that the run got past the loop shows that the mutex was free
    have hlock := lock_of_runsAlone ops .tryPublish env hsize hrun
    obtain ⟨hperm, c, hstage, hresult⟩ := stage_of_runsAlone hwf hsize hclaimless hrun
    refine ⟨hperm, publishAccounts_of_views (hperm.nodup_iff.mpr b.keys_nodup) ?_ hstage.views
      hstage.calls hresult ?_⟩
    · exact fun i sub hsub => hperm.mem_iff.mpr (mem_keys_of_entry hwf hsub)
    · -- each entry is visited once, and has one fate
      intro i sub hsub hmatch
      refine Local.falls_alone hsub hmatch ((loops_of_reachable hreach).armed_of_free hlock i) ?_
        (hwf.view_fits i)
      intro hzero
      have hone := hlimit i sub 0 hsub hzero
      omega
  · obtain ⟨-, rfl⟩ := (runsAlone_rejected_iff ops env hsize .tryPublish vs b').mp hrun
    exact ⟨rfl, rfl, _, rfl, rfl⟩

/-- A pattern is whether it matches, and the key of an envelope is its stream. -/
def streamOps : BusOps Unit Bool StreamId where
  matchesEvent p _ _ := p
  extractKey env _ := some env.streamId
  serializedSize _ := 0

/-- A subscription for each fate, and one that does not match.  The second envelope uses up the
quota of the first subscription, and the queues of the next three have the first envelope. -/
def everyFate : List (BusAction Unit Bool) :=
  [.subscribe true { limit := some 2 }, .subscribe true { outboundCapacity := some 1 },
    .subscribe true { outboundCapacity := some 1, slowConsumerPolicy := .dropNewest },
    .subscribe true { slowConsumerPolicy := .coalesce ⟨["streamId"]⟩ }, .subscribe true {},
    .subscribe false {},
    .tryPublish (.nth 1), .advance 0, .advance 0, .advance 0,
    .visit 0 1, .visit 0 2, .visit 0 3, .visit 0 4, .visit 0 5, .visit 0 6, .advance 0, .dropRx 5]

/-- Six subscriptions, one for each fate: the counts agree with what happened to each. -/
theorem tryPublish_accounts_everyFate : ∃ b b' : Bus Unit Bool,
    (machine streamOps 10).run (machine streamOps 10).init everyFate = some b ∧
    RunsAlone streamOps 1 (b.start .tryPublish (.nth 2)) [6, 2, 4, 1, 3, 5] b' ∧
    PublishAccounts streamOps (.nth 2) b b' := by
  have hend : ∃ b : Bus Unit Bool,
      (machine streamOps 10).run (machine streamOps 10).init everyFate = some b ∧
      b.lock = none ∧ b.keys = [1, 2, 3, 4, 5, 6] ∧ b.calls.length = 1 ∧ b.nextId = 7 ∧
      b.maxEventSize = DEFAULT_MAX_EVENT_SIZE_BYTES ∧
      ((List.range 7).all fun i => (b.subs i).all fun sub => sub.remaining != some 0) = true :=
    ⟨_, rfl, rfl, rfl, rfl, rfl, rfl, rfl⟩
  obtain ⟨b, hrun, hlock, hkeys, hlen, hnext, hmax, hsubs⟩ := hend
  have hreach : (machine streamOps 10).Reachable b := ⟨everyFate, hrun⟩
  have hlimit : ∀ i sub rem, b.subs i = some sub → sub.remaining = some rem → 1 ≤ rem := by
    intro i sub rem hsub hrem
    have hi : i < 7 := hnext ▸ (wellFormed_of_reachable hreach).lt_nextId hsub
    have hne := List.all_eq_true.mp hsubs i (List.mem_range.mpr hi)
    simp only [hsub, hrem, Option.all_some, bne_iff_ne, ne_eq, Option.some.injEq] at hne
    omega
  have hfits : ¬ b.maxEventSize < streamOps.serializedSize (.nth 2) := by
    rw [hmax]
    decide
  have haccounts := (tryPublish_accounts streamOps 10 hreach (.nth 2) hlimit).1 hfits
  rw [hlen] at haccounts
  obtain ⟨b', hb'⟩ := haccounts.1 hlock [6, 2, 4, 1, 3, 5] (by rw [hkeys]; decide)
  exact ⟨b, b', hrun, hb', (haccounts.2 _ _ hb').2⟩

end Publish

end Bus

end Boardwalk
