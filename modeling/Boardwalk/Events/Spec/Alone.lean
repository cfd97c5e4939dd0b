import Boardwalk.Events.Spec.Quota
import Mathlib.Data.List.Nodup

/-!
# A publish that runs alone

`publish` and `try_publish` are separate implementations: one claims, sends and commits per
subscriber, the other decides in a single pass under the mutex.  When nothing else happens on the
bus, what either does to one subscription depends only on the part of the state that belongs to it
(`Local`), so a whole run can be read off subscription by subscription, and the two readings agree
(`publish_agrees_with_tryPublish`).
-/

namespace Boardwalk

namespace Bus

variable {δ τ κ : Type} [DecidableEq κ]

/-! ### The part of one subscription -/

/-- What the bus holds for one subscription. -/
structure Local (δ τ : Type) where
  entry : Option (SubscriptionInner τ)
  mpsc : Mpsc (EventEnvelope δ)
  coalesce : CoalesceState δ
  notify : Oneshot SlowConsumerNotice

def view (b : Bus δ τ) (i : SubscriptionId) : Local δ τ :=
  ⟨b.subs i, b.mpsc i, b.coalesce i, b.notify i⟩

/-- The bus without its subscriptions and its history. -/
def rest (b : Bus δ τ) : Bus δ τ :=
  { b with
    subs := fun _ => none
    mpsc := fun _ => { capacity := 0 }
    coalesce := fun _ => { capacity := 0, keyPath := ⟨[]⟩ }
    notify := fun _ => .pending
    hist := fun _ => {} }

/-- Of `b` only the part of `i` has changed, to `l`. -/
structure Touches (i : SubscriptionId) (l : Local δ τ) (b b' : Bus δ τ) : Prop where
  self : b'.view i = l
  other : ∀ j, j ≠ i → b'.view j = b.view j
  rest : b'.rest = b.rest

theorem Touches.trans {i : SubscriptionId} {l l' : Local δ τ} {b b' b'' : Bus δ τ}
    (h : Touches i l b b') (h' : Touches i l' b' b'') : Touches i l' b b'' :=
  ⟨h'.self, fun j hj => (h'.other j hj).trans (h.other j hj), h'.rest.trans h.rest⟩

namespace Local

/-- `remove` on the part of one subscription. -/
def remove (l : Local δ τ) : Local δ τ :=
  match l.entry with
  | none => l
  | some _ => { l with entry := none, notify := l.notify.dropSender }

/-- `reap` on the part of one subscription. -/
def reap (l : Local δ τ) : Local δ τ :=
  match l.entry with
  | some { outbound := .coalesce, .. } => { l.remove with coalesce := l.coalesce.close }
  | _ => l.remove

/-- `fireNotice` on the part of one subscription. -/
def fireNotice (l : Local δ τ) (sub : SubscriptionInner τ) : Local δ τ :=
  if sub.slowConsumerNotify then
    { l with
      entry := some { sub with slowConsumerNotify := false }
      notify := l.notify.send sub.notice }
  else l

/-- An entry with a bounded channel has no queue to close. -/
theorem reap_mpsc {l : Local δ τ} {sub : SubscriptionInner τ} (h : l.entry = some sub)
    (hout : sub.outbound = .mpsc) : l.reap = l.remove := by
  unfold reap
  split
  · rename_i hco
    rw [h] at hco
    cases hco
    cases hout
  · rfl

theorem reap_of_none {l : Local δ τ} (h : l.entry = none) : l.reap = l := by
  simp [reap, remove, h]

theorem entry_remove (l : Local δ τ) : l.remove.entry = none := by
  unfold remove
  split
  · assumption
  · rfl

theorem entry_reap (l : Local δ τ) : l.reap.entry = none := by
  unfold reap
  split
  · exact l.entry_remove
  · exact l.entry_remove

end Local

section Touches

variable (b : Bus δ τ) (i : SubscriptionId)

theorem touches_refl : Touches i (b.view i) b b := ⟨rfl, fun _ _ => rfl, rfl⟩

theorem touches_setSub (sub : SubscriptionInner τ) :
    Touches i { b.view i with entry := some sub } b (b.setSub i sub) :=
  ⟨by simp [view, setSub], fun j hj => by simp [view, setSub, hj], rfl⟩

theorem touches_setMpsc (q : Mpsc (EventEnvelope δ)) :
    Touches i { b.view i with mpsc := q } b (b.setMpsc i q) :=
  ⟨by simp [view, setMpsc], fun j hj => by simp [view, setMpsc, hj], rfl⟩

theorem touches_setCoalesce (state : CoalesceState δ) :
    Touches i { b.view i with coalesce := state } b
      { b with coalesce := Function.update b.coalesce i state } :=
  ⟨by simp [view], fun j hj => by simp [view, hj], rfl⟩

theorem touches_recordClaim (env : EventEnvelope δ) :
    Touches i (b.view i) b (b.recordClaim i env) := ⟨rfl, fun _ _ => rfl, rfl⟩

theorem touches_recordCommit : Touches i (b.view i) b (b.recordCommit i) :=
  ⟨rfl, fun _ _ => rfl, rfl⟩

theorem touches_remove : Touches i (b.view i).remove b (b.remove i) := by
  unfold remove
  cases hsub : b.subs i with
  | none =>
    have hid : (b.view i).remove = b.view i := by simp [Local.remove, view, hsub]
    rw [hid]
    exact b.touches_refl i
  | some sub =>
    exact ⟨by simp [Local.remove, view, hsub], fun j hj => by simp [view, hj], rfl⟩

theorem touches_reap : Touches i (b.view i).reap b (b.reap i) := by
  have hremove := b.touches_remove i
  unfold reap
  split
  · -- a coalesce entry also closes its queue, the others only go
    rename_i hsub
    have hco : (b.remove i).coalesce = b.coalesce := by
      unfold remove
      split <;> rfl
    have hview : (b.view i).reap =
        { (b.view i).remove with coalesce := (b.coalesce i).close } := by
      simp [Local.reap, view, hsub]
    have hstep := (b.remove i).touches_setCoalesce i (b.coalesce i).close
    rw [hview]
    refine ⟨?_, fun j hj => ?_, ?_⟩
    · rw [← hremove.self, ← hco]
      simp [view]
    · rw [← hremove.other j hj, ← hco]
      simp [view, hj]
    · rw [← hremove.rest]
      rfl
  · rename_i hsub
    have hview : (b.view i).reap = (b.view i).remove := by
      unfold Local.reap
      split
      · rename_i h
        exact absurd h (hsub _ _ _ _ _ _)
      · rfl
    rw [hview]
    exact hremove

theorem touches_fireNotice (sub : SubscriptionInner τ) :
    Touches i ((b.view i).fireNotice sub) b (b.fireNotice i sub) := by
  unfold fireNotice Local.fireNotice
  split
  · exact ⟨by simp [view, setSub], fun j hj => by simp [view, setSub, hj], rfl⟩
  · exact b.touches_refl i

/-- The end of a loop removes every entry of the list. -/
theorem view_foldl_reap (l : List SubscriptionId) :
    (l.foldl reap b).view i = if i ∈ l then (b.view i).reap else b.view i := by
  induction l generalizing b with
  | nil => rfl
  | cons j l ih =>
    have htouch := b.touches_reap j
    rw [List.foldl_cons, ih]
    by_cases hij : i = j
    · subst hij
      rw [htouch.self, Local.reap_of_none (b.view i).entry_reap]
      simp
    · rw [htouch.other i hij]
      simp [hij]

theorem rest_foldl_reap (l : List SubscriptionId) : (l.foldl reap b).rest = b.rest := by
  induction l generalizing b with
  | nil => rfl
  | cons j l ih => rw [List.foldl_cons, ih, (b.touches_reap j).rest]

end Touches

/-! ### What a loop does to one subscription -/

/-- What one visit adds to a call. -/
structure Delta where
  delivered : ℕ := 0
  dropped : ℕ := 0
  coalesced : ℕ := 0
  disconnected : Bool := false
  /-- The entry goes at the end of the loop. -/
  removed : Bool := false
  /-- The policy of the match, when a slot is claimed. -/
  claimed : Option SlowConsumerPolicy := none

/-- The entry is in order: a bounded channel goes with one of the policies that have one. -/
def Local.Fits (l : Local δ τ) : Prop :=
  ∀ sub, l.entry = some sub → sub.outbound = sub.slowConsumerPolicy.outbound

/-- A delivery made under the mutex, and whether it was the last one. -/
def Local.deliverNow (l : Local δ τ) (sub : SubscriptionInner τ) (env : EventEnvelope δ) :
    Local δ τ × Delta :=
  let sub := sub.deliverNow env.position
  ({ l with entry := some sub }, { delivered := 1, removed := decide (sub.remaining = some 0) })

/-- `coalesceEntry` on the part of one subscription. -/
def Local.visitCoalesce (ops : BusOps δ τ κ) (env : EventEnvelope δ) (l : Local δ τ)
    (sub : SubscriptionInner τ) : Local δ τ × Delta :=
  let (outcome, state) := l.coalesce.push ops.extractKey env
  let l := { l with coalesce := state }
  match outcome with
  | .pushed => l.deliverNow sub env
  | .replaced => (l, { coalesced := 1 })
  | .dropped => (l, { dropped := 1 })
  | .receiverGone => (l, { removed := true })

/-- `tryPublishEntry` on the part of one subscription. -/
def Local.visitTryPublish (env : EventEnvelope δ) (l : Local δ τ) (sub : SubscriptionInner τ) :
    Local δ τ × Delta :=
  match l.mpsc.trySend env with
  | .ok q => Local.deliverNow { l with mpsc := q } sub env
  | .error .full =>
    match sub.slowConsumerPolicy with
    | .disconnect => (l.fireNotice sub, { disconnected := true, removed := true })
    | _ => (l, { dropped := 1 })
  | .error .closed => (l, { removed := true })

/-- `publishEntry` on the part of one subscription. -/
def Local.visitPublish (l : Local δ τ) (sub : SubscriptionInner τ) : Local δ τ × Delta :=
  match sub.claim with
  | none => (l, {})
  | some sub' => ({ l with entry := some sub' }, { claimed := some sub.slowConsumerPolicy })

/-- `visitEntry` on the part of one subscription. -/
def Local.visit (ops : BusOps δ τ κ) (api : PublishApi) (env : EventEnvelope δ) (l : Local δ τ) :
    Local δ τ × Delta :=
  match l.entry with
  | none => (l, {})
  | some sub =>
    if ops.matchesEvent sub.topic env.topic env.data then
      match sub.outbound, api with
      | .coalesce, _ => l.visitCoalesce ops env sub
      | .mpsc, .tryPublish => l.visitTryPublish env sub
      | .mpsc, .publish => l.visitPublish sub
    else (l, {})

/-- What a list of subscriptions adds to a result, subscription by subscription. -/
def addTally (r : PublishResult) (d : SubscriptionId → Delta) (vs : List SubscriptionId) :
    PublishResult where
  delivered := r.delivered + (vs.map fun i => (d i).delivered).sum
  dropped := r.dropped + (vs.map fun i => (d i).dropped).sum
  coalesced := r.coalesced + (vs.map fun i => (d i).coalesced).sum
  disconnectedSlowConsumers :=
    r.disconnectedSlowConsumers ++ vs.filter fun i => (d i).disconnected

theorem addTally_cons (r : PublishResult) (d : SubscriptionId → Delta) (i : SubscriptionId)
    (vs : List SubscriptionId) :
    addTally r d (i :: vs) = addTally (addTally r (fun _ => d i) [i]) d vs := by
  cases hd : (d i).disconnected <;> simp [addTally, hd, Nat.add_assoc]

theorem addTally_empty (r : PublishResult) (i : SubscriptionId) :
    addTally r (fun _ => {}) [i] = r := by
  simp [addTally]

theorem addTally_congr {r : PublishResult} {d d' : SubscriptionId → Delta}
    {vs : List SubscriptionId} (h : ∀ i ∈ vs, d i = d' i) : addTally r d vs = addTally r d' vs := by
  induction vs generalizing r with
  | nil => simp [addTally]
  | cons i vs ih =>
    rw [addTally_cons, addTally_cons r d', h i List.mem_cons_self]
    exact ih fun j hj => h j (List.mem_cons_of_mem i hj)

/-- The call after a visit of `i`. -/
def addDelta (c : Call δ) (i : SubscriptionId) (d : Delta) : Call δ :=
  { c with
    result := addTally c.result (fun _ => d) [i]
    toRemove := c.toRemove ++ if d.removed then [i] else []
    matched := c.matched ++ (d.claimed.map (Match.mk i)).toList
    guards := c.guards ++ (d.claimed.map (Match.mk i)).toList }

theorem addDelta_empty (c : Call δ) (i : SubscriptionId) : addDelta c i {} = c := by
  simp [addDelta, addTally]

section Visit

variable {ops : BusOps δ τ κ} {b : Bus δ τ} {c : Call δ} {i : SubscriptionId}
  {sub : SubscriptionInner τ}

/-- A delivery under the mutex. -/
theorem visit_deliverNow {b₁ : Bus δ τ} {l : Local δ τ} (c : Call δ)
    (sub : SubscriptionInner τ) (htouch : Touches i l b b₁) :
    Touches i (l.deliverNow sub c.envelope).1 b (b₁.setSub i (sub.deliverNow c.envelope.position)) ∧
      { c with
        result := { c.result with delivered := c.result.delivered + 1 }
        toRemove := if (sub.deliverNow c.envelope.position).remaining = some 0
          then c.toRemove ++ [i] else c.toRemove } =
        addDelta c i (l.deliverNow sub c.envelope).2 := by
  refine ⟨?_, ?_⟩
  · have hset := b₁.touches_setSub i (sub.deliverNow c.envelope.position)
    rw [htouch.self] at hset
    exact htouch.trans hset
  · unfold addDelta addTally Local.deliverNow
    by_cases hlast : (sub.deliverNow c.envelope.position).remaining = some 0
    · simp [hlast]
    · simp [hlast]

theorem coalesceEntry_spec :
    Touches i ((b.view i).visitCoalesce ops c.envelope sub).1 b (b.coalesceEntry ops c i sub).1 ∧
      (b.coalesceEntry ops c i sub).2 =
        addDelta c i ((b.view i).visitCoalesce ops c.envelope sub).2 := by
  unfold coalesceEntry Local.visitCoalesce
  have hpush : (b.view i).coalesce.push ops.extractKey c.envelope =
      (b.coalesce i).push ops.extractKey c.envelope := rfl
  rw [hpush]
  generalize (b.coalesce i).push ops.extractKey c.envelope = pushed
  obtain ⟨outcome, state⟩ := pushed
  have htouch := b.touches_setCoalesce i state
  cases outcome with
  | pushed => exact visit_deliverNow c sub htouch
  | replaced => exact ⟨htouch, by simp [addDelta, addTally]⟩
  | dropped => exact ⟨htouch, by simp [addDelta, addTally]⟩
  | receiverGone => exact ⟨htouch, by simp [addDelta, addTally]⟩

theorem tryPublishEntry_spec (hfits : sub.outbound = sub.slowConsumerPolicy.outbound)
    (hout : sub.outbound = .mpsc) :
    Touches i ((b.view i).visitTryPublish c.envelope sub).1 b (b.tryPublishEntry c i sub).1 ∧
      (b.tryPublishEntry c i sub).2 =
        addDelta c i ((b.view i).visitTryPublish c.envelope sub).2 := by
  unfold tryPublishEntry Local.visitTryPublish
  have hsend : (b.view i).mpsc.trySend c.envelope = (b.mpsc i).trySend c.envelope := rfl
  rw [hsend]
  generalize (b.mpsc i).trySend c.envelope = sent
  cases sent with
  | ok q =>
    -- delivered at once: the entry counts the envelope and commits it
    obtain ⟨htouch, hcall⟩ := visit_deliverNow c sub (b.touches_setMpsc i q)
    have hcommit := touches_recordCommit
      ((b.setMpsc i q).setSub i (sub.deliverNow c.envelope.position)) i
    rw [htouch.self] at hcommit
    exact ⟨htouch.trans hcommit, hcall⟩
  | error err =>
    cases err with
    | closed => exact ⟨b.touches_refl i, by simp [addDelta, addTally]⟩
    | full =>
      cases hpolicy : sub.slowConsumerPolicy with
      | disconnect => exact ⟨b.touches_fireNotice i sub, by simp [addDelta, addTally]⟩
      | backpressure => exact ⟨b.touches_refl i, by simp [addDelta, addTally]⟩
      | dropNewest => exact ⟨b.touches_refl i, by simp [addDelta, addTally]⟩
      | coalesce path =>
        -- a coalesce entry has no channel, so it does not come here
        rw [hout, hpolicy] at hfits
        cases hfits

theorem publishEntry_spec :
    Touches i ((b.view i).visitPublish sub).1 b (b.publishEntry c i sub).1 ∧
      (b.publishEntry c i sub).2 = addDelta c i ((b.view i).visitPublish sub).2 := by
  unfold publishEntry Local.visitPublish
  cases sub.claim with
  | none => exact ⟨b.touches_refl i, by simp [addDelta, addTally]⟩
  | some sub' =>
    have htouch := b.touches_setSub i sub'
    have hclaim := touches_recordClaim (b.setSub i sub') i c.envelope
    rw [htouch.self] at hclaim
    exact ⟨htouch.trans hclaim, by simp [addDelta, addTally]⟩

/-- **A visit touches the visited subscription only**, and what it does depends on nothing else. -/
theorem visitEntry_spec (ops : BusOps δ τ κ) (c : Call δ) (hfits : (b.view i).Fits) :
    Touches i ((b.view i).visit ops c.api c.envelope).1 b (b.visitEntry ops c i).1 ∧
      (b.visitEntry ops c i).2 = addDelta c i ((b.view i).visit ops c.api c.envelope).2 := by
  unfold visitEntry Local.visit
  have hentry : (b.view i).entry = b.subs i := rfl
  rw [hentry]
  cases hsub : b.subs i with
  | none => exact ⟨b.touches_refl i, (addDelta_empty c i).symm⟩
  | some sub =>
    dsimp only
    split
    · cases hout : sub.outbound with
      | coalesce => exact coalesceEntry_spec
      | mpsc =>
        cases c.api with
        | tryPublish => exact tryPublishEntry_spec (hfits sub hsub) hout
        | publish => exact publishEntry_spec
    · exact ⟨b.touches_refl i, (addDelta_empty c i).symm⟩

end Visit

/-! ### Runs of one call -/

end Bus

/-- The call has returned, or its future was dropped and has unwound. -/
def Phase.ended : Phase → Bool
  | .returned _ | .rejected _ | .cancelled => true
  | _ => false

namespace Bus

variable {δ τ κ : Type} [DecidableEq κ]

/-- Call `k` runs to its end and nothing else happens: `RunsAlone ops k b vs b'` says that it gets
from `b` to `b'` and that its loop visits the entries in the order `vs`. -/
inductive RunsAlone (ops : BusOps δ τ κ) (k : ℕ) :
    Bus δ τ → List SubscriptionId → Bus δ τ → Prop where
  | done {b : Bus δ τ} (c : Call δ) (at_k : b.calls[k]? = some c) (ended : c.phase.ended = true) :
      RunsAlone ops k b [] b
  | advance {b b₁ b' : Bus δ τ} {vs : List SubscriptionId}
      (first : step ops b (.advance k) = some b₁) (rest : RunsAlone ops k b₁ vs b') :
      RunsAlone ops k b vs b'
  | visit {b b₁ b' : Bus δ τ} {i : SubscriptionId} {vs : List SubscriptionId}
      (first : step ops b (.visit k i) = some b₁) (rest : RunsAlone ops k b₁ vs b') :
      RunsAlone ops k b (i :: vs) b'

section Alone

variable {ops : BusOps δ τ κ} {k : ℕ} {b b₁ b₂ b' : Bus δ τ} {c : Call δ}
  {vs ws : List SubscriptionId} {i : SubscriptionId}

omit [DecidableEq κ] in
/-- A call in its loop advances only when every entry is visited. -/
theorem todo_of_advance (hk : b.calls[k]? = some c) (hp : c.phase = .fanout)
    (hs : b.advance ops k = some b') : c.todo = [] := by
  unfold advance at hs
  rw [hk] at hs
  simp only [hp] at hs
  split at hs
  · rename_i hdone
    exact List.isEmpty_iff.mp hdone
  · cases hs

theorem phase_of_visit (hk : b.calls[k]? = some c) (hs : b.visit ops k i = some b') :
    c.phase = .fanout ∧ i ∈ c.todo := by
  obtain ⟨c', hk', hp, hi, -⟩ := visit_cases hs
  obtain rfl : c = c' := Option.some.inj (hk.symm.trans hk')
  exact ⟨hp, hi⟩

omit [DecidableEq κ] in
theorem not_ended_of_advance (hk : b.calls[k]? = some c) (hs : b.advance ops k = some b') :
    c.phase.ended = false := by
  unfold advance at hs
  rw [hk] at hs
  cases hp : c.phase <;> simp_all [Phase.ended]

/-- `b` gets to `b₁` by visiting `vs`, and there is no other way with these visits. -/
def LeadsTo (ops : BusOps δ τ κ) (k : ℕ) (b : Bus δ τ) (vs : List SubscriptionId) (b₁ : Bus δ τ) :
    Prop :=
  ∀ ws b', RunsAlone ops k b (vs ++ ws) b' ↔ RunsAlone ops k b₁ ws b'

theorem LeadsTo.trans (h : LeadsTo ops k b vs b₁) (h' : LeadsTo ops k b₁ ws b₂) :
    LeadsTo ops k b (vs ++ ws) b₂ := by
  intro xs b'
  rw [List.append_assoc, h, h']

/-- A step of a call alone leads where the call's run leads, with no visit made. -/
theorem leadsTo_advance (hk : b.calls[k]? = some c) (hs : b.advance ops k = some b₁) :
    LeadsTo ops k b [] b₁ := by
  intro ws b'
  refine ⟨fun h => ?_, fun h => .advance hs h⟩
  cases h with
  | done c' hk' hended =>
    obtain rfl : c = c' := Option.some.inj (hk.symm.trans hk')
    rw [not_ended_of_advance hk hs] at hended
    cases hended
  | advance hs' h =>
    obtain rfl : b₁ = _ := Option.some.inj (hs.symm.trans hs')
    exact h
  | visit hs' h =>
    obtain ⟨hp, hi⟩ := phase_of_visit hk hs'
    rw [todo_of_advance hk hp hs] at hi
    cases hi

/-- A visit of a call alone leads where the call's run leads, with that visit made. -/
theorem leadsTo_visit (hk : b.calls[k]? = some c) (hs : b.visit ops k i = some b₁) :
    LeadsTo ops k b [i] b₁ := by
  intro ws b'
  obtain ⟨hp, hi⟩ := phase_of_visit hk hs
  refine ⟨fun h => ?_, fun h => .visit hs h⟩
  cases h with
  | advance hs' h =>
    rw [todo_of_advance hk hp hs'] at hi
    cases hi
  | visit hs' h =>
    obtain rfl : b₁ = _ := Option.some.inj (hs.symm.trans hs')
    exact h

/-- A call that has ended stays. -/
theorem runsAlone_ended_iff (hk : b.calls[k]? = some c) (hended : c.phase.ended = true) :
    RunsAlone ops k b vs b' ↔ vs = [] ∧ b' = b := by
  constructor
  · intro h
    cases h with
    | done => exact ⟨rfl, rfl⟩
    | advance hs h =>
      rw [not_ended_of_advance hk hs] at hended
      cases hended
    | visit hs h =>
      rw [(phase_of_visit hk hs).1] at hended
      cases hended
  · rintro ⟨rfl, rfl⟩
    exact .done c hk hended

end Alone

/-! ### The stages of a call -/

/-- The bus while one call, the last one, runs alone: `views` are the parts of the subscriptions,
`c` is the call, and everything else is as in `b₀`. -/
structure Stage (b₀ : Bus δ τ) (lock : Option ℕ) (views : SubscriptionId → Local δ τ) (c : Call δ)
    (b : Bus δ τ) : Prop where
  views : b.view = views
  calls : b.calls = b₀.calls ++ [c]
  lock : b.lock = lock
  nextId : b.nextId = b₀.nextId
  registry : b.registry = b₀.registry
  replayCache : b.replayCache = b₀.replayCache
  maxEventSize : b.maxEventSize = b₀.maxEventSize

section Stages

variable {ops : BusOps δ τ κ} {b₀ b b₁ : Bus δ τ} {c c' : Call δ} {lock : Option ℕ}
  {views : SubscriptionId → Local δ τ} {i : SubscriptionId} {l : Local δ τ}

theorem Stage.call (h : Stage b₀ lock views c b) : b.calls[b₀.calls.length]? = some c := by
  simp [h.calls]

/-- An operation on one subscription, after which the call is set. -/
theorem Stage.touch (h : Stage b₀ lock views c b) (htouch : Touches i l b b₁) (c' : Call δ) :
    Stage b₀ lock (Function.update views i l) c' (b₁.setCall b₀.calls.length c') := by
  have hrest := htouch.rest
  simp only [rest, Bus.mk.injEq] at hrest
  obtain ⟨hnext, -, hreg, hcache, hmax, hlock, -, -, -, hcalls, -⟩ := hrest
  refine ⟨?_, ?_, hlock.trans h.lock, hnext.trans h.nextId, hreg.trans h.registry,
    hcache.trans h.replayCache, hmax.trans h.maxEventSize⟩
  · funext j
    by_cases hj : j = i
    · subst hj
      rw [Function.update_self]
      exact htouch.self
    · rw [Function.update_of_ne hj, ← h.views]
      exact htouch.other j hj
  · simp [setCall, hcalls, h.calls]

/-- One visit. -/
theorem Stage.visit (ops : BusOps δ τ κ) (h : Stage b₀ lock views c b) (hp : c.phase = .fanout)
    (hi : i ∈ c.todo) (hfits : (views i).Fits) :
    ∃ b', b.visit ops b₀.calls.length i = some b' ∧
      Stage b₀ lock (Function.update views i ((views i).visit ops c.api c.envelope).1)
        (addDelta { c with todo := c.todo.erase i } i
          ((views i).visit ops c.api c.envelope).2) b' := by
  have hviews := h.views
  subst hviews
  obtain ⟨htouch, hcall⟩ := visitEntry_spec ops { c with todo := c.todo.erase i } hfits
  refine ⟨_, ?_, h.touch htouch _⟩
  unfold Bus.visit
  rw [h.call]
  dsimp only
  rw [if_pos ⟨hp, hi⟩, hcall]

omit [DecidableEq κ] in
/-- The end of the loop. -/
theorem Stage.finish (ops : BusOps δ τ κ) (h : Stage b₀ lock views c b) (hp : c.phase = .fanout)
    (htodo : c.todo = []) :
    ∃ b', b.advance ops b₀.calls.length = some b' ∧
      Stage b₀ none (fun i => if i ∈ c.toRemove then (views i).reap else views i)
        (afterMatch { c with toRemove := [] } c.guards) b' := by
  refine ⟨b.finishLoop b₀.calls.length c, ?_, ?_⟩
  · unfold advance
    rw [h.call]
    simp [hp, htodo]
  · have hrest := b.rest_foldl_reap c.toRemove
    simp only [rest, Bus.mk.injEq] at hrest
    obtain ⟨hnext, -, hreg, hcache, hmax, hlock, -, -, -, hcalls, -⟩ := hrest
    refine ⟨?_, ?_, rfl, hnext.trans h.nextId, hreg.trans h.registry,
      hcache.trans h.replayCache, hmax.trans h.maxEventSize⟩
    · funext i
      rw [← h.views]
      exact b.view_foldl_reap i c.toRemove
    · simp [finishLoop, Bus.setCall, hcalls, h.calls]

/-! ### The visits of a loop -/

/-- The call after its loop has visited `vs`. -/
def visited (ops : BusOps δ τ κ) (views : SubscriptionId → Local δ τ) (c : Call δ)
    (vs : List SubscriptionId) : Call δ :=
  vs.foldl (fun c i => addDelta { c with todo := c.todo.erase i } i
    ((views i).visit ops c.api c.envelope).2) c

/-- The parts of the subscriptions after a loop has visited `vs`. -/
def visitedViews (ops : BusOps δ τ κ) (api : PublishApi) (env : EventEnvelope δ)
    (views : SubscriptionId → Local δ τ) (vs : List SubscriptionId) : SubscriptionId → Local δ τ :=
  fun i => if i ∈ vs then ((views i).visit ops api env).1 else views i

theorem visited_congr {views' : SubscriptionId → Local δ τ} {vs : List SubscriptionId}
    (h : ∀ i ∈ vs, views' i = views i) (c : Call δ) :
    visited ops views' c vs = visited ops views c vs := by
  induction vs generalizing c with
  | nil => rfl
  | cons i vs ih =>
    unfold visited at ih ⊢
    rw [List.foldl_cons, List.foldl_cons, h i List.mem_cons_self]
    exact ih (fun j hj => h j (List.mem_cons_of_mem i hj)) _

/-- What the loop has added to the call. -/
theorem visited_eq (c : Call δ) (vs : List SubscriptionId) :
    visited ops views c vs =
      let d i := ((views i).visit ops c.api c.envelope).2
      let claims := vs.filterMap fun i => (d i).claimed.map (Match.mk i)
      { c with
        todo := c.todo.diff vs
        toRemove := c.toRemove ++ vs.filter fun i => (d i).removed
        matched := c.matched ++ claims
        guards := c.guards ++ claims
        result := addTally c.result d vs } := by
  induction vs generalizing c with
  | nil => simp [visited, addTally]
  | cons i vs ih =>
    have hcons : visited ops views c (i :: vs) =
        visited ops views (addDelta { c with todo := c.todo.erase i } i
          ((views i).visit ops c.api c.envelope).2) vs := rfl
    rw [hcons, ih]
    generalize hd : ((views i).visit ops c.api c.envelope).2 = d
    obtain ⟨delivered, dropped, coalesced, disconnected, removed, claimed⟩ := d
    cases disconnected <;> cases removed <;> cases claimed <;>
      simp [addDelta, addTally, hd, Nat.add_assoc]

/-- **The visits of a loop**, one after the other. -/
theorem Stage.visits {vs : List SubscriptionId} (ops : BusOps δ τ κ)
    (h : Stage b₀ lock views c b) (hp : c.phase = .fanout) (hnodup : vs.Nodup)
    (hsub : ∀ i ∈ vs, i ∈ c.todo) (hfits : ∀ i ∈ vs, (views i).Fits) :
    ∃ b', LeadsTo ops b₀.calls.length b vs b' ∧
      Stage b₀ lock (visitedViews ops c.api c.envelope views vs) (visited ops views c vs) b' := by
  induction vs generalizing b c views with
  | nil => exact ⟨b, fun _ _ => Iff.rfl, h⟩
  | cons i vs ih =>
    obtain ⟨hi, hnodup⟩ := List.nodup_cons.mp hnodup
    obtain ⟨b₁, hvisit, hstage⟩ :=
      h.visit ops hp (hsub i List.mem_cons_self) (hfits i List.mem_cons_self)
    have hne : ∀ j ∈ vs, j ≠ i := by
      rintro j hj rfl
      exact hi hj
    -- the other entries are as they were before the visit of `i`
    have hsame : ∀ j ∈ vs, Function.update views i ((views i).visit ops c.api c.envelope).1 j =
        views j := fun j hj => Function.update_of_ne (hne j hj) _ _
    obtain ⟨b', hleads, hstage'⟩ := ih hstage hp hnodup
      (fun j hj => (List.mem_erase_of_ne (hne j hj)).mpr (hsub j (List.mem_cons_of_mem i hj)))
      (fun j hj => by rw [hsame j hj]; exact hfits j (List.mem_cons_of_mem i hj))
    refine ⟨b', (leadsTo_visit h.call hvisit).trans hleads, ?_⟩
    have hviews : visitedViews ops c.api c.envelope
          (Function.update views i ((views i).visit ops c.api c.envelope).1) vs =
        visitedViews ops c.api c.envelope views (i :: vs) := by
      funext j
      unfold visitedViews
      by_cases hj : j = i
      · subst hj
        simp [hi]
      · simp [hj]
    rw [visited_congr hsame] at hstage'
    rw [← hviews]
    exact hstage'

/-! ### The matches of a `publish` -/

omit [DecidableEq κ] in
/-- The send of a match, up to the outcome. -/
theorem Stage.send {m : Match} {gs : List Match} (ops : BusOps δ τ κ)
    (h : Stage b₀ none views c b) (hp : c.phase = .send) (hg : c.guards = m :: gs)
    (outcome : SendResult)
    (hout : b.sendMatch b₀.calls.length c m =
      b₁.setCall b₀.calls.length { c with phase := .commit outcome })
    (htouch : Touches m.id l b b₁) :
    ∃ b', b.advance ops b₀.calls.length = some b' ∧
      Stage b₀ none (Function.update views m.id l) { c with phase := .commit outcome } b' := by
  refine ⟨_, ?_, h.touch htouch _⟩
  rw [← hout]
  unfold advance
  rw [h.call]
  simp [hp, hg]

omit [DecidableEq κ] in
/-- The commit of a match. -/
theorem Stage.commit {m : Match} {gs : List Match} {outcome : SendResult} {c₁ : Call δ}
    (ops : BusOps δ τ κ) (h : Stage b₀ none views c b) (hp : c.phase = .commit outcome)
    (hg : c.guards = m :: gs)
    (hout : b.commitMatch b₀.calls.length c m gs outcome = b₁.setCall b₀.calls.length c₁)
    (htouch : Touches m.id l b b₁) :
    ∃ b', b.advance ops b₀.calls.length = some b' ∧
      Stage b₀ none (Function.update views m.id l) c₁ b' := by
  refine ⟨_, ?_, h.touch htouch _⟩
  rw [← hout]
  unfold advance
  rw [h.call]
  simp [hp, hg, h.lock]

end Stages

namespace Local

/-- `commitDelivered` on the part of one subscription. -/
def commitDelivered (env : EventEnvelope δ) (l : Local δ τ) : Local δ τ :=
  match l.entry with
  | none => l
  | some sub =>
    let l := { l with entry := some (sub.deliver env.position) }
    if (sub.deliver env.position).exhausted then l.remove else l

/-- `refundClaim` on the part of one subscription. -/
def refundClaim (l : Local δ τ) : Local δ τ :=
  match l.entry with
  | none => l
  | some sub => { l with entry := some sub.refund }

/-- `commitDisconnect` on the part of one subscription. -/
def commitDisconnect (l : Local δ τ) : Local δ τ :=
  match l.entry with
  | none => l
  | some sub => (l.fireNotice sub).remove

/-- The send and the commit of a match, on the part of one subscription. -/
def settle (env : EventEnvelope δ) (policy : SlowConsumerPolicy) (l : Local δ τ) :
    Local δ τ × Delta :=
  match l.mpsc.trySend env with
  | .ok q => ({ l with mpsc := q }.commitDelivered env, { delivered := 1 })
  | .error .closed => (l.remove, {})
  | .error .full =>
    match policy with
    | .disconnect => (l.commitDisconnect, { disconnected := true })
    | _ => (l.refundClaim, { dropped := 1 })

end Local

section Settle

variable (b : Bus δ τ) (i : SubscriptionId)

theorem touches_commitDelivered (env : EventEnvelope δ) :
    Touches i ((b.view i).commitDelivered env) b (b.commitDelivered i env) := by
  unfold commitDelivered Local.commitDelivered
  have hentry : (b.view i).entry = b.subs i := rfl
  rw [hentry]
  cases b.subs i with
  | none => exact b.touches_refl i
  | some sub =>
    have hset := b.touches_setSub i (sub.deliver env.position)
    dsimp only
    split
    · have hremove := (b.setSub i (sub.deliver env.position)).touches_remove i
      rw [hset.self] at hremove
      exact hset.trans hremove
    · exact hset

theorem touches_refundClaim : Touches i (b.view i).refundClaim b (b.refundClaim i) := by
  unfold refundClaim Local.refundClaim
  have hentry : (b.view i).entry = b.subs i := rfl
  rw [hentry]
  cases b.subs i with
  | none => exact b.touches_refl i
  | some sub => exact b.touches_setSub i sub.refund

theorem touches_commitDisconnect :
    Touches i (b.view i).commitDisconnect b (b.commitDisconnect i) := by
  unfold commitDisconnect Local.commitDisconnect
  have hentry : (b.view i).entry = b.subs i := rfl
  rw [hentry]
  cases b.subs i with
  | none => exact b.touches_refl i
  | some sub =>
    have hfire := b.touches_fireNotice i sub
    have hremove := (b.fireNotice i sub).touches_remove i
    rw [hfire.self] at hremove
    exact hfire.trans hremove

end Settle

section Matches

variable {ops : BusOps δ τ κ} {b₀ b : Bus δ τ} {c : Call δ} {views : SubscriptionId → Local δ τ}

/-- The call after the outcome of a match is counted. -/
def addResult (c : Call δ) (i : SubscriptionId) (d : Delta) : Call δ :=
  { c with result := addTally c.result (fun _ => d) [i] }

/-- What the phase and the guards were does not matter after a commit. -/
theorem afterMatch_congr {c d : Call δ} (gs : List Match)
    (h : ({ c with phase := .check, guards := [] } : Call δ) =
      { d with phase := .check, guards := [] }) :
    afterMatch c gs = afterMatch d gs := by
  have hphase : ∀ c : Call δ,
      afterMatch c gs = afterMatch { c with phase := .check, guards := [] } gs := by
    intro c
    cases gs <;> rfl
  rw [hphase c, hphase d, h]

/-- A send with its commit: together they apply `f` to what the send leaves of the subscription. -/
theorem Stage.sendCommit {m : Match} {gs : List Match} {l : Local δ τ} {b₁ : Bus δ τ}
    (ops : BusOps δ τ κ) (outcome : SendResult) (f : Local δ τ → Local δ τ) (d : Delta)
    (h : Stage b₀ none views c b) (hp : c.phase = .send) (hg : c.guards = m :: gs)
    (hsend : b.sendMatch b₀.calls.length c m =
      b₁.setCall b₀.calls.length { c with phase := .commit outcome })
    (htouch : Touches m.id l b b₁)
    (hcommit : ∀ b : Bus δ τ, ∃ b₂ c₂, b.commitMatch b₀.calls.length
        { c with phase := .commit outcome } m gs outcome =
          b₂.setCall b₀.calls.length (afterMatch c₂ gs) ∧
        ({ c₂ with phase := .check, guards := [] } : Call δ) =
          { addResult c m.id d with phase := .check, guards := [] } ∧
        Touches m.id (f (b.view m.id)) b b₂) :
    ∃ b₂, LeadsTo ops b₀.calls.length b [] b₂ ∧
      Stage b₀ none (Function.update views m.id (f l)) (afterMatch (addResult c m.id d) gs) b₂ := by
  obtain ⟨b₁, h₁, hstage₁⟩ := h.send ops hp hg outcome hsend htouch
  obtain ⟨b₂, c₂, hout, hcall, htouch₂⟩ := hcommit b₁
  rw [afterMatch_congr gs hcall] at hout
  obtain ⟨b₃, h₂, hstage₂⟩ := hstage₁.commit ops rfl hg hout htouch₂
  rw [hstage₁.views, Function.update_self, Function.update_idem] at hstage₂
  exact ⟨b₃, (leadsTo_advance h.call h₁).trans (leadsTo_advance hstage₁.call h₂), hstage₂⟩

/-- One match: the send and its commit. -/
theorem Stage.settle {m : Match} {gs : List Match} (ops : BusOps δ τ κ)
    (h : Stage b₀ none views c b) (hp : c.phase = .send) (hg : c.guards = m :: gs)
    (hpolicy : m.slowConsumerPolicy = .disconnect ∨ m.slowConsumerPolicy = .dropNewest) :
    ∃ b₂, LeadsTo ops b₀.calls.length b [] b₂ ∧
      Stage b₀ none
        (Function.update views m.id ((views m.id).settle c.envelope m.slowConsumerPolicy).1)
        (afterMatch (addResult c m.id
          ((views m.id).settle c.envelope m.slowConsumerPolicy).2) gs) b₂ := by
  have hviews := h.views
  subst hviews
  have hsend : (b.view m.id).mpsc.trySend c.envelope = (b.mpsc m.id).trySend c.envelope := rfl
  unfold Local.settle
  rw [hsend]
  -- the receiver may have gone since the claim, and the queue may be full
  cases hsent : (b.mpsc m.id).trySend c.envelope with
  | ok q =>
    refine Stage.sendCommit ops .delivered (Local.commitDelivered c.envelope) { delivered := 1 }
      h hp hg (by simp [sendMatch, hsent]) (b.touches_setMpsc m.id q) fun b =>
        ⟨(b.commitDelivered m.id c.envelope).recordCommit m.id, _, rfl, ?_, ?_⟩
    · simp [addResult, addTally]
    · have htouch := b.touches_commitDelivered m.id c.envelope
      rw [← htouch.self]
      exact htouch.trans (touches_recordCommit _ _)
  | error err =>
    cases err with
    | closed =>
      refine Stage.sendCommit ops .closed Local.remove {} h hp hg (by simp [sendMatch, hsent])
        (b.touches_refl m.id) fun b => ⟨b.remove m.id, _, rfl, ?_, b.touches_remove m.id⟩
      simp [addResult, addTally]
    | full =>
      rcases hpolicy with hpolicy | hpolicy
      · rw [hpolicy]
        refine Stage.sendCommit ops .disconnectSlowConsumer Local.commitDisconnect
          { disconnected := true } h hp hg (by simp [sendMatch, hsent, hpolicy])
          (b.touches_refl m.id)
          fun b => ⟨b.commitDisconnect m.id, _, rfl, ?_, b.touches_commitDisconnect m.id⟩
        simp [addResult, addTally]
      · rw [hpolicy]
        refine Stage.sendCommit ops .dropped Local.refundClaim { dropped := 1 } h hp hg
          (by simp [sendMatch, hsent, hpolicy]) (b.touches_refl m.id)
          fun b => ⟨b.refundClaim m.id, _, rfl, ?_, b.touches_refundClaim m.id⟩
        simp [addResult, addTally]

/-- The settled part of a subscription, if it was claimed, and what settling it adds. -/
def settled (env : EventEnvelope δ) (claimed : SubscriptionId → Option SlowConsumerPolicy)
    (views : SubscriptionId → Local δ τ) (i : SubscriptionId) : Local δ τ × Delta :=
  match claimed i with
  | some policy => (views i).settle env policy
  | none => (views i, {})

/-- **The matches of a `publish`**, one after the other. -/
theorem Stage.settles (ops : BusOps δ τ κ) (claimed : SubscriptionId → Option SlowConsumerPolicy)
    {vs : List SubscriptionId} (hnodup : vs.Nodup)
    (hpolicy : ∀ i ∈ vs, ∀ policy, claimed i = some policy →
      policy = .disconnect ∨ policy = .dropNewest)
    (h : Stage b₀ none views
      (afterMatch c (vs.filterMap fun i => (claimed i).map (Match.mk i))) b) :
    ∃ b', LeadsTo ops b₀.calls.length b [] b' ∧
      Stage b₀ none (fun i => if i ∈ vs then (settled c.envelope claimed views i).1 else views i)
        (afterMatch
          { c with
            result := addTally c.result (fun i => (settled c.envelope claimed views i).2) vs }
          []) b' := by
  -- induction on the entries that are visited, in the order of their guards
  induction vs generalizing b c views with
  | nil => exact ⟨b, fun _ _ => Iff.rfl, by simpa [addTally] using h⟩
  | cons i vs ih =>
    obtain ⟨hi, hnodup⟩ := List.nodup_cons.mp hnodup
    have hpolicy' := fun j hj => hpolicy j (List.mem_cons_of_mem i hj)
    cases hclaim : claimed i with
    | none =>
      -- a claim that was not made leaves the entry and the tally as they are
      rw [List.filterMap_cons, hclaim] at h
      obtain ⟨b', hleads, hstage⟩ := ih hnodup hpolicy' h
      refine ⟨b', hleads, ?_⟩
      have hself : settled c.envelope claimed views i = (views i, {}) := by
        simp [settled, hclaim]
      have hviews : (fun j => if j ∈ i :: vs then (settled c.envelope claimed views j).1
            else views j) =
          fun j => if j ∈ vs then (settled c.envelope claimed views j).1 else views j := by
        funext j
        by_cases hj : j = i
        · subst hj
          simp [hself]
        · simp [hj]
      rw [hviews, addTally_cons, hself, addTally_empty]
      exact hstage
    | some policy =>
      -- the guard at the head is settled first, and it touches no entry of the rest
      rw [List.filterMap_cons, hclaim] at h
      obtain ⟨b₂, hleads₂, hstage₂⟩ := h.settle ops rfl rfl
        (hpolicy i List.mem_cons_self policy hclaim)
      have hself : settled c.envelope claimed views i = (views i).settle c.envelope policy := by
        simp [settled, hclaim]
      have hne : ∀ j ∈ vs, j ≠ i := by
        rintro j hj rfl
        exact hi hj
      have hsame : ∀ j ∈ vs, settled c.envelope claimed
          (Function.update views i ((views i).settle c.envelope policy).1) j =
            settled c.envelope claimed views j := by
        intro j hj
        simp only [settled, Function.update_of_ne (hne j hj)]
      have hcall := afterMatch_congr (vs.filterMap fun i => (claimed i).map (Match.mk i))
        (c := addResult (afterMatch c (Match.mk i policy :: vs.filterMap fun i =>
          (claimed i).map (Match.mk i))) i ((views i).settle c.envelope policy).2)
        (d := addResult c i ((views i).settle c.envelope policy).2) rfl
      obtain ⟨b', hleads, hstage⟩ := ih hnodup hpolicy' (hcall ▸ hstage₂)
      refine ⟨b', hleads₂.trans hleads, ?_⟩
      have hviews : (fun j => if j ∈ i :: vs then (settled c.envelope claimed views j).1
            else views j) =
          fun j => if j ∈ vs then (settled c.envelope claimed
            (Function.update views i ((views i).settle c.envelope policy).1) j).1
            else Function.update views i ((views i).settle c.envelope policy).1 j := by
        -- the entries after the first one are those of the rest, seen from the state in between
        funext j
        by_cases hj : j = i
        · subst hj
          simp [hi, hself]
        · by_cases hmem : j ∈ vs
          · simp [hmem, hsame j hmem]
          · simp [hj, hmem]
      rw [hviews, addTally_cons, hself, ← addTally_congr fun j hj => congrArg Prod.snd (hsame j hj)]
      exact hstage

end Matches

/-! ### A whole run -/

/-- A caller starts a call. -/
def start (b : Bus δ τ) (api : PublishApi) (env : EventEnvelope δ) : Bus δ τ :=
  { b with calls := b.calls ++ [{ api, envelope := env }] }

/-- The bus once the replay cache has recorded the envelope. -/
def recorded (b : Bus δ τ) (env : EventEnvelope δ) : Bus δ τ :=
  { b with
    replayCache := (b.replayCache.record env).1
    registry := match (b.replayCache.record env).2 with
      | some id => b.registry.evict id
      | none => b.registry }

section Run

variable (ops : BusOps δ τ κ) {b : Bus δ τ} (api : PublishApi) (env : EventEnvelope δ)

/-- The new call advances, which sets it and some of the rest. -/
theorem leadsTo_setCall {b₁ b₂ : Bus δ τ} {c : Call δ} (hcalls : b₁.calls = b.calls ++ [c])
    (hs : b₁.advance ops b.calls.length = some b₂) : LeadsTo ops b.calls.length b₁ [] b₂ :=
  leadsTo_advance (c := c) (by simp [hcalls]) hs

/-- An envelope that is too large is rejected, and the registry forgets it. -/
theorem leadsTo_rejected (hsize : b.maxEventSize < ops.serializedSize env) :
    LeadsTo ops b.calls.length (b.start api env) []
      { b with
        registry := b.registry.evict env.eventId
        calls := b.calls ++ [{ api, envelope := env,
                               phase := .rejected (.tooLarge b.maxEventSize) }] } := by
  have hcheck : (b.start api env).advance ops b.calls.length =
      some { b with calls := b.calls ++
        [{ api, envelope := env, phase := .reject b.maxEventSize }] } := by
    simp [advance, start, hsize, setCall]
  refine (leadsTo_setCall ops rfl hcheck).trans (leadsTo_setCall ops rfl ?_)
  simp [advance, setCall]

/-- Up to the mutex both calls do the same. -/
theorem leadsTo_acquire (hsize : ¬ b.maxEventSize < ops.serializedSize env) :
    LeadsTo ops b.calls.length (b.start api env) []
      { b.recorded env with
        calls := b.calls ++ [{ api, envelope := env, phase := .acquire }] } := by
  have hcheck : (b.start api env).advance ops b.calls.length =
      some { b with calls := b.calls ++ [{ api, envelope := env, phase := .record }] } := by
    -- the ring is written before the registry hears which id fell out of it
    simp [advance, start, hsize, setCall]
  refine (leadsTo_setCall ops rfl hcheck).trans ?_
  cases hevict : (b.replayCache.record env).2 with
  | none =>
    refine leadsTo_setCall ops rfl ?_
    simp [advance, recorded, hevict, setCall]
  | some id =>
    have hring : LeadsTo ops b.calls.length
        { b with calls := b.calls ++ [{ api, envelope := env, phase := .record }] } []
        { b with
          replayCache := (b.replayCache.record env).1
          calls := b.calls ++ [{ api, envelope := env, phase := .evict id }] } := by
      refine leadsTo_setCall ops rfl ?_
      simp [advance, hevict, setCall]
    refine hring.trans (leadsTo_setCall ops rfl ?_)
    simp [advance, recorded, hevict, setCall]

/-- The loop starts when the mutex is free. -/
theorem leadsTo_fanout (hlock : b.lock = none)
    (hsize : ¬ b.maxEventSize < ops.serializedSize env) :
    ∃ b', LeadsTo ops b.calls.length (b.start api env) [] b' ∧
      Stage (b.recorded env) (some b.calls.length) b.view
        { api, envelope := env, phase := .fanout, todo := b.keys } b' := by
  have hacquire : LeadsTo ops b.calls.length
      { b.recorded env with calls := b.calls ++ [{ api, envelope := env, phase := .acquire }] } []
      { b.recorded env with
        lock := some b.calls.length
        calls := b.calls ++ [{ api, envelope := env, phase := .fanout, todo := b.keys }] } := by
    refine leadsTo_setCall ops rfl ?_
    simp [advance, recorded, hlock, setCall, keys]
  exact ⟨_, (leadsTo_acquire ops api env hsize).trans hacquire, ⟨rfl, rfl, rfl, rfl, rfl, rfl, rfl⟩⟩

/-- A call that is accepted runs to its end alone only when the mutex is free. -/
theorem lock_of_runsAlone (hsize : ¬ b.maxEventSize < ops.serializedSize env)
    {vs : List SubscriptionId} {b' : Bus δ τ}
    (h : RunsAlone ops b.calls.length (b.start api env) vs b') : b.lock = none := by
  have hrest := (leadsTo_acquire ops api env hsize vs b').mp (by rwa [List.nil_append])
  have hcall : ({ b.recorded env with
      calls := b.calls ++ [{ api, envelope := env, phase := .acquire }] } : Bus δ τ).calls[
        b.calls.length]? = some { api, envelope := env, phase := .acquire } := by
    simp
  by_contra hlock
  cases hrest with
  | done c hc hended =>
    rw [hcall, Option.some.injEq] at hc
    subst hc
    cases hended
  | advance hs =>
    have hwait : advance ops { b.recorded env with
        calls := b.calls ++ [{ api, envelope := env, phase := .acquire }] } b.calls.length =
          none := by
      simp [advance, recorded, hlock]
    exact absurd (hwait.symm.trans hs) (by simp)
  | visit hs => exact absurd (phase_of_visit hcall hs) (by simp)

/-- What a call that runs alone makes of the part of one subscription, with what the loop and what
the sends add to the result. -/
def Local.alone (l : Local δ τ) : Local δ τ × Delta × Delta :=
  let v := l.visit ops api env
  let l' := if v.2.removed then v.1.reap else v.1
  match v.2.claimed with
  | some policy => ((l'.settle env policy).1, v.2, (l'.settle env policy).2)
  | none => (l', v.2, {})

theorem alone_visit (l : Local δ τ) : (l.alone ops api env).2.1 = (l.visit ops api env).2 := by
  unfold Local.alone
  dsimp only
  split <;> rfl

/-- What the sends find of a visited subscription is what the loop left of it. -/
theorem settled_loop {views : SubscriptionId → Local δ τ} {vs : List SubscriptionId}
    {i : SubscriptionId} (hi : i ∈ vs) :
    settled env (fun i => ((views i).visit ops api env).2.claimed)
        (fun i => if i ∈ vs.filter (fun i => ((views i).visit ops api env).2.removed)
          then (visitedViews ops api env views vs i).reap
          else visitedViews ops api env views vs i) i =
      (((views i).alone ops api env).1, ((views i).alone ops api env).2.2) := by
  unfold settled Local.alone
  cases hclaim : ((views i).visit ops api env).2.claimed with
  | none => simp [visitedViews, hi, hclaim]
  | some policy => simp [visitedViews, hi, hclaim]

theorem keys_nodup (b : Bus δ τ) : b.keys.Nodup := List.nodup_range.filter _

/-- **A whole run**: every visited subscription becomes what `Local.alone` says. -/
theorem leadsTo_returned {vs : List SubscriptionId} (hperm : vs.Perm b.keys)
    (hlock : b.lock = none) (hsize : ¬ b.maxEventSize < ops.serializedSize env)
    (hfits : ∀ i, (b.view i).Fits)
    (hpolicy : ∀ i policy, ((b.view i).visit ops api env).2.claimed = some policy →
      policy = .disconnect ∨ policy = .dropNewest) :
    ∃ b' c, LeadsTo ops b.calls.length (b.start api env) vs b' ∧
      Stage (b.recorded env) none
        (fun i => if i ∈ vs then ((b.view i).alone ops api env).1 else b.view i) c b' ∧
      c.phase = .returned (addTally
        (addTally {} (fun i => ((b.view i).alone ops api env).2.1) vs)
        (fun i => ((b.view i).alone ops api env).2.2) vs) := by
  have hnodup : vs.Nodup := hperm.nodup_iff.mpr b.keys_nodup
  -- up to the loop, through it, out of it, and then the guards one by one
  obtain ⟨b₁, hleads₁, hstage₁⟩ := leadsTo_fanout ops api env hlock hsize
  obtain ⟨b₂, hleads₂, hstage₂⟩ := hstage₁.visits ops rfl hnodup
    (fun i hi => hperm.mem_iff.mp hi) (fun i _ => hfits i)
  have htodo : b.keys.diff vs = [] := by
    rw [List.Nodup.sdiff_eq_filter b.keys_nodup, List.filter_eq_nil_iff]
    intro i hi
    simpa using hperm.mem_iff.mpr hi
  rw [visited_eq] at hstage₂
  dsimp only [List.nil_append] at hstage₂
  obtain ⟨b₃, hadvance, hstage₃⟩ := hstage₂.finish ops rfl htodo
  dsimp only at hstage₃
  obtain ⟨b₄, hleads₄, hstage₄⟩ := hstage₃.settles ops
    (fun i => ((b.view i).visit ops api env).2.claimed) hnodup (fun i _ => hpolicy i)
  have hleads := ((hleads₁.trans hleads₂).trans (leadsTo_advance hstage₂.call hadvance)).trans
    hleads₄
  rw [List.nil_append, List.append_nil, List.append_nil] at hleads
  -- entries out of the visiting order were not touched
  have hviews : b₄.view =
      fun i => if i ∈ vs then ((b.view i).alone ops api env).1 else b.view i := by
    rw [hstage₄.views]
    funext i
    by_cases hi : i ∈ vs
    · simp only [hi, if_true]
      exact congrArg Prod.fst (settled_loop ops api env hi)
    · simp [hi, visitedViews]
  refine ⟨b₄, _, hleads, { hstage₄ with views := hviews }, ?_⟩
  show Phase.returned _ = _
  rw [addTally_congr fun i hi => congrArg Prod.snd (settled_loop ops api env hi)]
  simp only [alone_visit]

/-- The call has left its loop. -/
def pastLoop : Phase → Bool
  | .check | .reject _ | .record | .evict _ | .acquire | .fanout => false
  | _ => true

omit [DecidableEq κ] in
/-- Once a call has left its loop it does not go back. -/
theorem pastLoop_advance {b b' : Bus δ τ} {k : ℕ} {c : Call δ} (hk : b.calls[k]? = some c)
    (hp : pastLoop c.phase = true ∨ c.phase = .fanout) (hs : b.advance ops k = some b') :
    ∃ c', b'.calls[k]? = some c' ∧ pastLoop c'.phase = true := by
  obtain ⟨c₀, hk₀, hadv⟩ := advance_cases hs
  obtain rfl : c = c₀ := Option.some.inj (hk.symm.trans hk₀)
  have hlt : k < b.calls.length := (List.getElem?_eq_some_iff.mp hk).1
  -- what follows a guard is the next guard or the return
  have hafter : ∀ (c : Call δ) (gs : List Match), pastLoop (afterMatch c gs).phase = true := by
    intro c gs
    cases gs <;> rfl
  have hset : ∀ (b₁ : Bus δ τ) (c' : Call δ), b₁.calls = b.calls →
      (b₁.setCall k c').calls[k]? = some c' := by
    intro b₁ c' hcalls
    simp [setCall, hcalls, hlt]
  -- no step leads back into the loop
  cases hadv with
  | tooLarge hphase | fits hphase | reject _ hphase | record _ hphase | evict _ hphase
  | acquire hphase => simp [hphase, pastLoop] at hp
  | finish => exact ⟨_, hset _ _ (by simp), hafter _ _⟩
  | send m gs =>
    unfold sendMatch
    split
    · exact ⟨_, hset _ _ rfl, rfl⟩
    · exact ⟨_, hset _ _ rfl, rfl⟩
    · split <;> exact ⟨_, hset _ _ rfl, rfl⟩
  | permit | awaitClosed | push | unwound => exact ⟨_, hset _ _ rfl, rfl⟩
  | commit m gs outcome =>
    cases outcome with
    | delivered => exact ⟨_, hset _ _ (by simp [recordCommit]), hafter _ _⟩
    | dropped | disconnectSlowConsumer | closed => exact ⟨_, hset _ _ (by simp), hafter _ _⟩
  | dropGuard m gs hphase => exact ⟨_, hset _ _ (by simp), by simp [hphase, pastLoop]⟩

/-- Past its loop a call visits nothing. -/
theorem visits_nil_of_pastLoop {b b' : Bus δ τ} {k : ℕ} {vs : List SubscriptionId}
    (h : RunsAlone ops k b vs b') {c : Call δ} (hk : b.calls[k]? = some c)
    (hp : pastLoop c.phase = true) : vs = [] := by
  induction h generalizing c with
  | done => rfl
  | advance hs _ ih =>
    obtain ⟨c', hk', hp'⟩ := pastLoop_advance ops hk (.inl hp) hs
    exact ih hk' hp'
  | visit hs _ =>
    rw [(phase_of_visit hk hs).1] at hp
    cases hp

/-- A run visits every entry once. -/
theorem Stage.visits_perm {b₀ b b' : Bus δ τ} {lock : Option ℕ} {c : Call δ}
    {views : SubscriptionId → Local δ τ} {vs : List SubscriptionId} (h : Stage b₀ lock views c b)
    (hp : c.phase = .fanout) (hnodup : c.todo.Nodup) (hfits : ∀ i ∈ c.todo, (views i).Fits)
    (hrun : RunsAlone ops b₀.calls.length b vs b') : vs.Perm c.todo := by
  -- induction on the visits that the run has still to make
  induction vs generalizing b c views with
  | nil =>
    cases hrun with
    | done c' hk hended =>
      obtain rfl : c = c' := Option.some.inj (h.call.symm.trans hk)
      rw [hp] at hended
      cases hended
    | advance hs _ => rw [todo_of_advance h.call hp hs]
  | cons i vs ih =>
    cases hrun with
    | advance hs hrun =>
      -- once out of the loop a call visits nothing
      obtain ⟨c', hk', hp'⟩ := pastLoop_advance ops h.call (.inr hp) hs
      cases visits_nil_of_pastLoop ops hrun hk' hp'
    | visit hs hrun =>
      obtain ⟨-, hi⟩ := phase_of_visit h.call hs
      obtain ⟨b₁, hs', hstage⟩ := h.visit ops hp hi (hfits i hi)
      obtain rfl : b₁ = _ := Option.some.inj (hs'.symm.trans hs)
      have hrest := ih hstage hp (hnodup.erase i) (fun j hj => ?_) hrun
      · exact (hrest.cons i).trans (List.perm_cons_erase hi).symm
      · have hmem := (hnodup.mem_erase_iff).mp hj
        rw [Function.update_of_ne hmem.1]
        exact hfits j hmem.2

end Run

/-! ### The two calls agree -/

/-- What `publish` adds with its loop and its sends, `try_publish` adds with its loop. -/
structure SameDeltas (p t : Delta × Delta) : Prop where
  delivered : p.1.delivered + p.2.delivered = t.1.delivered + t.2.delivered
  dropped : p.1.dropped + p.2.dropped = t.1.dropped + t.2.dropped
  coalesced : p.1.coalesced + p.2.coalesced = t.1.coalesced + t.2.coalesced
  /-- A `publish` disconnects when it sends, a `try_publish` in its loop. -/
  disconnected : p.1.disconnected = false ∧ t.2.disconnected = false ∧
    p.2.disconnected = t.1.disconnected

/-- Two tallies whose deltas add up alike at each subscription visited add up alike over all of
them. -/
theorem SameDeltas.addTally {p t : SubscriptionId → Delta × Delta} {vs : List SubscriptionId}
    (h : ∀ i ∈ vs, SameDeltas (p i) (t i)) (r : PublishResult) :
    Bus.addTally (Bus.addTally r (fun i => (p i).1) vs) (fun i => (p i).2) vs =
      Bus.addTally (Bus.addTally r (fun i => (t i).1) vs) (fun i => (t i).2) vs := by
  have hsum : ∀ f g : Delta → ℕ, (∀ i ∈ vs, f (p i).1 + f (p i).2 = g (t i).1 + g (t i).2) →
      (vs.map fun i => f (p i).1).sum + (vs.map fun i => f (p i).2).sum =
        (vs.map fun i => g (t i).1).sum + (vs.map fun i => g (t i).2).sum := by
    intro f g hfg
    rw [← List.sum_map_add, ← List.sum_map_add]
    exact congrArg List.sum (List.map_congr_left hfg)
  have hdelivered := hsum Delta.delivered Delta.delivered fun i hi => (h i hi).delivered
  have hdropped := hsum Delta.dropped Delta.dropped fun i hi => (h i hi).dropped
  have hcoalesced := hsum Delta.coalesced Delta.coalesced fun i hi => (h i hi).coalesced
  have hloop : vs.filter (fun i => (p i).1.disconnected) = [] := by
    rw [List.filter_eq_nil_iff]
    intro i hi
    rw [(h i hi).disconnected.1]
    nofun
  have hsend : vs.filter (fun i => (t i).2.disconnected) = [] := by
    rw [List.filter_eq_nil_iff]
    intro i hi
    rw [(h i hi).disconnected.2.1]
    nofun
  have hsame : vs.filter (fun i => (p i).2.disconnected) =
      vs.filter (fun i => (t i).1.disconnected) :=
    List.filter_congr fun i hi => (h i hi).disconnected.2.2
  unfold Bus.addTally
  simp only [hloop, hsend, hsame, List.append_nil, PublishResult.mk.injEq, and_true]
  omega

/-- A visit without a claim is all there is. -/
theorem Local.alone_of_claimed_none {ops : BusOps δ τ κ} {api : PublishApi} {env : EventEnvelope δ}
    {l : Local δ τ} (h : (l.visit ops api env).2.claimed = none) :
    l.alone ops api env =
      (if (l.visit ops api env).2.removed then (l.visit ops api env).1.reap
        else (l.visit ops api env).1, (l.visit ops api env).2, {}) := by
  simp [Local.alone, h]

/-- Both calls visit in the same way, and neither claims nor disconnects. -/
theorem Local.alone_agree_of_visit {ops : BusOps δ τ κ} {env : EventEnvelope δ} {l : Local δ τ}
    (v : Local δ τ × Delta) (hvisit : ∀ api, l.visit ops api env = v)
    (hclaimed : v.2.claimed = none) (hdisconnected : v.2.disconnected = false) :
    (l.alone ops .publish env).1 = (l.alone ops .tryPublish env).1 ∧
      SameDeltas (l.alone ops .publish env).2 (l.alone ops .tryPublish env).2 := by
  have halone : ∀ api, l.alone ops api env = (if v.2.removed then v.1.reap else v.1, v.2, {}) := by
    intro api
    rw [Local.alone_of_claimed_none (by rw [hvisit]; exact hclaimed), hvisit]
  rw [halone, halone]
  exact ⟨rfl, rfl, rfl, rfl, hdisconnected, rfl, hdisconnected.symm⟩

/-- The part of a subscription with one slot claimed. -/
def Local.withClaim (l : Local δ τ) (sub : SubscriptionInner τ) : Local δ τ :=
  { l with entry := some { sub with remaining := sub.remaining.map (· - 1), inFlight := 1 } }

section Mpsc

variable {env : EventEnvelope δ} {l : Local δ τ} {sub : SubscriptionInner τ}
  (hentry : l.entry = some sub) (hout : sub.outbound = .mpsc) (hidle : sub.inFlight = 0)

include hout hidle in
/-- Committing the one claim is the delivery under the mutex, and both see the last one. -/
theorem Local.commitDelivered_withClaim (q : Mpsc (EventEnvelope δ)) :
    Local.commitDelivered env { l.withClaim sub with mpsc := q } =
      if (sub.deliverNow env.position).remaining = some 0
        then (Local.reap { l with mpsc := q, entry := some (sub.deliverNow env.position) })
        else { l with mpsc := q, entry := some (sub.deliverNow env.position) } := by
  have hdeliver : ({ sub with remaining := sub.remaining.map (· - 1), inFlight := 1 } :
      SubscriptionInner τ).deliver env.position = sub.deliverNow env.position := by
    simp [SubscriptionInner.deliver, SubscriptionInner.deliverNow, hidle]
  have hexhausted : (sub.deliverNow env.position).exhausted = true ↔
      (sub.deliverNow env.position).remaining = some 0 := by
    simp [SubscriptionInner.exhausted, SubscriptionInner.deliverNow, hidle]
  rw [Local.reap_mpsc rfl (show (sub.deliverNow env.position).outbound = .mpsc from hout)]
  simp only [Local.commitDelivered, Local.withClaim, hdeliver, hexhausted]

include hentry hout in
theorem Local.remove_withClaim : (l.withClaim sub).remove = l.reap := by
  rw [Local.reap_mpsc hentry hout]
  simp [Local.remove, Local.withClaim, hentry]

include hentry hout in
theorem Local.commitDisconnect_withClaim :
    (l.withClaim sub).commitDisconnect = (l.fireNotice sub).reap := by
  unfold Local.commitDisconnect Local.withClaim Local.fireNotice
  dsimp only
  split
  · rw [Local.reap_mpsc rfl
      (show ({ sub with slowConsumerNotify := false } : SubscriptionInner τ).outbound = .mpsc
        from hout)]
    rfl
  · rw [Local.reap_mpsc hentry hout]
    simp [Local.remove, hentry]

include hentry hidle in
/-- Giving back a claim just made restores the subscription, where any quota was left to claim. -/
theorem Local.refundClaim_withClaim (hlimit : sub.remaining ≠ some 0) :
    (l.withClaim sub).refundClaim = l := by
  have hremaining : (sub.remaining.map (· - 1)).map (· + 1) = sub.remaining := by
    cases hrem : sub.remaining with
    | none => rfl
    | some n =>
      have hn : n ≠ 0 := by
        rintro rfl
        exact hlimit hrem
      simp only [Option.map_some, Option.some.injEq]
      omega
  obtain ⟨entry, mpsc, coalesce, notify⟩ := l
  obtain rfl : entry = some sub := hentry
  simp only [Local.refundClaim, Local.withClaim, SubscriptionInner.refund, hremaining]
  cases sub
  cases hidle
  rfl

end Mpsc

/-- A bounded channel: the claim of a `publish` and its commit make up one visit of a
`try_publish`. -/
theorem Local.alone_agree_mpsc (ops : BusOps δ τ κ) (env : EventEnvelope δ) {l : Local δ τ}
    {sub : SubscriptionInner τ} (hentry : l.entry = some sub)
    (hmatch : ops.matchesEvent sub.topic env.topic env.data = true) (hout : sub.outbound = .mpsc)
    (hidle : sub.inFlight = 0) (hlimit : sub.remaining ≠ some 0)
    (hpolicy : sub.slowConsumerPolicy = .disconnect ∨ sub.slowConsumerPolicy = .dropNewest) :
    (l.alone ops .publish env).1 = (l.alone ops .tryPublish env).1 ∧
      SameDeltas (l.alone ops .publish env).2 (l.alone ops .tryPublish env).2 := by
  have hclaim : sub.claim =
      some { sub with remaining := sub.remaining.map (· - 1), inFlight := 1 } := by
    unfold SubscriptionInner.claim
    split
    · rename_i h
      exact absurd h hlimit
    · rw [hidle]
  have hpublish : l.alone ops .publish env =
      (((l.withClaim sub).settle env sub.slowConsumerPolicy).1,
        { claimed := some sub.slowConsumerPolicy },
        ((l.withClaim sub).settle env sub.slowConsumerPolicy).2) := by
    simp [Local.alone, Local.visit, hentry, hmatch, hout, Local.visitPublish, hclaim,
      Local.withClaim]
  have htry : l.visit ops .tryPublish env = l.visitTryPublish env sub := by
    simp [Local.visit, hentry, hmatch, hout]
  have hmpsc : (l.withClaim sub).mpsc = l.mpsc := rfl
  rw [hpublish]
  cases hsent : l.mpsc.trySend env with
  | ok q =>
    have hsettle : (l.withClaim sub).settle env sub.slowConsumerPolicy =
        (Local.commitDelivered env { l.withClaim sub with mpsc := q }, { delivered := 1 }) := by
      simp only [Local.settle, hmpsc, hsent]
    have hvisit : l.visit ops .tryPublish env =
        ({ l with mpsc := q, entry := some (sub.deliverNow env.position) },
          { delivered := 1
            removed := decide ((sub.deliverNow env.position).remaining = some 0) }) := by
      rw [htry]
      simp only [Local.visitTryPublish, hsent, Local.deliverNow]
    rw [hsettle, Local.alone_of_claimed_none (by rw [hvisit]), hvisit,
      Local.commitDelivered_withClaim hout hidle]
    exact ⟨by simp only [decide_eq_true_eq], rfl, rfl, rfl, rfl, rfl, rfl⟩
  | error err =>
    cases err with
    | closed =>
      have hsettle : (l.withClaim sub).settle env sub.slowConsumerPolicy =
          ((l.withClaim sub).remove, {}) := by
        simp only [Local.settle, hmpsc, hsent]
      have hvisit : l.visit ops .tryPublish env = (l, { removed := true }) := by
        rw [htry]
        simp only [Local.visitTryPublish, hsent]
      rw [hsettle, Local.alone_of_claimed_none (by rw [hvisit]), hvisit,
        Local.remove_withClaim hentry hout]
      exact ⟨rfl, rfl, rfl, rfl, rfl, rfl, rfl⟩
    | full =>
      rcases hpolicy with hpolicy | hpolicy
      · have hsettle : (l.withClaim sub).settle env sub.slowConsumerPolicy =
            ((l.withClaim sub).commitDisconnect, { disconnected := true }) := by
          simp only [Local.settle, hmpsc, hsent, hpolicy]
        have hvisit : l.visit ops .tryPublish env =
            (l.fireNotice sub, { disconnected := true, removed := true }) := by
          rw [htry]
          simp only [Local.visitTryPublish, hsent, hpolicy]
        rw [hsettle, Local.alone_of_claimed_none (by rw [hvisit]), hvisit,
          Local.commitDisconnect_withClaim hentry hout]
        exact ⟨rfl, rfl, rfl, rfl, rfl, rfl, rfl⟩
      · have hsettle : (l.withClaim sub).settle env sub.slowConsumerPolicy =
            ((l.withClaim sub).refundClaim, { dropped := 1 }) := by
          simp only [Local.settle, hmpsc, hsent, hpolicy]
        have hvisit : l.visit ops .tryPublish env = (l, { dropped := 1 }) := by
          rw [htry]
          simp only [Local.visitTryPublish, hsent, hpolicy]
        rw [hsettle, Local.alone_of_claimed_none (by rw [hvisit]), hvisit,
          Local.refundClaim_withClaim hentry hidle hlimit]
        exact ⟨rfl, rfl, rfl, rfl, rfl, rfl, rfl⟩

/-- **On one subscription the two calls do the same**, when nothing is in flight, no quota is used
up and the policy is not the one that waits. -/
theorem Local.alone_agree (ops : BusOps δ τ κ) (env : EventEnvelope δ) {l : Local δ τ}
    (hfits : l.Fits) (hidle : ∀ sub, l.entry = some sub → sub.inFlight = 0)
    (hlimit : ∀ sub, l.entry = some sub → sub.remaining ≠ some 0)
    (hwait : ∀ sub, l.entry = some sub → ops.matchesEvent sub.topic env.topic env.data = true →
      sub.slowConsumerPolicy ≠ .backpressure) :
    (l.alone ops .publish env).1 = (l.alone ops .tryPublish env).1 ∧
      SameDeltas (l.alone ops .publish env).2 (l.alone ops .tryPublish env).2 := by
  cases hentry : l.entry with
  | none =>
    exact Local.alone_agree_of_visit (l, {}) (fun api => by simp [Local.visit, hentry]) rfl rfl
  | some sub =>
    by_cases hmatch : ops.matchesEvent sub.topic env.topic env.data = true
    · cases hout : sub.outbound with
      | coalesce =>
        refine Local.alone_agree_of_visit (l.visitCoalesce ops env sub)
          (fun api => by simp [Local.visit, hentry, hmatch, hout]) ?_ ?_
        all_goals
          unfold Local.visitCoalesce
          dsimp only
          split <;> rfl
      | mpsc =>
        refine Local.alone_agree_mpsc ops env hentry hmatch hout (hidle sub hentry)
          (hlimit sub hentry) ?_
        have hfit := hfits sub hentry
        have hne := hwait sub hentry hmatch
        cases hpolicy : sub.slowConsumerPolicy with
        | disconnect => exact .inl rfl
        | dropNewest => exact .inr rfl
        | backpressure => exact absurd hpolicy hne
        | coalesce path =>
          rw [hout, hpolicy] at hfit
          cases hfit
    · exact Local.alone_agree_of_visit (l, {})
        (fun api => by simp [Local.visit, hentry, hmatch]) rfl rfl

/-! ### A bus on which nothing is in flight -/

/-- The phases of a call without a claim. -/
def claimless : Phase → Bool
  | .check | .reject _ | .record | .evict _ | .acquire | .returned _ | .rejected _
  | .cancelled => true
  | _ => false

/-- What the calls in progress account for: the mutex, the guards and the counts of claims. -/
structure Accounted (b : Bus δ τ) : Prop where
  lock : ∀ k, b.lock = some k →
    ∃ c, b.calls[k]? = some c ∧ (c.phase = .fanout ∨ c.phase = .panicked)
  guards : ∀ c ∈ b.calls, claimless c.phase = true → c.guards = []
  inFlight : ∀ i sub, b.subs i = some sub → sub.inFlight = (b.ledger i).outstanding

section Accounted

variable {ops : BusOps δ τ κ} {b b' : Bus δ τ} {a : BusAction δ τ}

theorem Touches.lock {i : SubscriptionId} {l : Local δ τ} (h : Touches i l b b') :
    b'.lock = b.lock := by
  have hrest := h.rest
  simp only [Bus.rest, Bus.mk.injEq] at hrest
  obtain ⟨-, -, -, -, -, hlock, -⟩ := hrest
  exact hlock

theorem lock_commitMatch (k : ℕ) (c : Call δ) (m : Match) (gs : List Match) (o : SendResult) :
    (b.commitMatch k c m gs o).lock = b.lock := by
  cases o with
  | delivered => exact (b.touches_commitDelivered m.id c.envelope).lock
  | dropped => exact (b.touches_refundClaim m.id).lock
  | disconnectSlowConsumer => exact (b.touches_commitDisconnect m.id).lock
  | closed => exact (b.touches_remove m.id).lock

theorem lock_sendMatch (k : ℕ) (c : Call δ) (m : Match) : (b.sendMatch k c m).lock = b.lock := by
  unfold sendMatch
  split
  · rfl
  · rfl
  · split <;> rfl

theorem lock_subscribe (topic : τ) (opts : SubscribeOpts) :
    (b.subscribe topic opts).lock = b.lock := by
  unfold subscribe
  dsimp only
  split
  · rfl
  · split <;> rfl

/-- Another call keeps what it is. -/
theorem getElem?_set_other {l : List (Call δ)} {j k : ℕ} {c c' d : Call δ} (hj : l[j]? = some c)
    (hk : l[k]? = some d) (h : d = c → False) : (l.set j c')[k]? = some d := by
  rw [List.getElem?_set_ne, hk]
  rintro rfl
  exact h (Option.some.inj (hk.symm.trans hj))

omit [DecidableEq κ] in
/-- **The mutex stays with a call in its loop.** -/
theorem lock_advance {j : ℕ} (hb : b.Accounted) (hs : b.advance ops j = some b') :
    ∀ k, b'.lock = some k →
      ∃ c, b'.calls[k]? = some c ∧ (c.phase = .fanout ∨ c.phase = .panicked) := by
  intro k hlock
  obtain ⟨c, hj, hadv⟩ := advance_cases hs
  obtain ⟨c₀, hj₀, -, c', hcalls, -⟩ := moved_advance hs
  -- a step of a call outside its loop that leaves the mutex alone
  have hother : b'.lock = b.lock → c.phase ≠ .fanout → c.phase ≠ .panicked →
      ∃ c, b'.calls[k]? = some c ∧ (c.phase = .fanout ∨ c.phase = .panicked) := by
    intro hsame hp hp'
    obtain ⟨d, hd, hphase⟩ := hb.lock k (hsame ▸ hlock)
    refine ⟨d, ?_, hphase⟩
    rw [hcalls]
    refine getElem?_set_other hj hd ?_
    rintro rfl
    exact hphase.elim hp hp'
  cases hadv with
  | tooLarge hp | fits hp | reject _ hp | record _ hp | evict _ hp | permit _ _ _ hp
  | awaitClosed _ _ hp | push _ _ hp | unwound hp =>
    exact hother rfl (by simp [hp]) (by simp [hp])
  | acquire hp hfree =>
    obtain rfl : j = k := Option.some.inj hlock
    have hlt : j < b.calls.length := (List.getElem?_eq_some_iff.mp hj).1
    refine ⟨{ c with phase := .fanout, todo := b.keys }, ?_, .inl rfl⟩
    simp [setCall, hlt]
  | finish hp hdone => cases hlock
  | send m gs hp hg => exact hother (b.lock_sendMatch j c m) (by simp [hp]) (by simp [hp])
  | commit m gs outcome hp hg =>
    exact hother (b.lock_commitMatch j c m gs outcome) (by simp [hp]) (by simp [hp])
  | dropGuard m gs hp hg =>
    exact hother (b.touches_refundClaim m.id).lock (by simp [hp]) (by simp [hp])

/-- A visit leaves the publish lock as it was. -/
theorem lock_visitEntry {c c₂ : Call δ} {j : SubscriptionId} {b₂ : Bus δ τ}
    (h : b.visitEntry ops c j = (b₂, c₂)) : b₂.lock = b.lock := by
  unfold visitEntry at h
  split at h
  · -- neither branch of the visit takes or frees the mutex
    cases h
    rfl
  split at h
  · split at h
    · unfold coalesceEntry at h
      dsimp only at h
      split at h <;> cases h <;> rfl
    · unfold tryPublishEntry at h
      split at h
      · cases h
        rfl
      · split at h <;> cases h
        · exact (b.touches_fireNotice j _).lock
        · rfl
        · rfl
        · rfl
      · cases h
        rfl
    · unfold publishEntry at h
      split at h <;> cases h <;> rfl
  · cases h
    rfl

/-- The lock is held by a call in its fan-out, or by one that panicked there. -/
theorem lock_step (hb : b.Accounted) (hs : step ops b a = some b') :
    ∀ k, b'.lock = some k →
      ∃ c, b'.calls[k]? = some c ∧ (c.phase = .fanout ∨ c.phase = .panicked) := by
  intro k hlock
  -- a step that leaves the mutex and the calls in progress alone
  have hsame : b'.lock = b.lock → (∀ c, b.calls[k]? = some c → b'.calls[k]? = some c) →
      ∃ c, b'.calls[k]? = some c ∧ (c.phase = .fanout ∨ c.phase = .panicked) := by
    intro hl hc
    obtain ⟨c, hk, hp⟩ := hb.lock k (hl ▸ hlock)
    exact ⟨c, hc c hk, hp⟩
  cases a with
  | subscribe topic opts =>
    obtain rfl := step_subscribe hs
    exact hsame (lock_subscribe topic opts) fun c hk => (calls_subscribe b topic opts).symm ▸ hk
  | unsubscribe j =>
    obtain rfl := step_unsubscribe hs
    exact hsame (b.touches_reap j).lock fun c hk => (b.calls_reap j).symm ▸ hk
  | publish env | tryPublish env =>
    obtain rfl := Option.some.inj hs
    refine hsame rfl fun c hk => ?_
    have hlt : k < b.calls.length := (List.getElem?_eq_some_iff.mp hk).1
    exact (List.getElem?_append_left hlt).trans hk
  | advance j => exact lock_advance hb hs k hlock
  | visit j i =>
    obtain ⟨c, hj, hp, -, b₂, c₂, hentry, rfl⟩ := visit_cases hs
    obtain ⟨-, hcalls, -, -, hphase, -⟩ := visitEntry_call hentry
    by_cases hjk : j = k
    · subst hjk
      have hlt : j < b.calls.length := (List.getElem?_eq_some_iff.mp hj).1
      exact ⟨c₂, by simp [setCall, hcalls, hlt], hphase.imp (·.trans hp) id⟩
    · have hl : b₂.lock = b.lock := lock_visitEntry hentry
      refine hsame hl fun d hk => ?_
      simp only [setCall, hcalls]
      rwa [List.getElem?_set_ne hjk]
  | cancel j =>
    obtain ⟨c, hj, hcancel⟩ := cancel_cases hs
    have hcalls : b'.lock = b.lock ∧ ∃ c', b'.calls = b.calls.set j c' := by
      rcases hcancel with ⟨-, rfl⟩ | ⟨m, gs, -, -, rfl⟩
      · exact ⟨rfl, _, rfl⟩
      · exact ⟨rfl, _, rfl⟩
    obtain ⟨hl, c', hset⟩ := hcalls
    obtain ⟨d, hk, hd⟩ := hb.lock k (hl ▸ hlock)
    refine ⟨d, ?_, hd⟩
    rw [hset]
    refine getElem?_set_other hj hk ?_
    rintro rfl
    rcases hcancel with ⟨hp, -⟩ | ⟨m, gs, hp, -⟩ <;> rw [hp] at hd <;> simp at hd
  | recv j =>
    obtain ⟨env, hr⟩ := step_recv hs
    rcases recv_cases hr with ⟨q, -, rfl⟩ | ⟨state, rfl⟩
    · exact hsame rfl fun _ hk => hk
    · exact hsame rfl fun _ hk => hk
  | dropRx j | withMaxEventSize limit =>
    obtain rfl := Option.some.inj hs
    exact hsame rfl fun _ hk => hk

omit [DecidableEq κ] in
/-- A call that advances into a phase without claims has none. -/
theorem guards_advance {k : ℕ} (hb : b.Accounted) (hs : b.advance ops k = some b') :
    ∀ c ∈ b'.calls, claimless c.phase = true → c.guards = [] := by
  obtain ⟨c, hk, hadv⟩ := advance_cases hs
  have hold := hb.guards c (List.mem_of_getElem? hk)
  -- only the moved call has to be looked at
  have hset : ∀ {b₁ : Bus δ τ} {c' : Call δ}, b₁.calls = b.calls →
      (claimless c'.phase = true → c'.guards = []) →
      ∀ d ∈ (b₁.setCall k c').calls, claimless d.phase = true → d.guards = [] := by
    intro b₁ c' hcalls hc'
    have hset : (b₁.setCall k c').calls = b.calls.set k c' := by simp [setCall, hcalls]
    exact Party.forall_mem_set hset hb.guards hc'
  have hafter : ∀ (c' : Call δ) (gs : List Match),
      claimless (afterMatch c' gs).phase = true → (afterMatch c' gs).guards = [] := by
    -- a call has no guard left exactly when it returns
    intro c' gs
    cases gs with
    | nil => exact fun _ => rfl
    | cons m gs => exact fun h => by cases h
  cases hadv with
  | tooLarge hp | fits hp | reject _ hp | record _ hp | evict _ hp =>
    exact hset rfl fun _ => hold (by simp [hp, claimless])
  | acquire | permit | awaitClosed | push => exact hset rfl fun h => by cases h
  | finish => exact hset (by simp) (hafter _ _)
  | send m gs =>
    unfold sendMatch
    split
    · exact hset rfl fun h => by cases h
    · exact hset rfl fun h => by cases h
    · split <;> exact hset rfl fun h => by cases h
  | commit m gs outcome =>
    cases outcome with
    | delivered => exact hset (by simp [recordCommit]) (hafter _ _)
    | dropped | disconnectSlowConsumer | closed => exact hset (by simp) (hafter _ _)
  | dropGuard m gs hp => exact hset (by simp) fun h => by simp [hp, claimless] at h
  | unwound _ hg => exact hset rfl fun _ => hg

/-- A call in a phase without claims holds no guards. -/
theorem guards_step (hb : b.Accounted) (hs : step ops b a = some b') :
    ∀ c ∈ b'.calls, claimless c.phase = true → c.guards = [] := by
  cases a with
  | advance k => exact guards_advance hb hs
  | visit k j =>
    obtain ⟨c, c', -, -, hcalls, -, hphase, hp, -⟩ := moved_visit hs
    refine Party.forall_mem_set hcalls hb.guards fun h => ?_
    rcases hphase with hp' | hp'
    · rw [hp', hp] at h
      cases h
    · rw [hp'] at h
      cases h
  | cancel k =>
    obtain ⟨c, c', -, -, hcalls, -, -, hp⟩ := moved_cancel hs
    refine Party.forall_mem_set hcalls hb.guards fun h => ?_
    rw [hp] at h
    cases h
  | publish env | tryPublish env =>
    obtain rfl := Option.some.inj hs
    exact Party.forall_mem_concat rfl hb.guards fun _ => rfl
  | subscribe topic opts =>
    obtain rfl := step_subscribe hs
    rw [calls_subscribe]
    exact hb.guards
  | unsubscribe j =>
    obtain rfl := step_unsubscribe hs
    rw [calls_reap]
    exact hb.guards
  | recv j =>
    obtain ⟨env, hr⟩ := step_recv hs
    rw [(frame_recv (i := j) hr).2]
    exact hb.guards
  | dropRx j | withMaxEventSize limit =>
    obtain rfl := Option.some.inj hs
    exact hb.guards

omit [DecidableEq κ] in
/-- **The count of an entry is the number of claims on it.** -/
theorem inFlight_of_effect {i : SubscriptionId} (hb : b.Accounted)
    (h : Effect i b a b' ∨ Direct ops i b a b') :
    ∀ sub, b'.subs i = some sub → sub.inFlight = (b'.ledger i).outstanding := by
  intro sub' hsub'
  -- an entry that is gone has no count
  have hgone : b'.subs i = none → sub'.inFlight = (b'.ledger i).outstanding := by
    intro hnone
    rw [hnone] at hsub'
    cases hsub'
  rcases h with h | h
  · cases h with
    | quiet hf hc =>
      rw [(tally_of_callsKeep hc).1]
      exact hb.inFlight i sub' (hf.subs ▸ hsub')
    | claim k c c' sub sub₁ hk hcalls he hclaim hs hn hh hq hapi henv ho =>
      obtain ⟨htally, -⟩ := tally_of_set (i := i) hk hcalls
      obtain ⟨rfl, -⟩ := SubscriptionInner.claim_some hclaim
      obtain rfl := Option.some.inj (hs.symm.trans hsub')
      have := hb.inFlight i sub he
      show sub.inFlight + 1 = _
      omega
    | land k c c' hk hcalls hs hn hh hq hapi henv ho =>
      obtain ⟨htally, -⟩ := tally_of_set (i := i) hk hcalls
      have := hb.inFlight i sub' (hs ▸ hsub')
      omega
    | delivered k c c' hk hcalls hsent hres hs =>
      obtain ⟨htally, -⟩ := tally_of_set (i := i) hk hcalls
      have := hres.outstanding
      cases he : b.subs i with
      | none => exact hgone (by rw [hs, he]; rfl)
      | some sub =>
        have := hb.inFlight i sub he
        simp only [hs, he, Option.bind_some] at hsub'
        split at hsub'
        · cases hsub'
        · obtain rfl := Option.some.inj hsub'
          show sub.inFlight - 1 = _
          omega
    | refund k c c' hk hcalls hun hres hcause hs =>
      obtain ⟨htally, -⟩ := tally_of_set (i := i) hk hcalls
      have := hres.outstanding
      cases he : b.subs i with
      | none => exact hgone (by rw [hs, he]; rfl)
      | some sub =>
        have := hb.inFlight i sub he
        simp only [hs, he, Option.map_some] at hsub'
        obtain rfl := Option.some.inj hsub'
        show sub.inFlight - 1 = _
        omega
    | disconnect k c c' sub ha hk hcalls hp hhead hun hres he hs => exact hgone hs
    | closed k c c' hk hcalls hun hres hg => exact hgone hg.subs
    | removed hg hc => exact hgone hg.subs
    | fired k c sub hk hapi he harm hs hn hh hq hc =>
      rw [(tally_of_callsKeep hc).1]
      obtain rfl := Option.some.inj (hs.symm.trans hsub')
      exact hb.inFlight i sub he
    | coalesced env sub he hout hs hn hh hq hc =>
      rw [(tally_of_callsKeep hc).1]
      obtain rfl := Option.some.inj (hs.symm.trans hsub')
      exact hb.inFlight i sub he
  · obtain ⟨k, c, sub, ha, hk, hp, hapi, he, hm, hroom, hout, hs, hn, hh, hq, hc⟩ := h
    rw [(tally_of_callsKeep hc).1]
    obtain rfl := Option.some.inj (hs.symm.trans hsub')
    exact hb.inFlight i sub he

omit [DecidableEq κ] in
/-- Nobody holds a claim on a subscription that nothing has happened to. -/
theorem Untouched.outstanding {i : SubscriptionId} (hu : Untouched i b) :
    (b.ledger i).outstanding = 0 := by
  refine List.sum_eq_zero fun n hn => ?_
  obtain ⟨c, hc, rfl⟩ := List.mem_map.mp hn
  exact (hu.calls c hc).1

/-- One step keeps the books of calls, locks and guards. -/
theorem accounted_step (hwf : b.WellFormed) (hb : b.Accounted) (hs : step ops b a = some b') :
    b'.Accounted := by
  refine ⟨lock_step hb hs, guards_step hb hs, fun i => ?_⟩
  rcases effect_or_created i hs with h | ⟨rfl, topic, opts, rfl⟩
  · exact inFlight_of_effect hb h
  · have hu := hwf.untouched b.nextId (Nat.le_refl _)
    have hledger : ((b.subscribe topic opts).ledger b.nextId).outstanding = 0 := by
      have hcalls := calls_subscribe b topic opts
      simp only [ledger, hcalls]
      exact hu.outstanding
    rw [hledger]
    intro sub' hsub'
    rcases subscribe_cases b topic opts hu with hnone | ⟨sub, hsub, hval, -⟩
    · rw [hnone.subs] at hsub'
      cases hsub'
    · obtain rfl := Option.some.inj (hsub.symm.trans hsub')
      rw [hval]

theorem accounted_of_reachable {replayCapacity : ℕ}
    (h : (machine ops replayCapacity).Reachable b) : b.WellFormed ∧ b.Accounted := by
  refine h.inv (I := fun b => b.WellFormed ∧ b.Accounted)
    ⟨wellFormed_init ops replayCapacity, ?_⟩ fun _ _ _ hb hs =>
    ⟨wellFormed_step hb.1 hs, accounted_step hb.1 hb.2 hs⟩
  exact ⟨by simp [machine], by simp [machine], by simp [machine]⟩

/-- No publish call is in flight. -/
def Idle (b : Bus δ τ) : Prop := ∀ c ∈ b.calls, c.phase.ended = true

omit [DecidableEq κ] in
theorem Accounted.lock_of_idle (hb : b.Accounted) (hidle : b.Idle) : b.lock = none := by
  cases hlock : b.lock with
  | none => rfl
  | some k =>
    obtain ⟨c, hk, hp⟩ := hb.lock k hlock
    have hended := hidle c (List.mem_of_getElem? hk)
    rcases hp with hp | hp <;> rw [hp] at hended <;> cases hended

omit [DecidableEq κ] in
theorem Accounted.inFlight_of_idle (hb : b.Accounted) (hidle : b.Idle) {i : SubscriptionId}
    {sub : SubscriptionInner τ} (hsub : b.subs i = some sub) : sub.inFlight = 0 := by
  rw [hb.inFlight i sub hsub]
  refine List.sum_eq_zero fun n hn => ?_
  obtain ⟨c, hc, rfl⟩ := List.mem_map.mp hn
  have hended := hidle c hc
  have hguards : c.guards = [] := by
    refine hb.guards c hc ?_
    cases hp : c.phase <;> rw [hp] at hended <;> first | rfl | cases hended
  simp [Call.outstanding, hguards]

end Accounted

/-! ### Agreement -/

/-- Two runs of the last call, started on `b`, have ended with the same result and left the same
bus. -/
structure Agree (b bp bt : Bus δ τ) : Prop where
  result : ∃ cp ct, bp.calls = b.calls ++ [cp] ∧ bt.calls = b.calls ++ [ct] ∧
    cp.phase = ct.phase ∧
    ((∃ result, cp.phase = .returned result) ∨ ∃ err, cp.phase = .rejected err)
  subs : bp.subs = bt.subs
  mpsc : bp.mpsc = bt.mpsc
  coalesce : bp.coalesce = bt.coalesce
  notify : bp.notify = bt.notify
  registry : bp.registry = bt.registry
  replayCache : bp.replayCache = bt.replayCache
  nextId : bp.nextId = bt.nextId
  maxEventSize : bp.maxEventSize = bt.maxEventSize
  lock : bp.lock = bt.lock

section Agreement

variable {ops : BusOps δ τ κ} {b : Bus δ τ} {env : EventEnvelope δ}

/-- Two runs that end in the same stage, with the same result, agree on everything but their calls.
-/
theorem agree_of_stage {b₀ bp bt : Bus δ τ} {cp ct : Call δ} {lock : Option ℕ}
    {views : SubscriptionId → Local δ τ} {result : PublishResult} (hcalls : b₀.calls = b.calls)
    (hp : Stage b₀ lock views cp bp) (ht : Stage b₀ lock views ct bt)
    (hpresult : cp.phase = .returned result) (htresult : ct.phase = .returned result) :
    Agree b bp bt := by
  have hviews : bp.view = bt.view := hp.views.trans ht.views.symm
  exact {
    result := ⟨cp, ct, hcalls ▸ hp.calls, hcalls ▸ ht.calls, hpresult.trans htresult.symm,
      .inl ⟨result, hpresult⟩⟩
    subs := congrArg (fun v i => (v i).entry) hviews
    mpsc := congrArg (fun v i => (v i).mpsc) hviews
    coalesce := congrArg (fun v i => (v i).coalesce) hviews
    notify := congrArg (fun v i => (v i).notify) hviews
    registry := hp.registry.trans ht.registry.symm
    replayCache := hp.replayCache.trans ht.replayCache.symm
    nextId := hp.nextId.trans ht.nextId.symm
    maxEventSize := hp.maxEventSize.trans ht.maxEventSize.symm
    lock := hp.lock.trans ht.lock.symm }

/-- What the loop claims has the policy of a matching entry. -/
theorem Local.policy_of_claimed {api : PublishApi} {l : Local δ τ} {policy : SlowConsumerPolicy}
    (h : (l.visit ops api env).2.claimed = some policy) :
    ∃ sub, l.entry = some sub ∧ ops.matchesEvent sub.topic env.topic env.data = true ∧
      sub.outbound = .mpsc ∧ sub.slowConsumerPolicy = policy := by
  unfold Local.visit at h
  split at h
  · cases h
  rename_i sub hentry
  split at h
  · rename_i hmatch
    split at h
    · unfold Local.visitCoalesce at h
      dsimp only at h
      split at h <;> cases h
    · unfold Local.visitTryPublish at h
      split at h
      · cases h
      · split at h <;> cases h
      · cases h
    · rename_i hout
      unfold Local.visitPublish at h
      split at h
      · cases h
      · exact ⟨sub, hentry, hmatch, hout, Option.some.inj h⟩
  · cases h

/-- A policy with a bounded channel that does not wait. -/
theorem policy_of_outbound {policy : SlowConsumerPolicy} (hout : policy.outbound = .mpsc)
    (hwait : policy ≠ .backpressure) : policy = .disconnect ∨ policy = .dropNewest := by
  cases policy with
  | disconnect => exact .inl rfl
  | dropNewest => exact .inr rfl
  | backpressure => exact absurd rfl hwait
  | coalesce path => cases hout

omit [DecidableEq κ] in
theorem WellFormed.view_fits (hb : b.WellFormed) (i : SubscriptionId) : (b.view i).Fits := by
  intro sub hsub
  obtain ⟨opts, -, hfits⟩ := hb.entry i sub hsub
  rw [hfits.outbound, hfits.policy]

/-- The bus after a rejected call. -/
def rejected (b : Bus δ τ) (api : PublishApi) (env : EventEnvelope δ) : Bus δ τ :=
  { b with
    registry := b.registry.evict env.eventId
    calls := b.calls ++ [{ api, envelope := env, phase := .rejected (.tooLarge b.maxEventSize) }] }

theorem runsAlone_rejected_iff (ops : BusOps δ τ κ) (env : EventEnvelope δ)
    (hsize : b.maxEventSize < ops.serializedSize env) (api : PublishApi)
    (vs : List SubscriptionId) (b' : Bus δ τ) :
    RunsAlone ops b.calls.length (b.start api env) vs b' ↔ vs = [] ∧ b' = b.rejected api env := by
  have hleads := leadsTo_rejected ops api env hsize vs b'
  rw [List.nil_append] at hleads
  rw [hleads]
  have hcall : (b.rejected api env).calls[b.calls.length]? =
      some { api, envelope := env, phase := .rejected (.tooLarge b.maxEventSize) } := by
    simp [rejected]
  exact runsAlone_ended_iff hcall rfl

/-- The rejections agree. -/
theorem agree_rejected : Agree b (b.rejected .publish env) (b.rejected .tryPublish env) where
  result := ⟨_, _, rfl, rfl, rfl, .inr ⟨_, rfl⟩⟩
  subs := rfl
  mpsc := rfl
  coalesce := rfl
  notify := rfl
  registry := rfl
  replayCache := rfl
  nextId := rfl
  maxEventSize := rfl
  lock := rfl

section Accepted

variable (hwf : b.WellFormed) (hlock : b.lock = none)
  (hsize : ¬ b.maxEventSize < ops.serializedSize env)

include hwf in
theorem policy_of_claimed
    (hwait : ∀ i sub, b.subs i = some sub → ops.matchesEvent sub.topic env.topic env.data = true →
      sub.slowConsumerPolicy ≠ .backpressure)
    (api : PublishApi) (i : SubscriptionId) (policy : SlowConsumerPolicy)
    (hclaimed : ((b.view i).visit ops api env).2.claimed = some policy) :
    policy = .disconnect ∨ policy = .dropNewest := by
  obtain ⟨sub, hsub, hmatch, hout, rfl⟩ := Local.policy_of_claimed hclaimed
  have hfit := hwf.view_fits i sub hsub
  exact policy_of_outbound (hfit.symm.trans hout) (hwait i sub hsub hmatch)

variable {api : PublishApi} (hpolicy : ∀ i policy,
  ((b.view i).visit ops api env).2.claimed = some policy →
    policy = .disconnect ∨ policy = .dropNewest)

include hwf hlock hsize hpolicy in
/-- An accepted call runs to completion in every order. -/
theorem runsAlone_of_perm {vs : List SubscriptionId} (hperm : vs.Perm b.keys) :
    ∃ b', RunsAlone ops b.calls.length (b.start api env) vs b' := by
  obtain ⟨b', c, hleads, hstage, hresult⟩ := leadsTo_returned ops api env hperm hlock hsize
    hwf.view_fits hpolicy
  have hdone := (hleads [] b').mpr (.done c hstage.call (by rw [hresult]; rfl))
  rw [List.append_nil] at hdone
  exact ⟨b', hdone⟩

include hwf hsize hpolicy in
/-- Where an accepted call ends: the loop has visited every entry once. -/
theorem stage_of_runsAlone {vs : List SubscriptionId} {b' : Bus δ τ}
    (hrun : RunsAlone ops b.calls.length (b.start api env) vs b') :
    vs.Perm b.keys ∧ ∃ c, Stage (b.recorded env) none
        (fun i => if i ∈ vs then ((b.view i).alone ops api env).1 else b.view i) c b' ∧
      c.phase = .returned (addTally
        (addTally {} (fun i => ((b.view i).alone ops api env).2.1) vs)
        (fun i => ((b.view i).alone ops api env).2.2) vs) := by
  have hlock := lock_of_runsAlone ops api env hsize hrun
  have hperm : vs.Perm b.keys := by
    obtain ⟨b₁, hleads, hstage⟩ := leadsTo_fanout ops api env hlock hsize
    have hfan := (hleads vs b').mp (by rwa [List.nil_append])
    exact hstage.visits_perm ops rfl b.keys_nodup (fun i _ => hwf.view_fits i) hfan
  obtain ⟨b₁, c, hleads, hstage, hresult⟩ := leadsTo_returned ops api env hperm hlock hsize
    hwf.view_fits hpolicy
  have hend := (hleads [] b').mp (by rwa [List.append_nil])
  obtain ⟨-, rfl⟩ := (runsAlone_ended_iff hstage.call (by rw [hresult]; rfl)).mp hend
  exact ⟨hperm, c, hstage, hresult⟩

end Accepted

/-- **`publish` and `try_publish` agree when alone.**  On a bus with no publish in flight, with no
matching `Backpressure` subscription and no used-up quota, both calls run to completion whatever the
order in which the map is iterated; and with one order of iteration they give the same result and
leave the same entries, queues, notices, replay cache and reverse index. -/
theorem publish_agrees_with_tryPublish (ops : BusOps δ τ κ) (replayCapacity : ℕ) {b : Bus δ τ}
    (hreach : (machine ops replayCapacity).Reachable b) (hidle : b.Idle) (env : EventEnvelope δ)
    (hwait : ∀ i sub, b.subs i = some sub →
      ops.matchesEvent sub.topic env.topic env.data = true →
      sub.slowConsumerPolicy ≠ .backpressure)
    (hlimit : ∀ i sub rem, b.subs i = some sub → sub.remaining = some rem → 1 ≤ rem) :
    (∀ order : List SubscriptionId, order.Perm b.keys → ∃ vs bp bt,
      (vs = order ∨ b.maxEventSize < ops.serializedSize env ∧ vs = []) ∧
      RunsAlone ops b.calls.length (b.start .publish env) vs bp ∧
      RunsAlone ops b.calls.length (b.start .tryPublish env) vs bt) ∧
    ∀ vs bp bt, RunsAlone ops b.calls.length (b.start .publish env) vs bp →
      RunsAlone ops b.calls.length (b.start .tryPublish env) vs bt → Agree b bp bt := by
  obtain ⟨hwf, hacc⟩ := accounted_of_reachable hreach
  have hlock := hacc.lock_of_idle hidle
  by_cases hsize : b.maxEventSize < ops.serializedSize env
  · -- rejected by both before anything is recorded
    have hrun := runsAlone_rejected_iff ops env hsize
    refine ⟨fun order _ => ?_, fun vs bp bt hp ht => ?_⟩
    · exact ⟨[], _, _, .inr ⟨hsize, rfl⟩, (hrun .publish _ _).mpr ⟨rfl, rfl⟩,
        (hrun .tryPublish _ _).mpr ⟨rfl, rfl⟩⟩
    · obtain ⟨-, rfl⟩ := (hrun .publish vs bp).mp hp
      obtain ⟨-, rfl⟩ := (hrun .tryPublish vs bt).mp ht
      exact agree_rejected
  · -- entry by entry both calls do the same, up to what `publish` claims and commits
    have hagree : ∀ i, ((b.view i).alone ops .publish env).1 =
        ((b.view i).alone ops .tryPublish env).1 ∧
        SameDeltas ((b.view i).alone ops .publish env).2 ((b.view i).alone ops .tryPublish env).2 :=
      fun i => Local.alone_agree ops env (hwf.view_fits i)
        (fun sub hsub => hacc.inFlight_of_idle hidle hsub)
        (fun sub hsub hzero => absurd (hlimit i sub 0 hsub hzero) (by omega)) (hwait i)
    refine ⟨fun order hperm => ?_, fun vs bp bt hp ht => ?_⟩
    · obtain ⟨bp, hbp⟩ := runsAlone_of_perm hwf hlock hsize
        (policy_of_claimed hwf hwait .publish) hperm
      obtain ⟨bt, hbt⟩ := runsAlone_of_perm hwf hlock hsize
        (policy_of_claimed hwf hwait .tryPublish) hperm
      exact ⟨order, bp, bt, .inl rfl, hbp, hbt⟩
    · obtain ⟨-, cp, hsp, hrp⟩ := stage_of_runsAlone hwf hsize
        (policy_of_claimed hwf hwait .publish) hp
      obtain ⟨-, ct, hst, hrt⟩ := stage_of_runsAlone hwf hsize
        (policy_of_claimed hwf hwait .tryPublish) ht
      -- so the entries of the two buses are the same functions of the first one
      have hviews : (fun i => if i ∈ vs then ((b.view i).alone ops .publish env).1 else b.view i) =
          fun i => if i ∈ vs then ((b.view i).alone ops .tryPublish env).1 else b.view i := by
        funext i
        rw [(hagree i).1]
      rw [hviews] at hsp
      rw [SameDeltas.addTally fun i _ => (hagree i).2] at hrp
      have hcalls : (b.recorded env).calls = b.calls := rfl
      exact agree_of_stage hcalls hsp hst hrp hrt

/-- One subscription of each kind that does not wait, one of them with its queue full. -/
def mixedPolicies : List (BusAction Unit Unit) :=
  [.subscribe () { limit := some 2 }, .subscribe () { outboundCapacity := some 1 },
    .subscribe () { slowConsumerPolicy := .dropNewest },
    .subscribe () { slowConsumerPolicy := .coalesce ⟨["id"]⟩ },
    .tryPublish (.nth 1), .advance 0, .advance 0, .advance 0,
    .visit 0 1, .visit 0 2, .visit 0 3, .visit 0 4, .advance 0]

/-- Four subscriptions of different policies, visited in one order by both: the results agree. -/
theorem publish_agrees_mixedPolicies : ∃ b : Bus Unit Unit,
    (machine .matchAll 10).run (machine .matchAll 10).init mixedPolicies = some b ∧
    b.Idle ∧ b.keys = [1, 2, 3, 4] ∧ ∃ bp bt,
      RunsAlone .matchAll 1 (b.start .publish (.nth 2)) [3, 1, 4, 2] bp ∧
      RunsAlone .matchAll 1 (b.start .tryPublish (.nth 2)) [3, 1, 4, 2] bt ∧ Agree b bp bt := by
  have hend : ∃ b : Bus Unit Unit,
      (machine .matchAll 10).run (machine .matchAll 10).init mixedPolicies = some b ∧
      (b.calls.all fun c => c.phase.ended) = true ∧ b.keys = [1, 2, 3, 4] ∧
      b.calls.length = 1 ∧ b.nextId = 5 ∧ b.maxEventSize = DEFAULT_MAX_EVENT_SIZE_BYTES ∧
      ((List.range 5).all fun i => (b.subs i).all fun sub =>
        sub.slowConsumerPolicy != .backpressure && sub.remaining != some 0) = true :=
    ⟨_, rfl, rfl, rfl, rfl, rfl, rfl, rfl⟩
  obtain ⟨b, hrun, hidle, hkeys, hlen, hnext, hmax, hsubs⟩ := hend
  have hreach : (machine .matchAll 10).Reachable b := ⟨mixedPolicies, hrun⟩
  -- no entry waits and none is at its limit
  have hentry : ∀ i sub, b.subs i = some sub →
      sub.slowConsumerPolicy ≠ .backpressure ∧ sub.remaining ≠ some 0 := by
    intro i sub hsub
    have hi : i < 5 := hnext ▸ (wellFormed_of_reachable hreach).lt_nextId hsub
    have := List.all_eq_true.mp hsubs i (List.mem_range.mpr hi)
    simpa [hsub] using this
  have hagree := publish_agrees_with_tryPublish .matchAll 10 hreach
    (List.all_eq_true.mp hidle) (.nth 2) (fun i sub hsub _ => (hentry i sub hsub).1)
    (fun i sub rem hsub hrem => by
      have hne := (hentry i sub hsub).2
      rw [hrem] at hne
      have : rem ≠ 0 := fun h => hne (congrArg some h)
      omega)
  rw [hlen] at hagree
  obtain ⟨vs, bp, bt, hvs, hbp, hbt⟩ := hagree.1 [3, 1, 4, 2] (by rw [hkeys]; decide)
  have hfits : ¬ b.maxEventSize < BusOps.matchAll.serializedSize (.nth 2) := by
    rw [hmax]
    decide
  obtain rfl : vs = [3, 1, 4, 2] := hvs.resolve_right fun h => hfits h.1
  exact ⟨b, hrun, List.all_eq_true.mp hidle, hkeys, bp, bt, hbp, hbt, hagree.2 _ _ _ hbp hbt⟩

end Agreement

end Bus

end Boardwalk
