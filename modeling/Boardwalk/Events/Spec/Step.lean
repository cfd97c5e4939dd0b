import Boardwalk.Events.Bus

/-!
# The steps of the bus, inverted

`Advanced ops b k c b'` lists the operations that `advance` carries out for a call `c`, one
constructor for each: the phase the call is in, what else the operation needs, and the state it
leaves.  `advance_cases` and its siblings for the other actions are where the step function is
unfolded; what the other modules say about a step starts from these lemmas.
-/

namespace Boardwalk

namespace Bus

variable {δ τ κ : Type}

/-- What an `advance` of call `k`, which stands at `c`, does to the bus. -/
inductive Advanced (ops : BusOps δ τ κ) (b : Bus δ τ) (k : ℕ) (c : Call δ) : Bus δ τ → Prop where
  | tooLarge (phase : c.phase = .check) (size : b.maxEventSize < ops.serializedSize c.envelope) :
      Advanced ops b k c (b.setCall k { c with phase := .reject b.maxEventSize })
  | fits (phase : c.phase = .check) (size : ¬ b.maxEventSize < ops.serializedSize c.envelope) :
      Advanced ops b k c (b.setCall k { c with phase := .record })
  | reject (limit : ℕ) (phase : c.phase = .reject limit) :
      Advanced ops b k c ({ b with registry := b.registry.evict c.envelope.eventId }.setCall k
        { c with phase := .rejected (.tooLarge limit) })
  | record (p : Phase) (phase : c.phase = .record)
      (next : p = match (b.replayCache.record c.envelope).2 with
        | some id => .evict id
        | none => .acquire) :
      Advanced ops b k c ({ b with replayCache := (b.replayCache.record c.envelope).1 }.setCall k
        { c with phase := p })
  | evict (id : EventId) (phase : c.phase = .evict id) :
      Advanced ops b k c
        ({ b with registry := b.registry.evict id }.setCall k { c with phase := .acquire })
  | acquire (phase : c.phase = .acquire) (free : b.lock.isNone = true) :
      Advanced ops b k c
        ({ b with lock := some k }.setCall k { c with phase := .fanout, todo := b.keys })
  | finish (phase : c.phase = .fanout) (done : c.todo.isEmpty = true) :
      Advanced ops b k c (b.finishLoop k c)
  | send (m : Match) (rest : List Match) (phase : c.phase = .send)
      (guards : c.guards = m :: rest) : Advanced ops b k c (b.sendMatch k c m)
  | permit (m : Match) (rest : List Match) (q : Mpsc (EventEnvelope δ)) (phase : c.phase = .await)
      (guards : c.guards = m :: rest) (alive : (b.mpsc m.id).rxAlive = true)
      (reserved : (b.mpsc m.id).reserve = some q) :
      Advanced ops b k c ((b.setMpsc m.id q).setCall k { c with phase := .granted })
  | awaitClosed (m : Match) (rest : List Match) (phase : c.phase = .await)
      (guards : c.guards = m :: rest) (gone : ¬ (b.mpsc m.id).rxAlive = true) :
      Advanced ops b k c (b.setCall k { c with phase := .commit .closed })
  | push (m : Match) (rest : List Match) (phase : c.phase = .granted)
      (guards : c.guards = m :: rest) :
      Advanced ops b k c ((b.setMpsc m.id ((b.mpsc m.id).pushReserved c.envelope)).setCall k
        { c with phase := .commit .delivered })
  | commit (m : Match) (rest : List Match) (outcome : SendResult)
      (phase : c.phase = .commit outcome) (guards : c.guards = m :: rest)
      (free : b.lock.isNone = true) : Advanced ops b k c (b.commitMatch k c m rest outcome)
  | dropGuard (m : Match) (rest : List Match) (phase : c.phase = .unwind)
      (guards : c.guards = m :: rest) (free : b.lock.isNone = true) :
      Advanced ops b k c ((b.refundClaim m.id).setCall k { c with guards := rest })
  | unwound (phase : c.phase = .unwind) (guards : c.guards = []) :
      Advanced ops b k c (b.setCall k { c with matched := [], phase := .cancelled })

section Inversion

variable [DecidableEq κ] {ops : BusOps δ τ κ} {b b' : Bus δ τ} {k : ℕ} {j : SubscriptionId}

omit [DecidableEq κ] in
/-- **The operations of a call**, phase by phase. -/
theorem advance_cases (hs : b.advance ops k = some b') :
    ∃ c, b.calls[k]? = some c ∧ Advanced ops b k c b' := by
  unfold advance at hs
  split at hs
  · cases hs
  rename_i c hk
  refine ⟨c, hk, ?_⟩
  split at hs
  case h_1 hp =>
    split at hs <;> rename_i hsize <;> obtain rfl := Option.some.inj hs
    · exact .tooLarge hp hsize
    · exact .fits hp hsize
  case h_2 limit hp =>
    obtain rfl := Option.some.inj hs
    exact .reject limit hp
  case h_3 hp =>
    obtain rfl := Option.some.inj hs
    exact .record _ hp rfl
  case h_4 id hp =>
    obtain rfl := Option.some.inj hs
    exact .evict id hp
  case h_5 hp =>
    split at hs
    · rename_i hfree
      obtain rfl := Option.some.inj hs
      exact .acquire hp hfree
    · cases hs
  case h_6 hp =>
    split at hs
    · rename_i hdone
      obtain rfl := Option.some.inj hs
      exact .finish hp hdone
    · cases hs
  case h_7 hp =>
    split at hs
    · cases hs
    · rename_i m rest hg
      obtain rfl := Option.some.inj hs
      exact .send m rest hp hg
  case h_8 hp =>
    split at hs
    · cases hs
    · rename_i m rest hg
      unfold awaitPermit at hs
      split at hs <;> rename_i halive
      · obtain ⟨q, hq, rfl⟩ := Option.map_eq_some_iff.mp hs
        exact .permit m rest q hp hg halive hq
      · obtain rfl := Option.some.inj hs
        exact .awaitClosed m rest hp hg halive
  case h_9 hp =>
    split at hs
    · cases hs
    · rename_i m rest hg
      obtain rfl := Option.some.inj hs
      exact .push m rest hp hg
  case h_10 outcome hp =>
    split at hs
    · cases hs
    · rename_i m rest hg
      split at hs
      · rename_i hfree
        obtain rfl := Option.some.inj hs
        exact .commit m rest outcome hp hg hfree
      · cases hs
  case h_11 hp =>
    split at hs
    · rename_i hg
      obtain rfl := Option.some.inj hs
      exact .unwound hp hg
    · rename_i m rest hg
      split at hs
      · rename_i hfree
        obtain rfl := Option.some.inj hs
        exact .dropGuard m rest hp hg hfree
      · cases hs
  -- a call that has ended does not advance
  all_goals cases hs

/-- All that a visit can do: the guards it passed, and the entry it visited. -/
theorem visit_cases (hs : b.visit ops k j = some b') :
    ∃ c, b.calls[k]? = some c ∧ c.phase = .fanout ∧ j ∈ c.todo ∧
      ∃ b₂ c₂, b.visitEntry ops { c with todo := c.todo.erase j } j = (b₂, c₂) ∧
        b' = b₂.setCall k c₂ := by
  unfold visit at hs
  split at hs
  · cases hs
  · rename_i c hk
    split at hs
    · rename_i hvisit
      exact ⟨c, hk, hvisit.1, hvisit.2, _, _, rfl, (Option.some.inj hs).symm⟩
    · cases hs

/-- A future is dropped while it awaits a permit, or with a permit that then goes back. -/
theorem cancel_cases (hs : b.cancel k = some b') : ∃ c, b.calls[k]? = some c ∧
    (c.phase = .await ∧ b' = b.setCall k { c with phase := .unwind } ∨
      ∃ m rest, c.phase = .granted ∧ c.guards = m :: rest ∧
        b' = (b.setMpsc m.id (b.mpsc m.id).release).setCall k { c with phase := .unwind }) := by
  unfold cancel at hs
  split at hs
  · cases hs
  · rename_i c hk
    refine ⟨c, hk, ?_⟩
    split at hs
    · rename_i hp
      exact .inl ⟨hp, (Option.some.inj hs).symm⟩
    · rename_i m rest hp hg
      exact .inr ⟨m, rest, hp, hg, (Option.some.inj hs).symm⟩
    · cases hs

/-- A receive takes from the bounded channel or from the coalesce queue. -/
theorem recv_cases {env : EventEnvelope δ} (hs : b.recv j = some (env, b')) :
    (∃ q, (b.mpsc j).recv = some (env, q) ∧ b' = b.setMpsc j q) ∨
      ∃ state, b' = { b with coalesce := Function.update b.coalesce j state } := by
  unfold recv at hs
  split at hs
  · cases hs
  · obtain ⟨⟨e, q⟩, hq, he⟩ := Option.map_eq_some_iff.mp hs
    cases he
    exact .inl ⟨q, hq, rfl⟩
  · obtain ⟨⟨e, state⟩, -, he⟩ := Option.map_eq_some_iff.mp hs
    cases he
    exact .inr ⟨state, rfl⟩

theorem step_recv (hs : step ops b (.recv j) = some b') : ∃ env, b.recv j = some (env, b') := by
  simp only [step, Option.map_eq_some_iff, Prod.exists] at hs
  obtain ⟨env, b'', hr, rfl⟩ := hs
  exact ⟨env, hr⟩

theorem step_subscribe {topic : τ} {opts : SubscribeOpts}
    (hs : step ops b (.subscribe topic opts) = some b') : b' = b.subscribe topic opts := by
  simp only [step] at hs
  split at hs
  · exact (Option.some.inj hs).symm
  · cases hs

theorem step_unsubscribe (hs : step ops b (.unsubscribe j) = some b') : b' = b.reap j := by
  simp only [step] at hs
  split at hs
  · exact (Option.some.inj hs).symm
  · cases hs

end Inversion

end Bus

end Boardwalk
