import Boardwalk.Events.Spec.Once
import Boardwalk.Lib.Party

/-!
# The reverse index and the rings, step by step

A publish in progress answers for at most one entry of the reverse index that no ring answers for:
that of its own envelope until the envelope is recorded or rejected, and that of the envelope its
record took out of the ring until it is evicted (`Call.indexed`).  `Books` says what a step does to the
rings, the index and these entries.
-/

namespace Boardwalk

/-- The entry of the reverse index that the call answers for. -/
def Call.indexed {δ : Type} (c : Call δ) : Option (EventId × StreamId) :=
  match c.phase with
  | .check | .reject _ | .record => some (c.envelope.eventId, c.envelope.streamId)
  | .evict id => some (id, c.envelope.streamId)
  | _ => none

theorem Call.indexed_of_ended {δ : Type} {c : Call δ} (h : c.phase.ended = true) :
    c.indexed = none := by
  cases hp : c.phase <;> simp_all [Phase.ended, Call.indexed]

theorem Call.indexed_of_looped {δ : Type} {c : Call δ} (h : c.phase.looped = true) :
    c.indexed = none := by
  cases hp : c.phase <;> simp_all [Phase.looped, Call.indexed]

namespace Bus

variable {δ τ κ : Type} [DecidableEq κ]

/-- The entries that the calls in progress answer for. -/
def indexed (b : Bus δ τ) : List (EventId × StreamId) := b.calls.filterMap Call.indexed

/-- The envelope that a step records. -/
def recording (b : Bus δ τ) : BusAction δ τ → Option (EventEnvelope δ)
  | .advance k =>
    match b.calls[k]? with
    | some c => if c.phase = .record then some c.envelope else none
    | none => none
  | _ => none

/-- What a step of a bus with async calls does to the rings and to the reverse index. -/
inductive Books (b : Bus δ τ) (a : BusAction δ τ) (b' : Bus δ τ) : Prop where
  | quiet (recording : b.recording a = none) (cache : b'.replayCache = b.replayCache)
      (registry : b'.registry = b.registry) (indexed : b'.indexed = b.indexed)
  | publish (env : EventEnvelope δ) (action : a = .publish env)
      (cache : b'.replayCache = b.replayCache) (registry : b'.registry = b.registry)
      (indexed : b'.indexed = b.indexed ++ [(env.eventId, env.streamId)])
  /-- An entry goes, after a rejection or after a record. -/
  | forget (id : EventId) (streamId : StreamId) (recording : b.recording a = none)
      (cache : b'.replayCache = b.replayCache) (registry : b'.registry = b.registry.evict id)
      (indexed : b.indexed.Perm ((id, streamId) :: b'.indexed))
  | record (env : EventEnvelope δ) (others : List (EventId × StreamId))
      (recording : b.recording a = some env)
      (cache : b'.replayCache = (b.replayCache.record env).1)
      (registry : b'.registry = b.registry)
      (indexed : b.indexed.Perm ((env.eventId, env.streamId) :: others))
      (indexed' : b'.indexed.Perm
        (((b.replayCache.record env).2.map fun id => (id, env.streamId)).toList ++ others))

section Steps

variable {ops : BusOps δ τ κ} {b b' : Bus δ τ} {a : BusAction δ τ} {k : ℕ} {c c' : Call δ}

theorem registry_of_rest {b₁ : Bus δ τ} (h : b₁.rest = b.rest) : b₁.registry = b.registry := by
  have hregistry := congrArg Bus.registry h
  exact hregistry

theorem calls_of_rest {b₁ : Bus δ τ} (h : b₁.rest = b.rest) : b₁.calls = b.calls := by
  have hcalls := congrArg Bus.calls h
  exact hcalls

omit [DecidableEq κ] in
/-- A step that moves a call, and neither records nor evicts. -/
theorem Books.of_move {b₁ : Bus δ τ} (hk : b.calls[k]? = some c) (hrec : b.recording a = none)
    (hcache : b₁.replayCache = b.replayCache) (hregistry : b₁.registry = b.registry)
    (hcalls : b₁.calls = b.calls) (hheld : c'.indexed = c.indexed) :
    Books b a (b₁.setCall k c') := by
  refine .quiet hrec hcache hregistry ?_
  rw [indexed, calls_setCall_of hcalls]
  exact Party.filterMap_set_of_eq hk hheld

omit [DecidableEq κ] in
/-- A step that only changes subscriptions and moves a call. -/
theorem Books.of_rest {b₁ : Bus δ τ} (hk : b.calls[k]? = some c) (hrest : b₁.rest = b.rest)
    (hrec : b.recording a = none) (hheld : c'.indexed = c.indexed) : Books b a (b₁.setCall k c') :=
  .of_move hk hrec (cache_of_rest hrest) (registry_of_rest hrest) (calls_of_rest hrest) hheld

omit [DecidableEq κ] in
/-- A call gives up its entry. -/
theorem Books.of_forget {id : EventId} {streamId : StreamId} (hk : b.calls[k]? = some c)
    (hrec : b.recording a = none) (hheld : c.indexed = some (id, streamId))
    (hheld' : c'.indexed = none) :
    Books b a ({ b with registry := b.registry.evict id }.setCall k c') := by
  refine .forget id streamId hrec rfl rfl ?_
  obtain ⟨others, hold, hnew⟩ := Party.exists_others Call.indexed hk
  have hset := hnew c'
  rw [hheld] at hold
  rw [hheld'] at hset
  exact hold.trans (hset.symm.cons _)

omit [DecidableEq κ] in
theorem recording_advance (hk : b.calls[k]? = some c) (hp : c.phase ≠ .record) :
    b.recording (.advance k) = none := by
  simp [recording, hk, hp]

theorem indexed_afterMatch (c : Call δ) (gs : List Match) : (afterMatch c gs).indexed = none := by
  cases gs <;> rfl

omit [DecidableEq κ] in
/-- What a step of a call enters in the books is what its phase says. -/
theorem books_of_advance (hs : b.advance ops k = some b') : Books b (.advance k) b' := by
  obtain ⟨c, hk, hadv⟩ := advance_cases hs
  -- a step that is no record leaves the ring, the registry and what is entered in it
  have hquiet : ∀ {b₁ : Bus δ τ} {c' : Call δ}, c.phase ≠ .record → b₁.rest = b.rest →
      c'.indexed = c.indexed → Books b (.advance k) (b₁.setCall k c') := fun hp hrest hheld =>
    .of_rest hk hrest (recording_advance hk hp) hheld
  cases hadv with
  | tooLarge hp | fits hp => exact hquiet (by simp [hp]) rfl (by simp [Call.indexed, hp])
  | reject limit hp =>
    exact .of_forget hk (recording_advance hk (by simp [hp])) (by simp [Call.indexed, hp]; rfl) rfl
  | evict id hp =>
    exact .of_forget hk (recording_advance hk (by simp [hp])) (by simp [Call.indexed, hp]; rfl) rfl
  | record p hp hnext =>
    -- the one step that writes: what the call held, the ring has now, and what fell out is held
    obtain ⟨others, hold, hnew⟩ := Party.exists_others Call.indexed hk
    have hset := hnew { c with phase := p }
    have hown : c.indexed = some (c.envelope.eventId, c.envelope.streamId) := by
      simp [Call.indexed, hp]
    rw [hown] at hold
    have hnew : { c with phase := p }.indexed =
        (b.replayCache.record c.envelope).2.map fun id => (id, c.envelope.streamId) := by
      rw [hnext]
      cases (b.replayCache.record c.envelope).2 <;> rfl
    rw [hnew] at hset
    exact .record c.envelope others (by simp [recording, hk, hp]) rfl rfl hold hset
  | acquire hp =>
    have hquiet := recording_advance hk (by simp [hp])
    exact .quiet hquiet rfl rfl (Party.filterMap_set_of_eq hk (by simp [Call.indexed, hp]))
  | finish hp =>
    -- removals are not recorded
    have hrest := rest_foldl_reap b c.toRemove
    have hnone : c.indexed = none := by simp [Call.indexed, hp]
    have hcache := cache_of_rest hrest
    have hregistry := registry_of_rest hrest
    have hcalls := calls_of_rest hrest
    have hheld := indexed_afterMatch { c with toRemove := [] } c.guards
    refine .quiet (recording_advance hk (by simp [hp])) hcache hregistry ?_
    change ((c.toRemove.foldl reap b).calls.set k _).filterMap Call.indexed = _
    rw [hcalls]
    exact Party.filterMap_set_of_eq hk (hheld.trans hnone.symm)
  | send m rest hp =>
    have hheld : ∀ p : Phase, p.looped = true → { c with phase := p }.indexed = c.indexed := by
      intro p hloop
      rw [Call.indexed_of_looped (by exact hloop), Call.indexed_of_looped (by rw [hp]; rfl)]
    unfold sendMatch
    split
    · exact hquiet (by simp [hp]) rfl (hheld _ rfl)
    · exact hquiet (by simp [hp]) rfl (hheld _ rfl)
    · split <;> exact hquiet (by simp [hp]) rfl (hheld _ rfl)
  | permit m rest q hp => exact hquiet (by simp [hp]) rfl (by simp [Call.indexed, hp])
  | awaitClosed m rest hp => exact hquiet (by simp [hp]) rfl (by simp [Call.indexed, hp])
  | push m rest hp => exact hquiet (by simp [hp]) rfl (by simp [Call.indexed, hp])
  | unwound hp => exact hquiet (by simp [hp]) rfl (by simp [Call.indexed, hp])
  | commit m rest outcome hp =>
    have hnone : c.indexed = none := Call.indexed_of_looped (by rw [hp]; rfl)
    cases outcome with
    | delivered =>
      exact hquiet (by simp [hp]) (b.touches_commitDelivered m.id c.envelope).rest
        ((indexed_afterMatch ..).trans hnone.symm)
    | dropped =>
      exact hquiet (by simp [hp]) (b.touches_refundClaim m.id).rest
        ((indexed_afterMatch ..).trans hnone.symm)
    | disconnectSlowConsumer =>
      exact hquiet (by simp [hp]) (b.touches_commitDisconnect m.id).rest
        ((indexed_afterMatch ..).trans hnone.symm)
    | closed =>
      exact hquiet (by simp [hp]) (b.touches_remove m.id).rest
        ((indexed_afterMatch ..).trans hnone.symm)
  | dropGuard m rest hp =>
    exact hquiet (by simp [hp]) (b.touches_refundClaim m.id).rest (by simp [Call.indexed, hp])

/-- A visit by an async publish leaves all but the subscriptions as they were. -/
theorem rest_visitEntry {b₂ : Bus δ τ} {j : SubscriptionId} (hapi : c.api = .publish)
    (h : b.visitEntry ops c j = (b₂, c')) : b₂.rest = b.rest := by
  unfold visitEntry at h
  split at h
  · cases h
    rfl
  split at h
  · split at h
    · unfold coalesceEntry at h
      dsimp only at h
      split at h <;> cases h <;> rfl
    · rename_i hapi'
      rw [hapi] at hapi'
      cases hapi'
    · unfold publishEntry at h
      split at h <;> cases h <;> rfl
  · cases h
    rfl

theorem rest_recv {env : EventEnvelope δ} {j : SubscriptionId} (h : b.recv j = some (env, b')) :
    b'.rest = b.rest := by
  rcases recv_cases h with ⟨q, -, rfl⟩ | ⟨state, rfl⟩
  · rfl
  · rfl

omit [DecidableEq κ] in
/-- A step that moves no call. -/
theorem Books.of_still (hrec : b.recording a = none) (hcache : b'.replayCache = b.replayCache)
    (hregistry : b'.registry = b.registry) (hcalls : b'.calls = b.calls) : Books b a b' := by
  refine .quiet hrec hcache hregistry ?_
  rw [indexed, hcalls]
  rfl

/-- **What a step does to the rings and to the reverse index.** -/
theorem books_of_step (hasync : b.AllAsync) (ha : ∀ env, a ≠ .tryPublish env)
    (hs : step ops b a = some b') : Books b a b' := by
  -- only `advance` records
  cases a with
  | subscribe topic opts =>
    obtain rfl := step_subscribe hs
    have hsub : (b.subscribe topic opts).replayCache = b.replayCache ∧
        (b.subscribe topic opts).registry = b.registry := by
      unfold subscribe
      dsimp only
      split
      · exact ⟨rfl, rfl⟩
      · split <;> exact ⟨rfl, rfl⟩
    exact .of_still rfl hsub.1 hsub.2 (calls_subscribe b topic opts)
  | unsubscribe j =>
    obtain rfl := step_unsubscribe hs
    have hrest := (b.touches_reap j).rest
    exact .of_still rfl (cache_of_rest hrest) (registry_of_rest hrest) (calls_of_rest hrest)
  | publish env =>
    obtain rfl := Option.some.inj hs
    refine .publish env rfl rfl rfl ?_
    rw [indexed, List.filterMap_append]
    rfl
  | tryPublish env => exact absurd rfl (ha env)
  | advance k => exact books_of_advance hs
  | visit k j =>
    obtain ⟨c, hk, hp, -, b₂, c₂, hentry, rfl⟩ := visit_cases hs
    have hapi : { c with todo := c.todo.erase j }.api = .publish :=
      hasync c (List.mem_of_getElem? hk)
    -- a visit claims, and its call goes on holding what it held
    have hphase := (visitEntry_async hapi hentry).2.2.1
    refine .of_rest hk (rest_visitEntry hapi hentry) rfl ?_
    simp [Call.indexed, hp, hphase]
  | cancel k =>
    obtain ⟨c, hk, ⟨hp, rfl⟩ | ⟨m, rest, hp, -, rfl⟩⟩ := cancel_cases hs
    · exact .of_rest hk rfl rfl (by simp [Call.indexed, hp])
    · exact .of_rest hk rfl rfl (by simp [Call.indexed, hp])
  | recv j =>
    obtain ⟨env, hr⟩ := step_recv hs
    have hrest := rest_recv hr
    exact .of_still rfl (cache_of_rest hrest) (registry_of_rest hrest) (calls_of_rest hrest)
  | dropRx j => obtain rfl := Option.some.inj hs; exact .of_still rfl rfl rfl rfl
  | withMaxEventSize limit => obtain rfl := Option.some.inj hs; exact .of_still rfl rfl rfl rfl

end Steps

end Bus

end Boardwalk
