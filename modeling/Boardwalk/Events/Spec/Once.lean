import Boardwalk.Events.Spec.Alone
import Boardwalk.Lib.Party

/-!
# A publish acts once

A call of the async `publish` records its envelope in the ring once, and enqueues it to each
subscription at most once: its loop visits an entry once, and what it has enqueued it commits.  So
with distinct envelopes no ring and no queue holds an envelope twice (`RecordsOnce`,
`EnqueuesOnce`).
-/

namespace Boardwalk

/-- The replay cache has the envelope. -/
def Phase.recorded : Phase → Bool
  | .check | .reject _ | .record | .rejected _ => false
  | _ => true

/-- The loop over the entries is over. -/
def Phase.looped : Phase → Bool
  | .check | .reject _ | .record | .evict _ | .acquire | .fanout | .rejected _ => false
  | _ => true

namespace Call

variable {δ : Type}

/-- The loop of the call has not visited `i`. -/
def Unvisited (i : SubscriptionId) (c : Call δ) : Prop :=
  c.phase.looped = false ∧ (c.phase = .fanout → i ∈ c.todo)

/-- The call may still enqueue its envelope to `i`. -/
def MayEnqueue (i : SubscriptionId) (c : Call δ) : Prop := c.Unvisited i ∨ c.Unsent i

/-- The loop of the call visits `i` once. -/
structure Orderly (i : SubscriptionId) (c : Call δ) : Prop where
  todo : c.phase = .fanout → c.todo.Nodup
  unvisited : c.Unvisited i → c.outstanding i = 0
  once : c.outstanding i ≤ 1
  ended : c.phase.ended = true → c.outstanding i = 0

/-- What one operation of an async `publish` does to the call; `keys` are the entries there are. -/
inductive Next (keys : List SubscriptionId) (c : Call δ) : Call δ → Prop where
  /-- Before the loop. -/
  | early (p : Phase) (before : c.phase.looped = false ∧ c.phase ≠ .fanout)
      (after : p.looped = false ∧ p ≠ .fanout)
      (recorded : c.phase.recorded = true → p.recorded = true) : Next keys c { c with phase := p }
  | enter (phase : c.phase = .acquire) : Next keys c { c with phase := .fanout, todo := keys }
  | visit (j : SubscriptionId) (c' : Call δ) (phase : c.phase = .fanout) (mem : j ∈ c.todo)
      (phase' : c'.phase = .fanout) (todo : c'.todo = c.todo.erase j)
      (envelope : c'.envelope = c.envelope)
      (guards : c'.guards = c.guards ∨ ∃ policy, c'.guards = c.guards ++ [⟨j, policy⟩])
      (removes : ∀ i ∈ c'.toRemove, i ∈ c.toRemove ∨ i = j) : Next keys c c'
  /-- The end of the loop and after. -/
  | settle (c' : Call δ) (before : c.phase.looped = true ∨ c.phase = .fanout ∧ c.todo = [])
      (after : c'.phase.looped = true) (envelope : c'.envelope = c.envelope)
      (guards : c'.guards <:+ c.guards)
      (resolved : c.phase = .commit .delivered → c'.guards = c.guards.tail)
      (ended : c'.phase.ended = true → c'.guards = [])
      (todo : c'.todo = c.todo) (removes : ∀ i ∈ c'.toRemove, i ∈ c.toRemove) : Next keys c c'

variable {i : SubscriptionId} {keys : List SubscriptionId} {c c' : Call δ}

theorem Next.envelope_eq (h : Next keys c c') : c'.envelope = c.envelope := by
  cases h with
  | early | enter => rfl
  | visit _ _ _ _ _ _ henv => exact henv
  | settle _ _ _ henv => exact henv

theorem recorded_of_looped {p : Phase} (h : p.looped = true) : p.recorded = true := by
  cases p <;> simp_all [Phase.looped, Phase.recorded]

/-- **What is recorded stays recorded.** -/
theorem Next.recorded (h : Next keys c c') (hc : c.phase.recorded = true) :
    c'.phase.recorded = true := by
  cases h with
  | early p _ _ hrec => exact hrec hc
  | enter => rfl
  | visit _ _ _ _ hp => rw [hp]; rfl
  | settle _ _ hafter => exact recorded_of_looped hafter

/-- An entry that was visited stays visited. -/
theorem Next.unvisited (h : Next keys c c') (hc : c'.Unvisited i) : c.Unvisited i := by
  obtain ⟨hloop, htodo⟩ := hc
  cases h with
  | early p hbefore => exact ⟨hbefore.1, fun hp => absurd hp hbefore.2⟩
  | enter hp => exact ⟨by rw [hp]; rfl, fun hp' => by rw [hp] at hp'; cases hp'⟩
  | visit j _ hp _ hp' heq =>
    refine ⟨by rw [hp]; rfl, fun _ => ?_⟩
    have hmem := htodo hp'
    rw [heq] at hmem
    exact List.mem_of_mem_erase hmem
  | settle _ _ hafter => rw [hafter] at hloop; cases hloop

/-- An orderly call stays orderly over each of its own steps. -/
theorem Orderly.next (h : c.Orderly i) (hkeys : keys.Nodup) (hn : Next keys c c') :
    c'.Orderly i := by
  cases hn with
  | early p hbefore hafter =>
    have h0 := h.unvisited ⟨hbefore.1, fun hp => absurd hp hbefore.2⟩
    exact ⟨fun hp => absurd hp hafter.2, fun _ => h0, h.once, fun _ => h0⟩
  | enter hp =>
    have h0 := h.unvisited ⟨by rw [hp]; rfl, fun hp' => by rw [hp] at hp'; cases hp'⟩
    exact ⟨fun _ => hkeys, fun _ => h0, h.once, by simp [Phase.ended]⟩
  | visit j _ hp hmem hp' htodo _ hguards =>
    have hnodup := h.todo hp
    -- the visited entry is not visited again
    have hgone : j ∉ c'.todo := by rw [htodo]; exact hnodup.not_mem_erase
    have h0 : i ∈ c.todo → c.outstanding i = 0 := fun hi =>
      h.unvisited ⟨by rw [hp]; rfl, fun _ => hi⟩
    have hout : c'.outstanding i = c.outstanding i ∨
        j = i ∧ c'.outstanding i = c.outstanding i + 1 := by
      rcases hguards with hg | ⟨policy, hg⟩
      · exact .inl (by rw [Call.outstanding, hg]; rfl)
      · by_cases hij : j = i
        · exact .inr ⟨hij, by simp [Call.outstanding, hg, hij]⟩
        · exact .inl (by simp [Call.outstanding, hg, hij])
    refine ⟨fun _ => by rw [htodo]; exact hnodup.erase j, fun hun => ?_, ?_,
      by simp [hp', Phase.ended]⟩
    · have hi : i ∈ c'.todo := hun.2 hp'
      rcases hout with heq | ⟨rfl, -⟩
      · rw [heq]
        rw [htodo] at hi
        exact h0 (List.mem_of_mem_erase hi)
      · exact absurd hi hgone
    · rcases hout with heq | ⟨rfl, heq⟩
      · rw [heq]; exact h.once
      · rw [heq, h0 hmem]
  | settle _ _ hafter _ hsuf _ hended =>
    refine ⟨fun hp => ?_, fun hun => ?_, ?_, fun hp => ?_⟩
    · rw [hp] at hafter; cases hafter
    · rw [hun.1] at hafter; cases hafter
    · exact (hsuf.sublist.countP_le).trans h.once
    · rw [Call.outstanding, hended hp]; rfl

/-- The entries ahead of the loop and those it removes were there when it started. -/
theorem Next.known {n : ℕ} (h : Next keys c c') (hkeys : ∀ j ∈ keys, j < n)
    (hc : (∀ j ∈ c.todo, j < n) ∧ ∀ j ∈ c.toRemove, j < n) :
    (∀ j ∈ c'.todo, j < n) ∧ ∀ j ∈ c'.toRemove, j < n := by
  cases h with
  | early => exact hc
  | enter => exact ⟨hkeys, hc.2⟩
  | visit j _ _ hmem _ htodo _ _ hremove =>
    refine ⟨fun i hi => hc.1 i ?_, fun i hi => ?_⟩
    · rw [htodo] at hi
      exact List.mem_of_mem_erase hi
    · rcases hremove i hi with hi | rfl
      · exact hc.2 i hi
      · exact hc.1 i hmem
  | settle _ _ _ _ _ _ _ htodo hremove =>
    exact ⟨by rw [htodo]; exact hc.1, fun i hi => hc.2 i (hremove i hi)⟩

/-- A call holds at most one claim on `i`; once it has enqueued, the claim is all there is. -/
theorem Orderly.not_unsent_iff (h : c.Orderly i) :
    ¬ c.Unsent i ↔ c.outstanding i = 0 ∨ c.outstanding i = 1 ∧ c.landed i = 1 := by
  have hle := c.landed_le_outstanding i
  have honce := h.once
  unfold Unsent
  omega

/-- **A call that cannot enqueue to `i` any more never can again.** -/
theorem Next.not_mayEnqueue (hn : Next keys c c') (h : c.Orderly i) (hkeys : keys.Nodup)
    (hc : ¬ c.MayEnqueue i) : ¬ c'.MayEnqueue i := by
  have hvisited : ¬ c.Unvisited i := fun hun => hc (.inl hun)
  -- it was neither to be visited nor claimed and unsent
  have hsent : ¬ c.Unsent i := fun hun => hc (.inr hun)
  rintro (hun | hun)
  · exact hvisited (hn.unvisited hun)
  · have h' := h.next hkeys hn
    cases hn with
    | early p hbefore => exact hvisited ⟨hbefore.1, fun hp => absurd hp hbefore.2⟩
    | enter hp =>
      exact hvisited ⟨by rw [hp]; rfl, fun hp' => by rw [hp] at hp'; cases hp'⟩
    | visit j _ hp hmem _ _ _ hguards =>
      -- the visited entry is not the one of `i`, which is out of `todo`
      have hout : c'.outstanding i = c.outstanding i := by
        rcases hguards with hg | ⟨policy, hg⟩
        · rw [Call.outstanding, hg]; rfl
        · have hij : j ≠ i := by
            rintro rfl
            exact hvisited ⟨by rw [hp]; rfl, fun _ => hmem⟩
          simp [Call.outstanding, hg, hij]
      have hl : c.landed i = 0 := Call.landed_eq_zero (by simp [hp])
      rcases h.not_unsent_iff.mp hsent with h0 | ⟨-, h1⟩
      · unfold Unsent at hun
        omega
      · omega
    | settle _ _ _ _ hsuf hres =>
      -- a call that settles a guard has one claim less
      have hle : c'.outstanding i ≤ c.outstanding i := hsuf.sublist.countP_le
      rcases h.not_unsent_iff.mp hsent with h0 | ⟨h1, hl⟩
      · unfold Unsent at hun
        omega
      · -- the claim is at the head of the guards, and its commit drops it
        unfold Call.landed at hl
        split at hl
        · rename_i hland
          obtain ⟨m, rest, hg, hm⟩ := Call.guards_of_head hland.2
          have hrest : c'.outstanding i = (rest.countP fun m => m.id == i) := by
            rw [Call.outstanding, hres hland.1, hg]
            rfl
          have hcount := Call.outstanding_cons (i := i) hg
          simp only [hm, if_true] at hcount
          unfold Unsent at hun
          omega
        · cases hl

end Call

namespace Bus

variable {δ τ κ : Type} [DecidableEq κ]

/-! ### The calls after a step -/

section Calls

variable {ops : BusOps δ τ κ} {b b' : Bus δ τ} {a : BusAction δ τ} {k : ℕ} {c : Call δ}

theorem next_afterMatch {c₁ : Call δ} {gs : List Match} (keys : List SubscriptionId)
    (hbefore : c.phase.looped = true ∨ c.phase = .fanout ∧ c.todo = [])
    (henv : c₁.envelope = c.envelope) (hgs : gs <:+ c.guards)
    (hres : c.phase = .commit .delivered → gs = c.guards.tail) (htodo : c₁.todo = c.todo)
    (hremove : ∀ i ∈ c₁.toRemove, i ∈ c.toRemove) : c.Next keys (afterMatch c₁ gs) := by
  have hguards : (afterMatch c₁ gs).guards = gs := by cases gs <;> rfl
  refine .settle _ hbefore ?_ ?_ (by rwa [hguards]) (fun hp => hguards.trans (hres hp)) ?_ ?_ ?_
  · cases gs <;> rfl
  · cases gs <;> exact henv
  · cases gs <;> simp [afterMatch, Phase.ended]
  · cases gs <;> exact htodo
  · cases gs <;> exact hremove

omit [DecidableEq κ] in
theorem calls_setCall_of {b₁ : Bus δ τ} (h : b₁.calls = b.calls) (k : ℕ) (c : Call δ) :
    (b₁.setCall k c).calls = b.calls.set k c := by
  rw [← h]
  rfl

theorem next_settle (keys : List SubscriptionId) (hbefore : c.phase.looped = true)
    (hne : c.phase ≠ .commit .delivered) {p : Phase} (hp : p.looped = true)
    (hp' : p.ended = false) : c.Next keys { c with phase := p } :=
  .settle _ (.inl hbefore) hp rfl List.suffix_rfl (fun h => absurd h hne)
    (fun h => by rw [hp'] at h; cases h) rfl fun _ => id

omit [DecidableEq κ] in
/-- A step of a call is one of its own steps, and moves no other call. -/
theorem next_of_advance (hs : b.advance ops k = some b') : ∃ c c', b.calls[k]? = some c ∧
    b'.calls = b.calls.set k c' ∧ c.Next b.keys c' := by
  obtain ⟨c, hk, hadv⟩ := advance_cases hs
  refine ⟨c, ?_⟩
  cases hadv with
  | tooLarge hp | fits hp | reject _ hp | evict _ hp =>
    exact ⟨_, hk, rfl, .early _ (by simp [hp, Phase.looped]) (by simp [Phase.looped])
      (by simp [hp, Phase.recorded])⟩
  | record p hp hnext =>
    refine ⟨_, hk, rfl, .early p (by simp [hp, Phase.looped]) ?_ (by simp [hp, Phase.recorded])⟩
    split at hnext <;> simp [hnext, Phase.looped]
  -- only here does `todo` grow: to the keys of that moment
  | acquire hp => exact ⟨_, hk, rfl, .enter hp⟩
  | finish hp hdone =>
    exact ⟨_, hk, calls_setCall_of (calls_foldl_reap _ _) k _,
      next_afterMatch _ (.inr ⟨hp, List.isEmpty_iff.mp hdone⟩) rfl List.suffix_rfl (by simp [hp])
        rfl (by simp)⟩
  | send m rest hp hg =>
    have hloop : c.phase.looped = true := by rw [hp]; rfl
    unfold sendMatch
    split
    · exact ⟨_, hk, rfl, next_settle _ hloop (by simp [hp]) rfl rfl⟩
    · exact ⟨_, hk, rfl, next_settle _ hloop (by simp [hp]) rfl rfl⟩
    · split <;> exact ⟨_, hk, rfl, next_settle _ hloop (by simp [hp]) rfl rfl⟩
  | permit m rest q hp | awaitClosed m rest hp | push m rest hp =>
    exact ⟨_, hk, rfl, next_settle _ (by rw [hp]; rfl) (by simp [hp]) rfl rfl⟩
  | commit m rest outcome hp hg =>
    -- a commit takes the guard at the head with it
    have hsuf : rest <:+ c.guards := hg ▸ List.suffix_cons m rest
    have htail : rest = c.guards.tail := by rw [hg]; rfl
    have hloop : c.phase.looped = true := by rw [hp]; rfl
    cases outcome <;> exact ⟨_, hk, calls_setCall_of (by simp [recordCommit]) k _,
      next_afterMatch _ (.inl hloop) rfl hsuf (fun _ => htail) rfl fun _ => id⟩
  | dropGuard m rest hp hg =>
    have hsuf : rest <:+ c.guards := hg ▸ List.suffix_cons m rest
    have hloop : c.phase.looped = true := by rw [hp]; rfl
    exact ⟨_, hk, calls_setCall_of (by simp) k _,
      .settle _ (.inl hloop) hloop rfl hsuf (by simp [hp]) (by simp [hp, Phase.ended]) rfl
        fun _ => id⟩
  | unwound hp hg =>
    exact ⟨_, hk, rfl, .settle _ (.inl (by rw [hp]; rfl)) rfl rfl List.suffix_rfl (by simp [hp])
      (fun _ => hg) rfl fun _ => id⟩

/-- **One iteration of the loop of a `publish`**, as far as the call goes. -/
theorem visitEntry_async {b₂ : Bus δ τ} {c₂ : Call δ} {j : SubscriptionId} (hapi : c.api = .publish)
    (h : b.visitEntry ops c j = (b₂, c₂)) : b₂.calls = b.calls ∧ b₂.replayCache = b.replayCache ∧
      c₂.phase = c.phase ∧ c₂.todo = c.todo ∧ c₂.envelope = c.envelope ∧
      (c₂.guards = c.guards ∨ ∃ policy, c₂.guards = c.guards ++ [⟨j, policy⟩]) ∧
      ∀ i ∈ c₂.toRemove, i ∈ c.toRemove ∨
        i = j ∧ ∃ sub, b.subs j = some sub ∧ sub.outbound = .coalesce := by
  unfold visitEntry at h
  split at h
  · cases h
    exact ⟨rfl, rfl, rfl, rfl, rfl, .inl rfl, fun _ => .inl⟩
  rename_i sub hsub
  split at h
  · split at h
    · rename_i hout
      -- a coalesce entry may be marked for removal, but nothing is claimed
      unfold coalesceEntry at h
      dsimp only at h
      have hremove : ∀ i ∈ c.toRemove ++ [j], i ∈ c.toRemove ∨
          i = j ∧ ∃ sub, b.subs j = some sub ∧ sub.outbound = .coalesce := by
        intro i hi
        rcases List.mem_append.mp hi with hi | hi
        · exact .inl hi
        · exact .inr ⟨List.mem_singleton.mp hi, sub, hsub, hout⟩
      split at h <;> cases h
      · refine ⟨rfl, rfl, rfl, rfl, rfl, .inl rfl, fun i hi => ?_⟩
        dsimp only at hi
        split at hi
        · exact hremove i hi
        · exact .inl hi
      · exact ⟨rfl, rfl, rfl, rfl, rfl, .inl rfl, fun _ => .inl⟩
      · exact ⟨rfl, rfl, rfl, rfl, rfl, .inl rfl, fun _ => .inl⟩
      · exact ⟨rfl, rfl, rfl, rfl, rfl, .inl rfl, hremove⟩
    · rename_i hapi'
      rw [hapi] at hapi'
      cases hapi'
    · -- an entry with a channel gets a guard
      unfold publishEntry at h
      split at h <;> cases h
      · exact ⟨rfl, rfl, rfl, rfl, rfl, .inl rfl, fun _ => .inl⟩
      · exact ⟨rfl, rfl, rfl, rfl, rfl, .inr ⟨_, rfl⟩, fun _ => .inl⟩
  · cases h
    exact ⟨rfl, rfl, rfl, rfl, rfl, .inl rfl, fun _ => .inl⟩

/-- The calls after a step of a bus with async calls only: a new call came in, or one moved. -/
inductive CallsMove (b : Bus δ τ) (a : BusAction δ τ) (b' : Bus δ τ) : Prop where
  | same (calls : b'.calls = b.calls)
  | publish (env : EventEnvelope δ) (action : a = .publish env)
      (calls : b'.calls = b.calls ++ [{ api := .publish, envelope := env }])
  | next (k : ℕ) (c c' : Call δ) (at_k : b.calls[k]? = some c)
      (calls : b'.calls = b.calls.set k c') (next : c.Next b.keys c')

theorem callsMove_of_step (hasync : b.AllAsync) (ha : ∀ env, a ≠ .tryPublish env)
    (hs : step ops b a = some b') : CallsMove b a b' := by
  cases a with
  | subscribe topic opts =>
    -- each action is a move of one call, the start of one, or none
    obtain rfl := step_subscribe hs
    exact .same (calls_subscribe b topic opts)
  | unsubscribe j =>
    obtain rfl := step_unsubscribe hs
    exact .same (b.calls_reap j)
  | publish env => obtain rfl := Option.some.inj hs; exact .publish env rfl rfl
  | tryPublish env => exact absurd rfl (ha env)
  | advance k =>
    obtain ⟨c, c', hk, hcalls, hnext⟩ := next_of_advance hs
    exact .next k c c' hk hcalls hnext
  | visit k j =>
    obtain ⟨c, hk, hp, hj, b₂, c₂, hentry, rfl⟩ := visit_cases hs
    have hapi : { c with todo := c.todo.erase j }.api = .publish :=
      hasync c (List.mem_of_getElem? hk)
    obtain ⟨hcalls, -, hphase, htodo, henv, hguards, hremove⟩ := visitEntry_async hapi hentry
    exact .next k c c₂ hk (by simp [setCall, hcalls])
      (.visit j c₂ hp hj (hphase.trans hp) htodo henv hguards
        fun i hi => (hremove i hi).imp_right And.left)
  | cancel k =>
    obtain ⟨c, hk, ⟨hp, rfl⟩ | ⟨m, rest, hp, -, rfl⟩⟩ := cancel_cases hs
    · exact .next k c _ hk rfl (next_settle _ (by rw [hp]; rfl) (by simp [hp]) rfl rfl)
    · exact .next k c _ hk rfl (next_settle _ (by rw [hp]; rfl) (by simp [hp]) rfl rfl)
  | recv j =>
    obtain ⟨env, hr⟩ := step_recv hs
    exact .same (frame_recv (i := j) hr).2
  | dropRx j => obtain rfl := Option.some.inj hs; exact .same rfl
  | withMaxEventSize limit => obtain rfl := Option.some.inj hs; exact .same rfl

/-- **A call that has ended does not go on**: one in progress was so before, unless it is new. -/
theorem unended_of_step (ha : ∀ env, a ≠ .publish env) (ha' : ∀ env, a ≠ .tryPublish env)
    (hasync : b.AllAsync) (hs : step ops b a = some b') :
    ∀ c' ∈ b'.calls, c'.phase.ended = false →
      ∃ c ∈ b.calls, c.envelope = c'.envelope ∧ c.phase.ended = false := by
  -- a call that ends or goes on is one that had not ended
  have hsame : b'.calls = b.calls → ∀ c' ∈ b'.calls, c'.phase.ended = false →
      ∃ c ∈ b.calls, c.envelope = c'.envelope ∧ c.phase.ended = false := by
    intro hcalls c' hc' hended
    exact ⟨c', hcalls ▸ hc', rfl, hended⟩
  have hset : ∀ {k : ℕ} {c d : Call δ}, b.calls[k]? = some c → c.phase.ended = false →
      b'.calls = b.calls.set k d → d.envelope = c.envelope →
      ∀ c' ∈ b'.calls, c'.phase.ended = false →
        ∃ c ∈ b.calls, c.envelope = c'.envelope ∧ c.phase.ended = false := by
    intro k c d hk hrun hcalls henv
    refine Party.forall_mem_set hcalls (fun c' hc' hended => ⟨c', hc', rfl, hended⟩) fun _ => ?_
    exact ⟨c, List.mem_of_getElem? hk, henv.symm, hrun⟩
  cases a with
  | subscribe topic opts =>
    obtain rfl := step_subscribe hs
    exact hsame (calls_subscribe b topic opts)
  | unsubscribe j =>
    obtain rfl := step_unsubscribe hs
    exact hsame (b.calls_reap j)
  | publish env => exact absurd rfl (ha env)
  | tryPublish env => exact absurd rfl (ha' env)
  | advance k =>
    obtain ⟨c, d, hk, hcalls, hnext⟩ := next_of_advance hs
    exact hset hk (not_ended_of_advance hk hs) hcalls hnext.envelope_eq
  | visit k j =>
    obtain ⟨c, hk, hp, -, b₂, c₂, hentry, rfl⟩ := visit_cases hs
    have hapi : { c with todo := c.todo.erase j }.api = .publish :=
      hasync c (List.mem_of_getElem? hk)
    obtain ⟨hcalls, -, -, -, henv, -⟩ := visitEntry_async hapi hentry
    exact hset hk (by rw [hp]; rfl) (calls_setCall_of hcalls k c₂) henv
  | cancel k =>
    obtain ⟨c, hk, ⟨hp, rfl⟩ | ⟨m, rest, hp, -, rfl⟩⟩ := cancel_cases hs
    · exact hset hk (by rw [hp]; rfl) rfl rfl
    · exact hset hk (by rw [hp]; rfl) rfl rfl
  | recv j =>
    obtain ⟨env, hr⟩ := step_recv hs
    exact hsame (frame_recv (i := j) hr).2
  | dropRx j => obtain rfl := Option.some.inj hs; exact hsame rfl
  | withMaxEventSize limit => obtain rfl := Option.some.inj hs; exact hsame rfl

end Calls

/-! ### The ring after a step -/

section Ring

variable {ops : BusOps δ τ κ} {b b' : Bus δ τ} {a : BusAction δ τ}

/-- The cache after a step: as it was, or with the envelope of a call that records it. -/
inductive CacheMove (b b' : Bus δ τ) : Prop where
  | same (cache : b'.replayCache = b.replayCache)
  | record (k : ℕ) (c c' : Call δ) (at_k : b.calls[k]? = some c) (phase : c.phase = .record)
      (calls : b'.calls = b.calls.set k c') (envelope : c'.envelope = c.envelope)
      (recorded : c'.phase.recorded = true)
      (cache : b'.replayCache = (b.replayCache.record c.envelope).1)

theorem cache_of_rest {b₁ : Bus δ τ} (h : b₁.rest = b.rest) : b₁.replayCache = b.replayCache := by
  have hcache := congrArg Bus.replayCache h
  exact hcache

omit [DecidableEq κ] in
/-- A step of a call records at most its own envelope in the replay cache. -/
theorem cacheMove_of_advance {k : ℕ} (hs : b.advance ops k = some b') : CacheMove b b' := by
  obtain ⟨c, hk, hadv⟩ := advance_cases hs
  cases hadv with
  | tooLarge | fits | reject | evict | acquire | permit | awaitClosed | push | unwound =>
    exact .same rfl
  | record p hp hnext =>
    -- only the record writes to the ring
    refine .record k c _ hk hp rfl rfl ?_ rfl
    split at hnext <;> rw [hnext] <;> rfl
  | finish => exact .same (cache_of_rest (rest_foldl_reap b c.toRemove) :)
  | send m =>
    unfold sendMatch
    split
    · exact .same rfl
    · exact .same rfl
    · split <;> exact .same rfl
  | commit m rest outcome =>
    cases outcome with
    | delivered =>
      exact .same (cache_of_rest (b.touches_commitDelivered m.id c.envelope).rest :)
    | dropped => exact .same (cache_of_rest (b.touches_refundClaim m.id).rest :)
    | disconnectSlowConsumer =>
      exact .same (cache_of_rest (b.touches_commitDisconnect m.id).rest :)
    | closed => exact .same (cache_of_rest (b.touches_remove m.id).rest :)
  | dropGuard m => exact .same (cache_of_rest (b.touches_refundClaim m.id).rest :)

/-- Every action records at most one envelope in the replay cache. -/
theorem cacheMove_of_step (hasync : b.AllAsync) (hs : step ops b a = some b') :
    CacheMove b b' := by
  cases a with
  | subscribe topic opts =>
    obtain rfl := step_subscribe hs
    refine .same ?_
    unfold subscribe
    dsimp only
    split
    · rfl
    · split <;> rfl
  | unsubscribe j =>
    obtain rfl := step_unsubscribe hs
    exact .same (cache_of_rest (b.touches_reap j).rest :)
  | publish env => obtain rfl := Option.some.inj hs; exact .same rfl
  | tryPublish env => obtain rfl := Option.some.inj hs; exact .same rfl
  | advance k => exact cacheMove_of_advance hs
  | visit k j =>
    obtain ⟨c, hk, -, -, b₂, c₂, hentry, rfl⟩ := visit_cases hs
    have hapi : { c with todo := c.todo.erase j }.api = .publish :=
      hasync c (List.mem_of_getElem? hk)
    -- a visit goes nowhere near the ring
    exact .same (visitEntry_async hapi hentry).2.1
  | cancel k =>
    obtain ⟨c, -, ⟨-, rfl⟩ | ⟨m, rest, -, -, rfl⟩⟩ := cancel_cases hs
    · exact .same rfl
    · exact .same rfl
  | recv j =>
    obtain ⟨env, hr⟩ := step_recv hs
    rcases recv_cases hr with ⟨q, -, rfl⟩ | ⟨state, rfl⟩
    · exact .same rfl
    · exact .same rfl
  | dropRx j => obtain rfl := Option.some.inj hs; exact .same rfl
  | withMaxEventSize limit => obtain rfl := Option.some.inj hs; exact .same rfl

end Ring

end Bus

/-- **A record appends to the ring of its stream**, and may drop its oldest envelope. -/
theorem StreamReplayCache.record_perStream {δ : Type} (cache : StreamReplayCache δ)
    (env : EventEnvelope δ) : ∃ kept, kept <:+ cache.perStream env.streamId ∧
      (cache.record env).1.perStream =
        Function.update cache.perStream env.streamId (kept ++ [env]) := by
  refine ⟨_, ?_, rfl⟩
  split
  · exact List.tail_suffix _
  · exact List.suffix_rfl

namespace Bus

variable {δ τ κ : Type} [DecidableEq κ]

/-! ### Nothing twice -/

/-- The publishes in progress are async and of distinct envelopes, each loop visits an entry once,
and each ring holds envelopes that calls have recorded, none of them twice. -/
structure RecordsOnce (b : Bus δ τ) : Prop where
  async : b.AllAsync
  distinct : ((b.calls.map (·.envelope)).map (·.position)).Nodup
  orderly : ∀ i, ∀ c ∈ b.calls, c.Orderly i
  known : ∀ c ∈ b.calls, (∀ j ∈ c.todo, j < b.nextId) ∧ ∀ j ∈ c.toRemove, j < b.nextId
  source : ∀ id, ∀ e ∈ b.replayCache.perStream id, e.streamId = id ∧
    ∃ c ∈ b.calls, c.envelope = e ∧ c.phase.recorded = true
  once : ∀ id, ((b.replayCache.perStream id).map (·.position)).Nodup

/-- What was enqueued to `i` comes from calls that cannot enqueue again, none of it twice. -/
structure EnqueuesOnce (b : Bus δ τ) (i : SubscriptionId) : Prop where
  source : ∀ e ∈ (b.mpsc i).enqueued, ∃ c ∈ b.calls, c.envelope = e ∧ ¬ c.MayEnqueue i
  once : ((b.mpsc i).enqueued.map (·.position)).Nodup

section Once

variable {ops : BusOps δ τ κ} {b b' : Bus δ τ} {a : BusAction δ τ} {i : SubscriptionId}

theorem CallsMove.exists_mem {P : Call δ → Prop} (h : CallsMove b a b') (hex : ∃ c ∈ b.calls, P c)
    (hP : ∀ c ∈ b.calls, ∀ c', P c → c.Next b.keys c' → P c') : ∃ c ∈ b'.calls, P c := by
  cases h with
  | same hcalls => rwa [hcalls]
  | publish env _ hcalls =>
    obtain ⟨c, hc, hPc⟩ := hex
    exact ⟨c, by rw [hcalls]; exact List.mem_append_left _ hc, hPc⟩
  | next k c c' hk hcalls hnext =>
    rw [hcalls]
    exact Party.exists_mem_set hk hex fun hPc => hP c (List.mem_of_getElem? hk) c' hPc hnext

theorem CallsMove.forall_mem {P : Call δ → Prop} (h : CallsMove b a b') (hb : ∀ c ∈ b.calls, P c)
    (hnew : ∀ env, a = .publish env → P { api := .publish, envelope := env })
    (hP : ∀ c c', P c → c.Next b.keys c' → P c') : ∀ c ∈ b'.calls, P c := by
  cases h with
  | same hcalls => rwa [hcalls]
  | publish env haction hcalls => exact Party.forall_mem_concat hcalls hb (hnew env haction)
  | next k c c' hk hcalls hnext =>
    exact Party.forall_mem_set hcalls hb (hP c c' (hb c (List.mem_of_getElem? hk)) hnext)

/-- The envelopes of the calls after a step. -/
theorem CallsMove.envelopes (h : CallsMove b a b') :
    b'.calls.map (·.envelope) = b.calls.map (·.envelope) ∨
      ∃ env, a = .publish env ∧ b'.calls.map (·.envelope) = b.calls.map (·.envelope) ++ [env] := by
  cases h with
  | same hcalls => exact .inl (by rw [hcalls])
  | publish env haction hcalls => exact .inr ⟨env, haction, by simp [hcalls]⟩
  | next k c c' hk hcalls hnext =>
    refine .inl ?_
    rw [hcalls]
    exact Party.map_set_of_eq hk hnext.envelope_eq

theorem RecordsOnce.eq_of_position (h : b.RecordsOnce) {c d : Call δ} (hc : c ∈ b.calls)
    (hd : d ∈ b.calls) (heq : c.envelope.position = d.envelope.position) : c = d := by
  have hdistinct := h.distinct
  rw [List.map_map] at hdistinct
  exact List.inj_on_of_nodup_map hdistinct hc hd heq

theorem recordsOnce_init (ops : BusOps δ τ κ) (replayCapacity : ℕ) :
    (machine ops replayCapacity).init.RecordsOnce where
  async := by simp [AllAsync, machine]
  distinct := by simp [machine]
  orderly := by simp [machine]
  known := by simp [machine]
  source := by simp [machine]
  once := by simp [machine]

/-- **Rings hold no envelope twice.** -/
theorem RecordsOnce.step (h : b.RecordsOnce) (ha : ∀ env, a ≠ .tryPublish env)
    (hfresh : ∀ env, a = .publish env →
      env.position ∉ (b.calls.map (·.envelope)).map (·.position))
    (hs : Bus.step ops b a = some b') : b'.RecordsOnce := by
  have hmove := callsMove_of_step h.async ha hs
  have hkept : ∀ e : EventEnvelope δ, (∃ c ∈ b.calls, c.envelope = e ∧ c.phase.recorded = true) →
      ∃ c ∈ b'.calls, c.envelope = e ∧ c.phase.recorded = true := fun e hex =>
    hmove.exists_mem hex fun c _ c' hc hnext =>
      ⟨hnext.envelope_eq.trans hc.1, hnext.recorded hc.2⟩
  have hnext : b.nextId ≤ b'.nextId := by
    rcases nextId_of_step hs with heq | ⟨topic, opts, -, rfl⟩
    · exact le_of_eq heq.symm
    · rw [nextId_subscribe]; exact Nat.le_succ _
  refine ⟨allAsync_step h.async ha hs, ?_, fun i => ?_, ?_, fun id => ?_, fun id => ?_⟩
  · rcases hmove.envelopes with heq | ⟨env, haction, heq⟩
    · rw [heq]; exact h.distinct
    · rw [heq, List.map_append, List.nodup_append]
      refine ⟨h.distinct, List.nodup_singleton _, ?_⟩
      rintro pos hpos _ hmem rfl
      rw [List.map_singleton, List.mem_singleton] at hmem
      rw [hmem] at hpos
      exact hfresh env haction hpos
  · refine hmove.forall_mem (h.orderly i) (fun env _ => ?_) fun c c' hc hnext =>
      hc.next b.keys_nodup hnext
    exact ⟨by simp, fun _ => rfl, Nat.zero_le _, fun _ => rfl⟩
  · have hknown := hmove.forall_mem (P := fun c => (∀ j ∈ c.todo, j < b.nextId) ∧
      ∀ j ∈ c.toRemove, j < b.nextId) h.known (fun env _ => by simp) fun c c' hc hn =>
        hn.known (fun j hj => List.mem_range.mp (List.mem_of_mem_filter hj)) hc
    exact fun c hc => ⟨fun j hj => ((hknown c hc).1 j hj).trans_le hnext,
      fun j hj => ((hknown c hc).2 j hj).trans_le hnext⟩
  · intro e he
    cases cacheMove_of_step h.async hs with
    | same hcache =>
      rw [hcache] at he
      obtain ⟨hid, hex⟩ := h.source id e he
      exact ⟨hid, hkept e hex⟩
    | record k c c' hk hp hcalls henv hrec hcache =>
      obtain ⟨kept, hsuf, hring⟩ := b.replayCache.record_perStream c.envelope
      rw [hcache, hring] at he
      by_cases hid : id = c.envelope.streamId
      · subst hid
        rw [Function.update_self] at he
        rcases List.mem_append.mp he with he | he
        · obtain ⟨hid, hex⟩ := h.source _ e (hsuf.subset he)
          exact ⟨hid, hkept e hex⟩
        · rw [List.mem_singleton.mp he]
          obtain ⟨hlt, -⟩ := List.getElem?_eq_some_iff.mp hk
          refine ⟨rfl, c', ?_, henv, hrec⟩
          rw [hcalls]
          exact List.mem_set hlt c'
      · rw [Function.update_of_ne hid] at he
        obtain ⟨hid, hex⟩ := h.source id e he
        exact ⟨hid, hkept e hex⟩
  · cases cacheMove_of_step h.async hs with
    | same hcache => rw [hcache]; exact h.once id
    | record k c c' hk hp hcalls henv hrec hcache =>
      obtain ⟨kept, hsuf, hring⟩ := b.replayCache.record_perStream c.envelope
      rw [hcache, hring]
      by_cases hid : id = c.envelope.streamId
      · subst hid
        rw [Function.update_self, List.map_append, List.nodup_append]
        refine ⟨(h.once _).sublist (hsuf.sublist.map _), List.nodup_singleton _, ?_⟩
        rintro pos hpos _ hmem rfl
        rw [List.map_singleton, List.mem_singleton] at hmem
        subst hmem
        obtain ⟨e, he, hpe⟩ := List.mem_map.mp hpos
        -- the call that recorded `e` is the one that is about to record
        obtain ⟨-, d, hd, rfl, hrec'⟩ := h.source _ e (hsuf.subset he)
        rw [h.eq_of_position hd (List.mem_of_getElem? hk) hpe, hp] at hrec'
        cases hrec'
      · rw [Function.update_of_ne hid]
        exact h.once id

omit [DecidableEq κ] in
/-- What an effect does to the queue: nothing, or a call enqueues on a claim it holds. -/
theorem enqueued_of_effect (h : Effect i b a b') :
    (b'.mpsc i).enqueued = (b.mpsc i).enqueued ∨
      ∃ k c c', b.calls[k]? = some c ∧ b'.calls = b.calls.set k c' ∧
        (b'.mpsc i).enqueued = (b.mpsc i).enqueued ++ [c.envelope] ∧ c.Unsent i ∧
        c'.envelope = c.envelope ∧ c'.outstanding i = c.outstanding i ∧ c'.landed i = 1 := by
  cases h with
  | quiet hf => exact .inl hf.enqueued
  | claim _ _ _ _ _ _ _ _ _ _ _ _ hq => exact .inl hq
  | land k c c' hk hcalls _ _ _ hq _ henv ho hun hl =>
    refine .inr ⟨k, c, c', hk, hcalls, hq, ?_, henv, ho, hl⟩
    rw [Call.Unsent, hun.1]
    exact hun.2
  | delivered _ _ _ _ _ _ _ _ _ _ hq => exact .inl hq
  | refund _ _ _ _ _ _ _ _ _ _ _ hq => exact .inl hq
  | disconnect _ _ _ _ _ _ _ _ _ _ _ _ _ _ _ hq => exact .inl hq
  | closed _ _ _ _ _ _ _ hg => exact .inl hg.enqueued
  | removed hg => exact .inl hg.enqueued
  | fired _ _ _ _ _ _ _ _ _ _ hq => exact .inl hq
  | coalesced _ _ _ _ _ _ _ hq => exact .inl hq

/-- **Queues hold no envelope twice.** -/
theorem EnqueuesOnce.step (h : b.EnqueuesOnce i) (hb : b.RecordsOnce) (hb' : b'.RecordsOnce)
    (ha : ∀ env, a ≠ .tryPublish env) (heff : Effect i b a b')
    (hs : Bus.step ops b a = some b') : b'.EnqueuesOnce i := by
  have hmove := callsMove_of_step hb.async ha hs
  -- what a call has let go for good, it cannot enqueue later
  have hkept : ∀ e : EventEnvelope δ, (∃ c ∈ b.calls, c.envelope = e ∧ ¬ c.MayEnqueue i) →
      ∃ c ∈ b'.calls, c.envelope = e ∧ ¬ c.MayEnqueue i := fun e hex =>
    hmove.exists_mem hex fun c hc c' hP hnext =>
      ⟨hnext.envelope_eq.trans hP.1, hnext.not_mayEnqueue (hb.orderly i c hc) b.keys_nodup hP.2⟩
  rcases enqueued_of_effect heff with heq | ⟨k, c, c', hk, hcalls, heq, hun, henv, ho, hl⟩
  · -- this step enqueues the envelope of call `k`
    exact ⟨fun e he => hkept e (h.source e (heq ▸ he)), heq ▸ h.once⟩
  · have hc := List.mem_of_getElem? hk
    have hc' : c' ∈ b'.calls := by
      obtain ⟨hlt, -⟩ := List.getElem?_eq_some_iff.mp hk
      rw [hcalls]
      exact List.mem_set hlt c'
    have horderly := hb'.orderly i c' hc'
    have hpos : 0 < c.outstanding i := Nat.lt_of_le_of_lt (Nat.zero_le _) hun
    refine ⟨fun e he => ?_, ?_⟩
    · rw [heq] at he
      rcases List.mem_append.mp he with he | he
      · exact hkept e (h.source e he)
      · rw [List.mem_singleton.mp he]
        refine ⟨c', hc', henv, ?_⟩
        -- the claim is used up, and the entry has been visited
        rintro (hunv | hunsent)
        · rw [← ho, horderly.unvisited hunv] at hpos
          cases hpos
        · have honce := horderly.once
          rw [Call.Unsent, hl] at hunsent
          omega
    · rw [heq, List.map_append, List.nodup_append]
      refine ⟨h.once, List.nodup_singleton _, ?_⟩
      rintro pos hpos _ hmem rfl
      rw [List.map_singleton, List.mem_singleton] at hmem
      -- an envelope of this position in the queue was let go before
      subst hmem
      obtain ⟨e, he, hpe⟩ := List.mem_map.mp hpos
      obtain ⟨d, hd, rfl, hnot⟩ := h.source e he
      rw [hb.eq_of_position hd hc hpe] at hnot
      exact hnot (.inr hun)

end Once

end Bus

end Boardwalk
