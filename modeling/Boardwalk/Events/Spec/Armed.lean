import Boardwalk.Events.Spec.Once

/-!
# The notices of the entries

A loop that fires the notice of an entry lists the entry for removal, and removes it before it gives
the mutex back.  So while the mutex is free, no entry in the map has fired its notice (`Loops`).
-/

namespace Boardwalk

namespace Bus

variable {δ τ κ : Type} [DecidableEq κ]

/-! ### The part of one subscription -/

/-- The notice of the entry, if there is one, is not fired. -/
def Local.Armed (l : Local δ τ) : Prop :=
  ∀ sub, l.entry = some sub → sub.slowConsumerNotify = true ∧ l.notify = .pending

namespace Local

variable {l : Local δ τ}

theorem armed_of_none (h : l.entry = none) : l.Armed := by
  intro sub hsub
  rw [h] at hsub
  cases hsub

/-- Another entry with the same notice. -/
theorem Armed.of_entry {l' : Local δ τ} {sub sub' : SubscriptionInner τ} (h : l.Armed)
    (hsub : l.entry = some sub) (hsub' : l'.entry = some sub')
    (harmed : sub'.slowConsumerNotify = sub.slowConsumerNotify) (hnotify : l'.notify = l.notify) :
    l'.Armed := by
  intro s hs
  rw [hsub', Option.some.injEq] at hs
  rw [← hs, harmed, hnotify]
  exact h sub hsub

theorem Armed.commitDelivered (h : l.Armed) (env : EventEnvelope δ) :
    (l.commitDelivered env).Armed := by
  unfold Local.commitDelivered
  split
  · exact h
  · rename_i sub hsub
    dsimp only
    split
    · exact armed_of_none (entry_remove _)
    · exact h.of_entry hsub rfl rfl rfl

theorem Armed.refundClaim (h : l.Armed) : l.refundClaim.Armed := by
  unfold Local.refundClaim
  split
  · exact h
  · rename_i sub hsub
    exact h.of_entry hsub rfl rfl rfl

theorem Armed.commitDisconnect (h : l.Armed) : l.commitDisconnect.Armed := by
  unfold Local.commitDisconnect
  split
  · exact h
  · exact armed_of_none (entry_remove _)

/-- A visit that fires the notice lists the entry for removal. -/
theorem Armed.visit (h : l.Armed) (ops : BusOps δ τ κ) (api : PublishApi) (env : EventEnvelope δ) :
    (l.visit ops api env).1.Armed ∨ (l.visit ops api env).2.removed = true := by
  unfold Local.visit
  split
  · exact .inl h
  rename_i sub hsub
  split
  · -- the three ways out of the loop, by how the entry takes its envelopes
    split
    · unfold visitCoalesce
      dsimp only
      split
      · exact .inl (h.of_entry hsub rfl rfl rfl)
      · exact .inl h
      · exact .inl h
      · exact .inr rfl
    · unfold visitTryPublish
      split
      · exact .inl (h.of_entry hsub rfl rfl rfl)
      · split
        · exact .inr rfl
        · exact .inl h
      · exact .inr rfl
    · unfold visitPublish
      split
      · exact .inl h
      · -- a claim only counts the envelope; the notice stays as it was
        rename_i sub' hclaim
        obtain ⟨hclaimed, -⟩ := SubscriptionInner.claim_some hclaim
        exact .inl (h.of_entry hsub rfl (by rw [hclaimed]) rfl)
  · exact .inl h

end Local

/-! ### The loops -/

/-- A call in its loop holds the mutex, and what has fired its notice is listed for removal. -/
structure Loops (b : Bus δ τ) : Prop where
  holds : ∀ (k : ℕ) (c : Call δ), b.calls[k]? = some c → c.phase = .fanout → b.lock = some k
  armed : ∀ i, (b.view i).Armed ∨
    ∃ (k : ℕ) (c : Call δ), b.calls[k]? = some c ∧ c.phase = .fanout ∧ i ∈ c.toRemove

section Loops

variable {ops : BusOps δ τ κ} {b b' : Bus δ τ} {a : BusAction δ τ} {k : ℕ} {c c' : Call δ}

theorem Loops.not_fanout (h : b.Loops) (hfree : b.lock = none) (hk : b.calls[k]? = some c) :
    c.phase ≠ .fanout := by
  intro hp
  have hlock := h.holds k c hk hp
  rw [hfree] at hlock
  cases hlock

/-- While the mutex is free every entry is armed. -/
theorem Loops.armed_of_free (h : b.Loops) (hfree : b.lock = none) (i : SubscriptionId) :
    (b.view i).Armed := by
  rcases h.armed i with harmed | ⟨k, c, hk, hp, -⟩
  · exact harmed
  · exact absurd hp (h.not_fanout hfree hk)

theorem Touches.armed {i : SubscriptionId} {l : Local δ τ} (h : Touches i l b b')
    (hl : (b.view i).Armed → l.Armed) (j : SubscriptionId) (hj : (b.view j).Armed) :
    (b'.view j).Armed := by
  by_cases hij : j = i
  · subst hij
    rw [h.self]
    exact hl hj
  · rw [h.other j hij]
    exact hj

/-- A step that fires no notice, after which the same calls are in their loops. -/
theorem Loops.of_calls (h : b.Loops) (hview : ∀ i, (b.view i).Armed → (b'.view i).Armed)
    (hlock : b'.lock = b.lock)
    (hcalls : ∀ (k : ℕ) (c : Call δ), c.phase = .fanout →
      (b'.calls[k]? = some c ↔ b.calls[k]? = some c)) :
    b'.Loops where
  holds k c hk hp := by
    rw [hlock]
    exact h.holds k c ((hcalls k c hp).mp hk) hp
  armed i := by
    rcases h.armed i with harmed | ⟨k, c, hk, hp, hi⟩
    · exact .inl (hview i harmed)
    · exact .inr ⟨k, c, (hcalls k c hp).mpr hk, hp, hi⟩

/-- A call outside its loop moves, and does not come into its loop. -/
theorem Loops.of_set (h : b.Loops) (hview : ∀ i, (b.view i).Armed → (b'.view i).Armed)
    (hlock : b'.lock = b.lock) (hk : b.calls[k]? = some c) (hp : c.phase ≠ .fanout)
    (hcalls : b'.calls = b.calls.set k c') (hp' : c'.phase ≠ .fanout) : b'.Loops := by
  refine h.of_calls hview hlock fun m d hd => ?_
  rw [hcalls]
  have hlt : k < b.calls.length := (List.getElem?_eq_some_iff.mp hk).1
  by_cases hm : m = k
  · subst hm
    rw [List.getElem?_set_self hlt, hk, Option.some.injEq, Option.some.injEq]
    constructor
    · rintro rfl
      exact absurd hd hp'
    · rintro rfl
      exact absurd hd hp
  · rw [List.getElem?_set_ne (Ne.symm hm)]

theorem phase_afterMatch (c : Call δ) (gs : List Match) : (afterMatch c gs).phase ≠ .fanout := by
  cases gs with
  | nil => simp [afterMatch]
  | cons m gs => simp [afterMatch]

/-- The end of a loop: what it lists goes, and the mutex is free. -/
theorem Loops.finish (h : b.Loops) (hk : b.calls[k]? = some c) (hp : c.phase = .fanout) :
    (b.finishLoop k c).Loops := by
  have hcalls : (b.finishLoop k c).calls =
      b.calls.set k (afterMatch { c with toRemove := [] } c.guards) :=
    calls_setCall_of (calls_foldl_reap b c.toRemove) k _
  have hlock := h.holds k c hk hp
  constructor
  · intro m d hd hpd
    rw [hcalls] at hd
    rcases Party.getElem?_set_cases hd with ⟨-, rfl⟩ | ⟨hm, hd⟩
    · exact absurd hpd (phase_afterMatch _ _)
    · -- no other call was in its loop
      have hother := h.holds m d hd hpd
      rw [hlock, Option.some.injEq] at hother
      exact absurd hother.symm hm
  · intro i
    left
    -- an entry that was marked is gone, and the others are armed as they were
    show ((c.toRemove.foldl reap b).view i).Armed
    rw [view_foldl_reap]
    split
    · exact Local.armed_of_none (Local.entry_reap _)
    · rename_i hi
      rcases h.armed i with harmed | ⟨m, d, hd, hpd, hmem⟩
      · exact harmed
      · have hother := h.holds m d hd hpd
        rw [hlock, Option.some.injEq] at hother
        subst hother
        rw [hk, Option.some.injEq] at hd
        exact absurd (hd ▸ hmem) hi

/-- A call comes into its loop. -/
theorem Loops.enter (h : b.Loops) (hfree : b.lock = none) (hlock : b'.lock = some k)
    (hcalls : b'.calls = b.calls.set k c') (hview : b'.view = b.view) : b'.Loops := by
  constructor
  · intro m d hd hpd
    rw [hcalls] at hd
    rcases Party.getElem?_set_cases hd with ⟨rfl, -⟩ | ⟨-, hd⟩
    · exact hlock
    · exact absurd hpd (h.not_fanout hfree hd)
  · intro i
    rw [hview]
    exact .inl (h.armed_of_free hfree i)

omit [DecidableEq κ] in
/-- A step of a call keeps the mutex with the call in its loop, and every notice armed or listed. -/
theorem Loops.advance (h : b.Loops) (hs : b.advance ops k = some b') : b'.Loops := by
  obtain ⟨c, hk, hadv⟩ := advance_cases hs
  cases hadv with
  | tooLarge hp | fits hp | reject _ hp | evict _ hp | awaitClosed _ _ hp | unwound hp =>
    exact h.of_set (fun _ => id) rfl hk (by simp [hp]) rfl (by simp)
  | record p hp hnext =>
    -- the record goes to the ring or, if something fell out, to the registry
    refine h.of_set (fun _ => id) rfl hk (by simp [hp]) rfl ?_
    split at hnext
    · simp [hnext]
    · simp [hnext]
  | acquire hp hfree =>
    exact h.enter (Option.isNone_iff_eq_none.mp hfree) rfl rfl rfl
  | finish hp => exact h.finish hk hp
  | send m rest hp =>
    unfold sendMatch
    split
    · rename_i q hq
      exact h.of_set ((b.touches_setMpsc m.id q).armed id) rfl hk (by simp [hp]) rfl (by simp)
    · exact h.of_set (fun _ => id) rfl hk (by simp [hp]) rfl (by simp)
    · split <;> exact h.of_set (fun _ => id) rfl hk (by simp [hp]) rfl (by simp)
  | permit m rest q hp | push m rest hp =>
    exact h.of_set ((b.touches_setMpsc m.id _).armed id) rfl hk (by simp [hp]) rfl (by simp)
  | commit m rest outcome hp =>
    -- a commit is at its own entry, and it disarms an entry only with its removal
    have hlock := b.lock_commitMatch k c m rest outcome
    have hview : ∀ i, (b.view i).Armed → ((b.commitMatch k c m rest outcome).view i).Armed := by
      cases outcome with
      | delivered =>
        exact (b.touches_commitDelivered m.id c.envelope).armed fun h => h.commitDelivered _
      | dropped => exact (b.touches_refundClaim m.id).armed fun h => h.refundClaim
      | disconnectSlowConsumer =>
        exact (b.touches_commitDisconnect m.id).armed fun h => h.commitDisconnect
      | closed =>
        exact (b.touches_remove m.id).armed fun _ => Local.armed_of_none (Local.entry_remove _)
    cases outcome <;> exact h.of_set hview hlock hk (by simp [hp])
      (calls_setCall_of (by simp [recordCommit]) k _) (phase_afterMatch _ _)
  | dropGuard m rest hp =>
    exact h.of_set ((b.touches_refundClaim m.id).armed fun h => h.refundClaim)
      (b.touches_refundClaim m.id).lock hk (by simp [hp]) (calls_setCall_of (by simp) k _)
      (by simp [hp])

/-- A visit keeps the mutex with the call in its loop, and every notice armed or listed. -/
theorem Loops.visit {j : SubscriptionId} (h : b.Loops) (hwf : b.WellFormed)
    (hs : b.visit ops k j = some b') : b'.Loops := by
  obtain ⟨c, hk, hp, -, b₂, c₂, hvisit, rfl⟩ := visit_cases hs
  obtain ⟨htouch, hcall⟩ := visitEntry_spec ops { c with todo := c.todo.erase j }
    (hwf.view_fits j)
  have hlock := h.holds k c hk hp
  rw [hvisit] at htouch hcall
  dsimp only at htouch hcall
  have hcalls : (b₂.setCall k c₂).calls = b.calls.set k c₂ :=
    calls_setCall_of (visitEntry_call hvisit).2.1 k c₂
  have hlt : k < b.calls.length := (List.getElem?_eq_some_iff.mp hk).1
  have hk₂ : (b₂.setCall k c₂).calls[k]? = some c₂ := by rw [hcalls, List.getElem?_set_self hlt]
  have hp₂ : c₂.phase = .fanout := by rw [hcall]; exact hp
  constructor
  · intro m d hd hpd
    have hsame : (b₂.setCall k c₂).lock = b.lock := htouch.lock
    rw [hsame]
    rw [hcalls] at hd
    rcases Party.getElem?_set_cases hd with ⟨rfl, -⟩ | ⟨-, hd⟩
    · exact hlock
    · exact h.holds m d hd hpd
  · intro i
    -- what was listed stays listed
    have hlisted : i ∈ c.toRemove → i ∈ c₂.toRemove := by
      intro hi
      rw [hcall]
      exact List.mem_append_left _ hi
    rcases h.armed i with harmed | ⟨m, d, hd, hpd, hi⟩
    · by_cases hij : i = j
      · subst hij
        rcases harmed.visit ops c.api c.envelope with harmed' | hremoved
        · left
          show (b₂.view i).Armed
          rw [htouch.self]
          exact harmed'
        · refine .inr ⟨k, c₂, hk₂, hp₂, ?_⟩
          rw [hcall]
          simp [addDelta, hremoved]
      · left
        show (b₂.view i).Armed
        rw [htouch.other i hij]
        exact harmed
    · have hother := h.holds m d hd hpd
      rw [hlock, Option.some.injEq] at hother
      subst hother
      rw [hk, Option.some.injEq] at hd
      exact .inr ⟨k, c₂, hk₂, hp₂, hlisted (hd ▸ hi)⟩

theorem Frame.armed {i : SubscriptionId} (h : Frame i b b') (hb : (b.view i).Armed) :
    (b'.view i).Armed := by
  intro sub hsub
  replace hsub : b'.subs i = some sub := hsub
  rw [h.subs] at hsub
  show sub.slowConsumerNotify = true ∧ b'.notify i = .pending
  rw [h.notify]
  exact hb sub hsub

/-- A new entry has its notice. -/
theorem Loops.subscribe (h : b.Loops) (hwf : b.WellFormed) (topic : τ) (opts : SubscribeOpts) :
    (b.subscribe topic opts).Loops := by
  refine h.of_calls (fun i hi => ?_) (b.lock_subscribe topic opts)
    fun k c _ => by rw [calls_subscribe]
  by_cases hnew : i = b.nextId
  · subst hnew
    have hu := hwf.untouched b.nextId (Nat.le_refl _)
    rcases subscribe_cases b topic opts hu with hun | ⟨sub, hsub, hnew, -, hnotify, -⟩
    · exact Local.armed_of_none hun.subs
    · intro sub' hsub'
      have hsame : sub = sub' := Option.some.inj (hsub.symm.trans hsub')
      rw [← hsame, hnew]
      exact ⟨rfl, hnotify⟩
  · exact (b.frame_subscribe hnew topic opts).1.armed hi

/-- **Every step keeps the notices of the entries.** -/
theorem Loops.step (h : b.Loops) (hwf : b.WellFormed) (hs : step ops b a = some b') :
    b'.Loops := by
  cases a with
  | subscribe topic opts =>
    obtain rfl := step_subscribe hs
    exact h.subscribe hwf topic opts
  | unsubscribe j =>
    obtain rfl := step_unsubscribe hs
    exact h.of_calls ((b.touches_reap j).armed fun _ => Local.armed_of_none (Local.entry_reap _))
      (b.touches_reap j).lock fun k c _ => by rw [calls_reap]
  | publish env | tryPublish env =>
    obtain rfl := Option.some.inj hs
    refine h.of_calls (fun _ => id) rfl fun k c hp => ?_
    -- the new call is not in its loop
    rcases Nat.lt_trichotomy k b.calls.length with hk | hk | hk
    · rw [List.getElem?_append_left hk]
    · rw [hk, List.getElem?_concat_length, List.getElem?_eq_none (Nat.le_refl _)]
      refine iff_of_false ?_ (by simp)
      intro hc
      rw [← Option.some.inj hc] at hp
      cases hp
    · rw [List.getElem?_eq_none (Nat.le_of_lt hk),
        List.getElem?_eq_none (by rw [List.length_append]; exact hk)]
  | advance k => exact h.advance hs
  | visit k j => exact h.visit hwf hs
  | cancel k =>
    obtain ⟨c, hk, ⟨hp, rfl⟩ | ⟨m, rest, hp, -, rfl⟩⟩ := cancel_cases hs
    · exact h.of_set (fun _ => id) rfl hk (by simp [hp]) rfl (by simp)
    · exact h.of_set ((b.touches_setMpsc m.id _).armed id) rfl hk (by simp [hp]) rfl (by simp)
  | recv j =>
    obtain ⟨env, hr⟩ := step_recv hs
    rcases recv_cases hr with ⟨q, -, rfl⟩ | ⟨state, rfl⟩
    · exact h.of_calls ((b.touches_setMpsc j q).armed id) rfl fun _ _ _ => Iff.rfl
    · exact h.of_calls ((b.touches_setCoalesce j state).armed id) rfl fun _ _ _ => Iff.rfl
  | dropRx j =>
    obtain rfl := Option.some.inj hs
    exact h.of_calls (fun _ => id) rfl fun _ _ _ => Iff.rfl
  | withMaxEventSize limit =>
    obtain rfl := Option.some.inj hs
    exact h.of_calls (fun _ => id) rfl fun _ _ _ => Iff.rfl

/-- In every reachable bus a loop holds the mutex, and what has fired its notice is listed for
removal. -/
theorem loops_of_reachable {replayCapacity : ℕ} (h : (machine ops replayCapacity).Reachable b) :
    b.Loops := by
  have hinit : (machine ops replayCapacity).init.Loops := by
    constructor
    · intro k c hk
      cases hk
    · exact fun i => .inl (Local.armed_of_none rfl)
  have hboth : b.WellFormed ∧ b.Loops := by
    refine h.inv (I := fun b => b.WellFormed ∧ b.Loops)
      ⟨wellFormed_init ops replayCapacity, hinit⟩ ?_
    intro s a t hboth hs
    exact ⟨wellFormed_step hboth.1 hs, hboth.2.step hboth.1 hs⟩
  exact hboth.2

end Loops

end Bus

end Boardwalk
