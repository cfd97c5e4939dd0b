import Boardwalk.Lib.Party
import Boardwalk.Lib.Str
import Boardwalk.Peer.Client
import Mathlib.Data.List.DropRight

/-!
# What the clients register

A connection id is confirmed for an attempt, and only once: the ids in `PeerInitState` are those that
a client holds and that were not confirmed (`registered_iff`), where a client that was stopped holds
the id of the attempt that was dropped for ever.  The backoff is a function of how the attempts of
the client ended (`Paced`).
-/

namespace Boardwalk

/-- The id that a client holds: the one of its attempt, or the one it left behind. -/
def ClientTask.held (task : ClientTask) : Option Uuid :=
  match task.phase with
  | .dialing id | .serving id => some id
  | .stopped dropped => dropped
  | _ => none

theorem ClientTask.held_of_attempting {task : ClientTask} {id : Uuid}
    (h : task.attempting = some id) : task.held = some id := by
  unfold attempting at h
  unfold held
  split at h <;> simp_all

namespace PeerClients

variable {s s' : PeerClients} {n : ℕ}

/-! ### What a step does -/

/-- A step answers a request, or lets one client begin an attempt, go on, or end one. -/
inductive Effect (s s' : PeerClients) : Prop where
  | answered (id : Uuid) (h : s' = s.initiatePeer id)
  | began (k : ℕ) (task : ClientTask) (id : Uuid) (hk : s.tasks[k]? = some task)
      (hready : task.phase = .ready)
      (h : s' = (s.register id).setTask k { task with phase := .dialing id })
  | kept (k : ℕ) (task task' : ClientTask) (hk : s.tasks[k]? = some task)
      (hheld : task'.held = task.held) (hends : task'.ends = task.ends)
      (hattempt : task'.attempt = task.attempt)
      (hsleeps : ∀ backoff, task'.phase = .sleeping backoff → task.phase = .sleeping backoff)
      (h : s' = s.setTask k task')
  | ended (k : ℕ) (task : ClientTask) (id : Uuid) (ok : Bool) (thread : ℕ) (now : UInt64)
      (hk : s.tasks[k]? = some task) (hattempting : task.attempting = some id)
      (h : s' = s.endAttempt k task id ok thread now)

theorem Effect.of_stop {k : ℕ} {task : ClientTask} (hk : s.tasks[k]? = some task)
    (hphase : ∀ dropped, task.phase ≠ .stopped dropped) : Effect s (s.stop k task) := by
  refine .kept k task { task with phase := .stopped task.attempting, notified := false } hk ?_ rfl rfl
    (fun _ h => by cases h) rfl
  unfold ClientTask.held ClientTask.attempting
  cases h : task.phase <;> simp_all

/-- A poll stops the client, or does what it is polled for. -/
theorem Effect.of_poll {k : ℕ} {task : ClientTask} (hk : s.tasks[k]? = some task)
    (hphase : ∀ dropped, task.phase ≠ .stopped dropped) {t : PeerClients} (ht : Effect s t) :
    Effect s (s.poll k task t) := by
  unfold poll
  split
  · exact .of_stop hk hphase
  · exact ht

theorem effect_of_stepTask {k : ℕ} {task : ClientTask} {a : ClientAction}
    (hk : s.tasks[k]? = some task) (h : s.stepTask k task a = some s') : Effect s s' := by
  -- a task that is polled has not stopped
  have hrunning : ∀ phase, task.phase = phase → (∀ dropped, phase ≠ .stopped dropped) →
      ∀ dropped, task.phase ≠ .stopped dropped := by
    rintro _ rfl hne dropped
    exact hne dropped
  cases a with
  | dial k' id =>
    simp only [stepTask, Option.ite_none_right_eq_some, Option.some.injEq] at h
    obtain ⟨hready, rfl⟩ := h
    exact .of_poll hk (hrunning _ hready nofun) (.began k task id hk hready rfl)
  | linked k' =>
    cases hphase : task.phase <;> simp only [stepTask, hphase, Option.some.injEq, reduceCtorEq] at h
    rename_i id
    subst h
    refine .of_poll hk (hrunning _ hphase nofun) (.kept k task { task with phase := .serving id } hk ?_
      rfl rfl (fun _ h => by cases h) rfl)
    simp [ClientTask.held, hphase]
  | ended k' ok thread now =>
    -- an attempt ends while it dials or while it serves
    cases hphase : task.phase <;> simp only [stepTask, hphase, Option.some.injEq, reduceCtorEq,
      Option.ite_none_left_eq_some] at h
    all_goals
      rename_i id
      have hattempting : task.attempting = some id := by simp [ClientTask.attempting, hphase]
    · obtain ⟨-, rfl⟩ := h
      exact .of_poll hk (hrunning _ hphase nofun) (.ended k task id ok thread now hk hattempting rfl)
    · subst h
      exact .of_poll hk (hrunning _ hphase nofun) (.ended k task id ok thread now hk hattempting rfl)
  | wake k' =>
    cases hphase : task.phase <;> simp only [stepTask, hphase, Option.some.injEq, reduceCtorEq] at h
    subst h
    refine .of_poll hk (hrunning _ hphase nofun) (.kept k task { task with phase := .ready } hk ?_
      rfl rfl (fun _ h => by cases h) rfl)
    simp [ClientTask.held, hphase]
  | notify k' =>
    have hset : s' = s.setTask k { task with notified := true } := by
      cases hphase : task.phase <;> simp_all [stepTask]
    exact .kept k task { task with notified := true } hk rfl rfl rfl (fun _ h => h) hset
  | abort k' =>
    have hstop : s' = s.stop k task ∧ ∀ dropped, task.phase ≠ .stopped dropped := by
      cases hphase : task.phase <;> simp_all [stepTask]
    rw [hstop.1]
    exact .of_stop hk hstop.2
  | initiate id => cases h

theorem effect_of_step {a : ClientAction} (h : s.step a = some s') : Effect s s' := by
  unfold step at h
  split at h
  · rename_i id
    exact .answered id (Option.some.inj h).symm
  · obtain ⟨k, -, h⟩ := Option.bind_eq_some_iff.mp h
    obtain ⟨task, hk, h⟩ := Option.bind_eq_some_iff.mp h
    exact effect_of_stepTask hk h

/-! ### Confirmations -/

/-- How often a request for the id was answered with `200`. -/
def confirmed (s : PeerClients) (id : Uuid) : ℕ := s.answers.count (id, 200)

/-- There are no more confirmations of an id than registrations, and one registration is left for an
id that is there. -/
def Counted (s : PeerClients) : Prop :=
  ∀ id, s.confirmed id ≤ s.dialed.count id ∧
    (id ∈ s.peerInit → s.confirmed id < s.dialed.count id)

theorem confirmed_initiatePeer (id x : Uuid) :
    (s.initiatePeer id).confirmed x =
      s.confirmed x + if x = id ∧ id ∈ s.peerInit then 1 else 0 := by
  show (s.answers ++ [(id, if id ∈ s.peerInit then 200 else 404)]).count (x, 200) = _
  rw [List.count_append, List.count_singleton]
  by_cases hreg : id ∈ s.peerInit
  · by_cases hid : x = id
    · simp [hreg, hid, confirmed]
    · have hid' : id ≠ x := fun h => hid h.symm
      simp [hreg, hid, hid', confirmed]
  · simp [hreg, confirmed]

/-- Every step keeps the confirmations of an id within its registrations. -/
theorem Counted.step (h : s.Counted) (heffect : Effect s s') : s'.Counted := by
  intro x
  -- the count of answers with 200 against that of dials
  obtain ⟨hle, hlt⟩ := h x
  cases heffect with
  | answered id hs =>
    subst hs
    rw [confirmed_initiatePeer]
    show _ ≤ s.dialed.count x ∧ (x ∈ s.peerInit.erase id → _ < s.dialed.count x)
    rw [Finset.mem_erase]
    -- one more answer, for an id that was registered
    split
    · rename_i hid
      obtain ⟨rfl, hreg⟩ := hid
      have := hlt hreg
      exact ⟨by omega, fun hmem => absurd rfl hmem.1⟩
    · exact ⟨by omega, fun hmem => by have := hlt hmem.2; omega⟩
  | began k task id hk hready hs =>
    subst hs
    show s.confirmed x ≤ (s.dialed ++ [id]).count x ∧
      (x ∈ insert id s.peerInit → s.confirmed x < (s.dialed ++ [id]).count x)
    rw [List.count_append, List.count_singleton, Finset.mem_insert]
    refine ⟨by omega, ?_⟩
    -- the id that is dialed now has one dial more
    rintro (rfl | hmem)
    · rw [if_pos (beq_self_eq_true x)]
      omega
    · have := hlt hmem
      omega
  | kept k task task' hk hheld hends hattempt hsleeps hs =>
    subst hs
    exact ⟨hle, hlt⟩
  | ended k task id ok thread now hk hattempting hs =>
    subst hs
    exact ⟨hle, fun hmem => hlt (Finset.mem_of_mem_erase hmem)⟩

/-! ### The registered ids -/

/-- The ids that the clients hold. -/
def heldIds (s : PeerClients) : List Uuid := s.tasks.filterMap ClientTask.held

/-- What holds while all ids that are dialed differ. -/
structure Registered (s : PeerClients) : Prop where
  dialed : ∀ id ∈ s.heldIds, id ∈ s.dialed
  apart : s.heldIds.Nodup
  exact : ∀ id, id ∈ s.peerInit ↔ id ∈ s.heldIds ∧ (id, 200) ∉ s.answers
  answered : ∀ id, (id, 200) ∈ s.answers → id ∈ s.dialed

theorem Registered.answered_step (h : s.Registered) (id : Uuid) :
    (s.initiatePeer id).Registered := by
  have hmem : ∀ x, (x, 200) ∈ (s.initiatePeer id).answers ↔
      (x, 200) ∈ s.answers ∨ x = id ∧ id ∈ s.peerInit := by
    intro x
    show (x, 200) ∈ s.answers ++ [(id, if id ∈ s.peerInit then 200 else 404)] ↔ _
    by_cases hreg : id ∈ s.peerInit <;> simp [hreg]
  refine ⟨h.dialed, h.apart, fun x => ?_, fun x hx => ?_⟩
  · show x ∈ s.peerInit.erase id ↔ x ∈ s.heldIds ∧ _
    rw [hmem, Finset.mem_erase, h.exact x]
    by_cases hid : x = id
    · subst hid
      have := h.exact x
      tauto
    · tauto
  · rcases (hmem x).mp hx with hx | ⟨rfl, hreg⟩
    · exact h.answered x hx
    · exact h.dialed x ((h.exact x).mp hreg).1

theorem Registered.began_step (h : s.Registered) {k : ℕ} {task : ClientTask} {id : Uuid}
    (hk : s.tasks[k]? = some task) (hready : task.phase = .ready) (hfresh : id ∉ s.dialed) :
    ((s.register id).setTask k { task with phase := .dialing id }).Registered := by
  have hnone : task.held = none := by simp [ClientTask.held, hready]
  have hperm : (((s.register id).setTask k { task with phase := .dialing id }).heldIds).Perm
      (id :: s.heldIds) :=
    Party.filterMap_set_perm hk hnone rfl
  -- the id is fresh, so no task holds it
  have hid : id ∉ s.heldIds := fun hmem => hfresh (h.dialed id hmem)
  refine ⟨fun x hx => ?_, ?_, fun x => ?_, fun x hx => ?_⟩
  · show x ∈ s.dialed ++ [id]
    rcases List.mem_cons.mp (hperm.mem_iff.mp hx) with rfl | hx
    · simp
    · simp [h.dialed x hx]
  · rw [hperm.nodup_iff, List.nodup_cons]
    exact ⟨hid, h.apart⟩
  · show x ∈ insert id s.peerInit ↔ _ ∧ (x, 200) ∉ s.answers
    rw [hperm.mem_iff, List.mem_cons, Finset.mem_insert, h.exact x]
    have hnot : x = id → (x, 200) ∉ s.answers := by
      rintro rfl hmem
      exact hfresh (h.answered x hmem)
    tauto
  · show x ∈ s.dialed ++ [id]
    simp [h.answered x hx]

theorem Registered.ended_step (h : s.Registered) {k : ℕ} {task : ClientTask} {id : Uuid}
    (hk : s.tasks[k]? = some task) (hattempting : task.attempting = some id) (ok : Bool)
    (thread : ℕ) (now : UInt64) : (s.endAttempt k task id ok thread now).Registered := by
  obtain ⟨others, hold, hnew⟩ := Party.exists_others ClientTask.held hk
  rw [ClientTask.held_of_attempting hattempting] at hold
  have hheld : s.heldIds.Perm (id :: others) := hold
  have hperm : (s.endAttempt k task id ok thread now).heldIds.Perm others := hnew _
  have hnodup := hheld.nodup_iff.mp h.apart
  rw [List.nodup_cons] at hnodup
  refine ⟨fun x hx => ?_, hperm.nodup_iff.mpr hnodup.2, fun x => ?_, h.answered⟩
  · exact h.dialed x (hheld.mem_iff.mpr (List.mem_cons_of_mem _ (hperm.mem_iff.mp hx)))
  · show x ∈ s.peerInit.erase id ↔ _ ∧ (x, 200) ∉ s.answers
    rw [hperm.mem_iff, Finset.mem_erase, h.exact x, hheld.mem_iff, List.mem_cons]
    have hnot : x = id → x ∉ others := by
      rintro rfl
      exact hnodup.1
    tauto

theorem Registered.step (h : s.Registered) (heffect : Effect s s') (hnodup : s'.dialed.Nodup) :
    s'.Registered := by
  cases heffect with
  | answered id hs => exact hs ▸ h.answered_step id
  | began k task id hk hready hs =>
    subst hs
    have hnodup : (s.dialed ++ [id]).Nodup := hnodup
    rw [List.nodup_append] at hnodup
    exact h.began_step hk hready fun hmem => hnodup.2.2 id hmem id (by simp) rfl
  | kept k task task' hk hheld hends hattempt hsleeps hs =>
    subst hs
    have hsame : (s.setTask k task').heldIds = s.heldIds := Party.filterMap_set_of_eq hk hheld
    exact ⟨fun x hx => h.dialed x (hsame ▸ hx), hsame ▸ h.apart, fun x => hsame ▸ h.exact x,
      h.answered⟩
  | ended k task id ok thread now hk hattempting hs =>
    exact hs ▸ h.ended_step hk hattempting ok thread now

/-- Nothing that was dialed is forgotten. -/
theorem Effect.dialed_prefix (heffect : Effect s s') : s.dialed <+: s'.dialed := by
  cases heffect with
  | began k task id hk hready hs => exact hs ▸ List.prefix_append _ _
  | _ =>
    rename_i hs
    exact hs ▸ List.prefix_refl _

/-! ### Backoff -/

/-- A word that is its own shift is its shift by any multiple, so it is zero. -/
theorem eq_zero_of_eq_shiftLeft {w k : ℕ} {x : BitVec w} (hk : 0 < k) (h : x = x <<< k) : x = 0 := by
  have hiter : ∀ m, x = x <<< (m * k) := by
    intro m
    induction m with
    | zero => simp
    | succ m ih =>
      rw [Nat.succ_mul, BitVec.shiftLeft_add, ← ih]
      exact h
  have hall := hiter w
  rwa [BitVec.shiftLeft_eq_zero (Nat.le_mul_of_pos_right w hk)] at hall

theorem eq_zero_of_eq_ushiftRight {w k : ℕ} {x : BitVec w} (hk : 0 < k) (h : x = x >>> k) :
    x = 0 := by
  have hiter : ∀ m, x = x >>> (m * k) := by
    intro m
    induction m with
    | zero => simp
    | succ m ih =>
      rw [Nat.succ_mul, BitVec.shiftRight_add, ← ih]
      exact h
  have hall := hiter w
  rwa [BitVec.ushiftRight_eq_zero (Nat.le_mul_of_pos_right w hk)] at hall

/-- The three steps of `xorshift` keep a word from becoming zero. -/
theorem xorshift_ne_zero (now : UInt64) {x : UInt64} (hx : x ≠ 0) : xorshift now x ≠ 0 := by
  have hleft13 : ∀ y : UInt64, y ≠ 0 → y ^^^ (y <<< 13) ≠ 0 := by
    intro y hy hzero
    have heq := congrArg UInt64.toBitVec (UInt64.xor_eq_zero_iff.mp hzero)
    exact hy (UInt64.toBitVec_inj.mp (eq_zero_of_eq_shiftLeft (by decide : 0 < 13) heq))
  have hright : ∀ y : UInt64, y ≠ 0 → y ^^^ (y >>> 7) ≠ 0 := by
    intro y hy hzero
    have heq := congrArg UInt64.toBitVec (UInt64.xor_eq_zero_iff.mp hzero)
    exact hy (UInt64.toBitVec_inj.mp (eq_zero_of_eq_ushiftRight (by decide : 0 < 7) heq))
  have hleft17 : ∀ y : UInt64, y ≠ 0 → y ^^^ (y <<< 17) ≠ 0 := by
    intro y hy hzero
    have heq := congrArg UInt64.toBitVec (UInt64.xor_eq_zero_iff.mp hzero)
    exact hy (UInt64.toBitVec_inj.mp (eq_zero_of_eq_shiftLeft (by decide : 0 < 17) heq))
  unfold xorshift
  rw [if_neg hx]
  exact hleft17 _ (hright _ (hleft13 x hx))

/-- The clock is read only for a state of zero. -/
theorem xorshift_eq_of_ne_zero {x : UInt64} (hx : x ≠ 0) (now now' : UInt64) :
    xorshift now x = xorshift now' x := by
  unfold xorshift
  rw [if_neg hx, if_neg hx]

/-- How many attempts in a row failed last. -/
def failedRun (ends : List Bool) : ℕ := (ends.rtakeWhile fun ok => !ok).length

/-- The count of an attempt: the failures since the last link that closed, and one more if any link
ever did. -/
def attemptsAfter (ends : List Bool) : ℕ :=
  min (failedRun ends + if true ∈ ends then 1 else 0) U32_MAX

/-- The backoff before the jitter. -/
def baseMs (attempt : ℕ) : ℕ := min (100 * 2 ^ min attempt 10) 30000

theorem attemptsAfter_concat (ends : List Bool) (ok : Bool) :
    attemptsAfter (ends ++ [ok]) = min ((if ok then 0 else attemptsAfter ends) + 1) U32_MAX := by
  unfold attemptsAfter failedRun
  cases ok with
  | true => simp
  | false =>
    simp only [List.rtakeWhile_concat, Bool.not_false, if_true, List.length_append,
      List.length_singleton, Bool.false_eq_true, if_false, List.mem_append, List.mem_singleton,
      reduceCtorEq, or_false]
    omega

theorem backoffMs_bounds (attempt : ℕ) (random : UInt64) :
    baseMs attempt ≤ backoffMs attempt random ∧ backoffMs attempt random < baseMs attempt + 1000 := by
  have hmod : random.toNat % 1000 < 1000 := Nat.mod_lt _ (by decide)
  unfold backoffMs baseMs U64_MAX
  dsimp only
  omega

/-- What holds of a task: its attempt follows from its log, and so does the backoff it sleeps for, up
to the jitter. -/
structure Paced (task : ClientTask) : Prop where
  attempt : task.attempt = attemptsAfter task.ends
  sleeps : ∀ backoff, task.phase = .sleeping backoff →
    1 ≤ task.attempt ∧ baseMs task.attempt ≤ backoff ∧ backoff < baseMs task.attempt + 1000

/-- What holds of all clients and all generators. -/
structure AllPaced (s : PeerClients) : Prop where
  tasks : ∀ task ∈ s.tasks, Paced task
  random : ∀ thread, s.random thread ≠ 0

/-- Every step keeps the pace between attempts. -/
theorem AllPaced.step (h : s.AllPaced) (heffect : Effect s s') : s'.AllPaced := by
  cases heffect with
  | answered id hs =>
    subst hs
    exact ⟨h.tasks, h.random⟩
  | began k task id hk hready hs =>
    subst hs
    have htask := h.tasks task (List.mem_of_getElem? hk)
    exact ⟨Party.forall_mem_set rfl h.tasks ⟨htask.attempt, nofun⟩, h.random⟩
  | kept k task task' hk hheld hends hattempt hsleeps hs =>
    subst hs
    have htask := h.tasks task (List.mem_of_getElem? hk)
    -- the phase moves, and the count of attempts does not
    refine ⟨Party.forall_mem_set rfl h.tasks ⟨?_, fun backoff hphase => ?_⟩, h.random⟩
    · rw [hattempt, hends]
      exact htask.attempt
    · rw [hattempt]
      exact htask.sleeps backoff (hsleeps backoff hphase)
  | ended k task id ok thread now hk hattempting hs =>
    subst hs
    have htask := h.tasks task (List.mem_of_getElem? hk)
    refine ⟨Party.forall_mem_set rfl h.tasks ⟨?_, fun backoff hphase => ?_⟩, fun t => ?_⟩
    · rw [attemptsAfter_concat, ← htask.attempt]
    · cases hphase
      -- the new attempt is at least the first, and a backoff is drawn for it
      have hpos : 1 ≤ min ((if ok then 0 else task.attempt) + 1) U32_MAX := by
        have hmax : 1 ≤ U32_MAX := by decide
        omega
      exact ⟨hpos, backoffMs_bounds _ _⟩
    · show Function.update s.random thread (xorshift now (s.random thread)) t ≠ 0
      rw [Function.update_apply]
      split
      · exact xorshift_ne_zero now (h.random thread)
      · exact h.random t

/-! ### All runs -/

/-- What every step of `n` clients keeps. -/
structure Sound (n : ℕ) (s : PeerClients) : Prop where
  counted : s.Counted
  registered : s.dialed.Nodup → s.Registered
  paced : s.AllPaced
  size : s.tasks.length = n

/-- Every step keeps the client's invariant. -/
theorem Sound.step (h : s.Sound n) (heffect : Effect s s') : s'.Sound n where
  counted := h.counted.step heffect
  registered hnodup :=
    (h.registered (hnodup.sublist heffect.dialed_prefix.sublist)).step heffect hnodup
  paced := h.paced.step heffect
  size := by
    cases heffect with
    | answered id hs => exact hs ▸ h.size
    | _ =>
      rename_i hs
      rw [← h.size, hs]
      exact List.length_set

/-- The client's invariant holds before anything is dialed. -/
theorem sound_init (n : ℕ) : (machine n).init.Sound n where
  counted _ := ⟨Nat.le_refl _, nofun⟩
  registered _ := by
    have hheld : (machine n).init.heldIds = [] := by
      show (List.replicate n {}).filterMap ClientTask.held = []
      rw [List.filterMap_eq_nil_iff]
      intro task htask
      rw [List.eq_of_mem_replicate htask]
      rfl
    refine ⟨?_, ?_, ?_, nofun⟩ <;> rw [hheld]
    · exact nofun
    · exact List.nodup_nil
    · exact fun id => ⟨nofun, fun h => absurd h.1 nofun⟩
  paced := by
    have hseed : XORSHIFT_SEED ≠ 0 := by decide
    refine ⟨fun task htask => ?_, fun _ => hseed⟩
    rw [List.eq_of_mem_replicate htask]
    exact ⟨rfl, nofun⟩
  size := List.length_replicate

theorem sound_of_reachable (h : (machine n).Reachable s) : s.Sound n :=
  h.inv (sound_init n) fun _ _ _ hs hstep => hs.step (effect_of_step hstep)

theorem Sound.registered_iff (h : s.Sound n) (hnodup : s.dialed.Nodup) (id : Uuid) :
    id ∈ s.peerInit ↔ (∃ task ∈ s.tasks, task.held = some id) ∧ (id, 200) ∉ s.answers := by
  rw [(h.registered hnodup).exact id, heldIds, List.mem_filterMap]

theorem Sound.card_le (h : s.Sound n) (hnodup : s.dialed.Nodup) : s.peerInit.card ≤ n := by
  have hsubset : s.peerInit ⊆ s.heldIds.toFinset := by
    intro id hid
    rw [List.mem_toFinset]
    exact (((h.registered hnodup).exact id).mp hid).1
  calc s.peerInit.card
      ≤ s.heldIds.toFinset.card := Finset.card_le_card hsubset
    _ ≤ s.heldIds.length := s.heldIds.toFinset_card_le
    _ ≤ s.tasks.length := List.length_filterMap_le _ _
    _ = n := h.size

/-- **An attempt is confirmed at most once.**  In every state that `n` clients can reach, an id was
confirmed no more often than it was dialed, whoever asked.  If the ids that were dialed differ, an id
is registered exactly while a client holds it and nobody has confirmed it; a client that was shut
down in an attempt holds the id of that attempt from then on, so that at most one id for each client
is ever left behind. -/
theorem confirmed_once (h : (machine n).Reachable s) :
    (∀ id, s.confirmed id ≤ s.dialed.count id) ∧
      (s.dialed.Nodup →
        (∀ id, id ∈ s.peerInit ↔
          (∃ task ∈ s.tasks, task.held = some id) ∧ (id, 200) ∉ s.answers) ∧
        s.peerInit.card ≤ n) := by
  have hsound := sound_of_reachable h
  exact ⟨fun id => (hsound.counted id).1, fun hnodup =>
    ⟨hsound.registered_iff hnodup, hsound.card_le hnodup⟩⟩

/-- Two clients; the first is shut down while it serves, and the second is confirmed twice over. -/
def shutDownServing : List ClientAction :=
  [.dial 0 1, .dial 1 2, .linked 0, .initiate 2, .initiate 2, .notify 0, .ended 0 true 0 0]

/-- The id of the first is still there, and it is the only one. -/
theorem confirmed_once_shutDownServing : ∃ s,
    (machine 2).run (machine 2).init shutDownServing = some s ∧
    s.dialed.Nodup ∧ s.confirmed 2 = 1 ∧
      (1 ∈ s.peerInit ↔ (∃ task ∈ s.tasks, task.held = some 1) ∧ (1, 200) ∉ s.answers) ∧
      1 ∈ s.peerInit := by
  have hrun : ∃ s, (machine 2).run (machine 2).init shutDownServing = some s ∧ s.dialed = [1, 2] ∧
      s.answers = [(2, 200), (2, 404)] ∧ 1 ∈ s.peerInit := ⟨_, rfl, rfl, rfl, by decide⟩
  obtain ⟨s, hs, hdialed, hanswers, hreg⟩ := hrun
  have hnodup : s.dialed.Nodup := by
    rw [hdialed]
    decide
  have hexact := ((confirmed_once ⟨_, hs⟩).2 hnodup).1 1
  refine ⟨s, hs, hnodup, ?_, hexact, hreg⟩
  rw [confirmed, hanswers]
  decide

/-- **The backoff follows the log.**  In every reachable state the attempt of a client is the number
of its failures since a link of it last closed, one more if one ever did, and at most `u32::MAX`.
A client sleeps for `100 · 2 ^ attempt` milliseconds, at most 30 seconds, and up to a second more, so
never less than 200 milliseconds.  No generator is ever at zero, where the clock would seed it. -/
theorem backoff_paced (h : (machine n).Reachable s) :
    (∀ task ∈ s.tasks, task.attempt = attemptsAfter task.ends ∧
      ∀ backoff, task.phase = .sleeping backoff →
        200 ≤ baseMs task.attempt ∧ baseMs task.attempt ≤ 30000 ∧
          baseMs task.attempt ≤ backoff ∧ backoff < baseMs task.attempt + 1000) ∧
    ∀ thread now now', xorshift now (s.random thread) = xorshift now' (s.random thread) := by
  have hpaced := (sound_of_reachable h).paced
  refine ⟨fun task htask => ?_, fun thread now now' =>
    xorshift_eq_of_ne_zero (hpaced.random thread) now now'⟩
  have htask := hpaced.tasks task htask
  refine ⟨htask.attempt, fun backoff hphase => ?_⟩
  obtain ⟨hpos, hlow, hhigh⟩ := htask.sleeps backoff hphase
  have hpow : 2 ^ 1 ≤ 2 ^ min task.attempt 10 := Nat.pow_le_pow_right (by decide) (by omega)
  have hbase : 200 ≤ baseMs task.attempt ∧ baseMs task.attempt ≤ 30000 := by
    unfold baseMs
    omega
  exact ⟨hbase.1, hbase.2, hlow, hhigh⟩

/-- A client that fails twice, links once and fails again. -/
def unsteadyLink : List ClientAction :=
  [.dial 0 1, .ended 0 false 0 0, .wake 0, .dial 0 2, .ended 0 false 3 9, .wake 0, .dial 0 3,
    .linked 0,
    .ended 0 true 3 9, .wake 0, .dial 0 4, .ended 0 false 0 0]

/-- After a link that closed, the next failure counts as the second. -/
theorem backoff_paced_unsteadyLink : ∃ s task backoff,
    (machine 1).run (machine 1).init unsteadyLink = some s ∧ task ∈ s.tasks ∧
      task.phase = .sleeping backoff ∧ task.attempt = 2 ∧ task.attempt = attemptsAfter task.ends ∧
      400 ≤ backoff ∧ backoff < 1400 := by
  have hrun : ∃ s, (machine 1).run (machine 1).init unsteadyLink = some s ∧
      s.tasks = [⟨.sleeping (backoffMs 2 (xorshift 0 (xorshift 0 XORSHIFT_SEED))), 2, false,
        [false, false, true, false]⟩] := ⟨_, rfl, by decide⟩
  obtain ⟨s, hs, htasks⟩ := hrun
  have hmem : ∀ task, s.tasks = [task] → task ∈ s.tasks := fun task h => h ▸ List.mem_singleton_self _
  have hpaced := (backoff_paced ⟨_, hs⟩).1 _ (hmem _ htasks)
  have hbase : baseMs 2 = 400 := by decide
  obtain ⟨-, -, hlow, hhigh⟩ := hpaced.2 _ rfl
  rw [hbase] at hlow hhigh
  exact ⟨s, _, _, hs, hmem _ htasks, rfl, rfl, hpaced.1, hlow, hhigh⟩

end PeerClients

end Boardwalk
