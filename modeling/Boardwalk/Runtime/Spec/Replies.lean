import Boardwalk.Lib.Ledger
import Boardwalk.Lib.Progress
import Boardwalk.Runtime.Spec.Executor

/-!
# Every caller of an actor is answered

The linearisation of `Runtime.Spec.Executor` says which answer a caller gets; this module says that
it gets one.  The slots of the mailbox are accounted for (`Slots`), every step of the callers and of
the task lowers an effort, and a state in which none of them can step is looked at once: its mailbox
is empty, its task waits for a command or is gone, and no caller is left waiting.  Nothing is
assumed of the run before: handlers may have panicked, the task may have been aborted, callers may
have left.
-/

namespace Boardwalk.Executor

variable {ι ο σ : Type*} {e e' : Executor ι ο σ} {a : Action ι ο σ} {k : ℕ} {c : Call ι ο σ}

/-! ### The slots of the mailbox -/

/-- The slots assigned to a call whose send was not polled since. -/
def Phase.permit : Phase ο σ → ℕ
  | .permitted => 1
  | _ => 0

def permits (e : Executor ι ο σ) : ℕ := (e.calls.map fun c => c.phase.permit).sum

/-- Queued commands and assigned slots fit the mailbox, and no slot is lost. -/
structure Slots (capacity : ℕ) (e : Executor ι ο σ) : Prop where
  capacity_eq : e.mailbox.capacity = max capacity 1
  reserved : e.mailbox.reserved = e.permits
  bounded : e.mailbox.buf.length + e.mailbox.reserved ≤ e.mailbox.capacity

theorem modify_eq_set {α : Type*} {l : List α} {x : α} (f : α → α) (h : l[k]? = some x) :
    l.modify k f = l.set k (f x) := by
  apply List.ext_getElem?
  intro j
  rw [List.getElem?_modify, List.getElem?_set]
  by_cases hkj : k = j
  · subst hkj
    obtain ⟨hlt, rfl⟩ := List.getElem?_eq_some_iff.mp h
    simp [hlt]
  · simp [hkj]

theorem calls_setPhase (h : e.calls[k]? = some c) (p : Phase ο σ) :
    (e.setPhase k p).calls = e.calls.set k { c with phase := p } :=
  modify_eq_set _ h

/-- A call moves on: its permit is exchanged for that of its new phase. -/
theorem permits_setPhase (h : e.calls[k]? = some c) (p : Phase ο σ) :
    (e.setPhase k p).permits + c.phase.permit = e.permits + p.permit := by
  unfold permits
  rw [calls_setPhase h]
  exact sum_map_set (fun c : Call ι ο σ => c.phase.permit) h { c with phase := p }

variable {capacity : ℕ}

/-- A move of call `k` that changes the mailbox from `e`'s to `q`. -/
theorem Slots.setPhase (h : e.Slots capacity) (hc : e.calls[k]? = some c) {p : Phase ο σ}
    {q : Mpsc (Command ι)} (hcap : q.capacity = e.mailbox.capacity)
    (hreserved : q.reserved + c.phase.permit = e.mailbox.reserved + p.permit)
    (hbound : q.buf.length + q.reserved ≤ e.mailbox.capacity) :
    ({ e with mailbox := q }.setPhase k p).Slots capacity := by
  have hpermits := permits_setPhase (e := { e with mailbox := q }) hc p
  have hold := h.reserved
  refine ⟨hcap.trans h.capacity_eq, ?_, ?_⟩
  · show q.reserved = ({ e with mailbox := q }.setPhase k p).permits
    have hsame : ({ e with mailbox := q } : Executor ι ο σ).permits = e.permits := rfl
    omega
  · show q.buf.length + q.reserved ≤ q.capacity
    omega

/-- A call that holds a permit finds its slot reserved. -/
theorem Slots.permit_le (h : e.Slots capacity) (hc : e.calls[k]? = some c) :
    c.phase.permit ≤ e.mailbox.reserved := by
  have hsum := sum_map_set (fun c : Call ι ο σ => c.phase.permit) hc
    { c with phase := .abandoned }
  have hzero : (Phase.abandoned : Phase ο σ).permit = 0 := rfl
  have hreserved := h.reserved
  unfold permits at hreserved
  dsimp only at hsum
  omega

theorem Slots.same (h : e.Slots capacity) (hc : e.calls[k]? = some c) {p : Phase ο σ}
    (hp : c.phase.permit = p.permit) : (e.setPhase k p).Slots capacity := by
  have hbound := h.bounded
  exact h.setPhase hc (q := e.mailbox) rfl (by omega) hbound

theorem Slots.pollSend (h : e.Slots capacity) (hc : e.calls[k]? = some c)
    (hs : e.pollSend k c = some e') : e'.Slots capacity := by
  unfold Executor.pollSend at hs
  split at hs
  · rename_i hp
    cases hs
    have hzero : c.phase.permit = 0 := by rw [hp]; rfl
    unfold trySend
    split
    · -- the push takes a slot that is free
      rename_i q hq
      obtain ⟨-, hroom⟩ := Mpsc.room_of_trySend_ok hq
      have hlt : e.mailbox.buf.length + e.mailbox.reserved < e.mailbox.capacity := by
        simpa [Mpsc.hasRoom] using hroom
      rw [Mpsc.trySend_ok hq]
      refine h.setPhase hc rfl ?_ ?_
      · show e.mailbox.reserved + c.phase.permit = e.mailbox.reserved + 0
        omega
      · simp only [Mpsc.push, List.length_append, List.length_singleton]
        omega
    · exact h.same hc hzero
    · exact h.same hc hzero
  · rename_i hp _
    split at hs
    · cases hs
    · cases hs
      exact h.same hc (by rw [hp]; rfl)
  · -- a permit is spent, or goes back to a mailbox that is closed
    rename_i hp
    cases hs
    have hone : c.phase.permit = 1 := by rw [hp]; rfl
    have hpos := h.permit_le hc
    have hbound := h.bounded
    unfold send
    split
    · -- the mailbox is open, or closed
      refine h.setPhase hc rfl ?_ ?_
      · show e.mailbox.reserved - 1 + c.phase.permit = e.mailbox.reserved + 0
        omega
      · simp only [Mpsc.pushReserved, Mpsc.push, List.length_append, List.length_singleton]
        omega
    · refine h.setPhase hc rfl ?_ ?_
      · show e.mailbox.reserved - 1 + c.phase.permit = e.mailbox.reserved + 0
        omega
      · show e.mailbox.buf.length + (e.mailbox.reserved - 1) ≤ e.mailbox.capacity
        omega
  · cases hs

theorem Slots.reserve (h : e.Slots capacity) (hc : e.calls[k]? = some c)
    (hs : e.reserve k c = some e') : e'.Slots capacity := by
  unfold Executor.reserve at hs
  split at hs
  · cases hs
  · rename_i hp _
    split at hs
    · obtain ⟨q, hq, rfl⟩ := Option.map_eq_some_iff.mp hs
      -- a reservation needs a free slot
      have hroom : e.mailbox.hasRoom = true := by
        by_contra hno
        simp [Mpsc.reserve, hno] at hq
      have hlt : e.mailbox.buf.length + e.mailbox.reserved < e.mailbox.capacity := by
        simpa [Mpsc.hasRoom] using hroom
      have hzero : c.phase.permit = 0 := by rw [hp]; rfl
      rw [Mpsc.reserve_some hq]
      refine h.setPhase hc rfl ?_ ?_
      · show e.mailbox.reserved + 1 + c.phase.permit = e.mailbox.reserved + 1
        omega
      · show e.mailbox.buf.length + (e.mailbox.reserved + 1) ≤ e.mailbox.capacity
        omega
    · cases hs
  · cases hs

theorem Slots.abandon (h : e.Slots capacity) (hc : e.calls[k]? = some c)
    (hs : e.abandon k c = some e') : e'.Slots capacity := by
  unfold Executor.abandon at hs
  split at hs
  · rename_i hp
    cases hs
    exact h.same hc (by rw [hp]; rfl)
  · rename_i hp
    cases hs
    exact h.same hc (by rw [hp]; rfl)
  · -- the slot of a send that is dropped goes back
    rename_i hp
    cases hs
    have hone : c.phase.permit = 1 := by rw [hp]; rfl
    have hpos := h.permit_le hc
    have hbound := h.bounded
    refine h.setPhase hc rfl ?_ ?_
    · show e.mailbox.reserved - 1 + c.phase.permit = e.mailbox.reserved + 0
      omega
    · show e.mailbox.buf.length + (e.mailbox.reserved - 1) ≤ e.mailbox.capacity
      omega
  · cases hs

/-- A step of the task: it moves no call from or to a permit. -/
theorem Slots.of_task (h : e.Slots capacity) (hcap : e'.mailbox.capacity = e.mailbox.capacity)
    (hreserved : e'.mailbox.reserved = e.mailbox.reserved)
    (hbuf : e'.mailbox.buf.length ≤ e.mailbox.buf.length) (hpermits : e'.permits = e.permits) :
    e'.Slots capacity := by
  have hold := h.reserved
  have hbound := h.bounded
  exact ⟨hcap.trans h.capacity_eq, by omega, by omega⟩

theorem permit_answer (c : Call ι ο σ) (ans : Answer ο σ) :
    (c.answer ans).phase.permit = c.phase.permit := by
  unfold Call.answer
  split
  · rename_i hp
    rw [hp]
    rfl
  · rfl

theorem permit_dropSender (c : Call ι ο σ) : c.dropSender.phase.permit = c.phase.permit := by
  unfold Call.dropSender
  split
  · rename_i hp
    rw [hp]
    rfl
  · rfl

/-- A tally over the calls does not see a change that keeps what is tallied. -/
theorem sum_modify {f : Call ι ο σ → ℕ} {g : Call ι ο σ → Call ι ο σ} (hg : ∀ c, f (g c) = f c)
    (l : List (Call ι ο σ)) (k : ℕ) : ((l.modify k g).map f).sum = (l.map f).sum := by
  congr 1
  apply List.ext_getElem?
  intro j
  rw [List.getElem?_map, List.getElem?_modify, List.getElem?_map]
  cases l[j]? with
  | none => simp
  | some c =>
    by_cases hkj : k = j
    · simp [hkj, hg]
    · simp [hkj]

/-- The end of the task changes no call but for its sender. -/
theorem map_finish {f : Call ι ο σ → ℕ} (hf : ∀ c, f c.dropSender = f c) (e : Executor ι ο σ) :
    e.finish.calls.map f = e.calls.map f := by
  apply List.ext_getElem?
  intro j
  rw [finish, List.getElem?_map, List.getElem?_mapIdx, List.getElem?_map]
  cases e.calls[j]? with
  | none => rfl
  | some c =>
    show some (f (if j ∈ e.held.map Command.reply then c.dropSender else c)) = some (f c)
    split
    · rw [hf]
    · rfl

theorem Slots.finish (h : e.Slots capacity) : e.finish.Slots capacity := by
  refine h.of_task rfl rfl (Nat.le_refl _) ?_
  unfold permits
  rw [map_finish permit_dropSender]

theorem Slots.step (h : e.Slots capacity) (hs : e.step a = some e') : e'.Slots capacity := by
  cases a with
  | call r =>
    -- a call takes slots and gives them back by its own steps only
    simp only [Executor.step] at hs
    split at hs
    · cases hs
      refine h.of_task rfl rfl (Nat.le_refl _) ?_
      unfold permits call
      rw [List.map_append, List.sum_append]
      rfl
    · cases hs
  | reserve k =>
    obtain ⟨c, hc, hstep⟩ := Option.bind_eq_some_iff.mp hs
    exact h.reserve hc hstep
  | send k =>
    obtain ⟨c, hc, hstep⟩ := Option.bind_eq_some_iff.mp hs
    exact h.pollSend hc hstep
  | abandon k =>
    obtain ⟨c, hc, hstep⟩ := Option.bind_eq_some_iff.mp hs
    exact h.abandon hc hstep
  | receive k =>
    obtain ⟨c, hc, hstep⟩ := Option.bind_eq_some_iff.mp hs
    unfold Executor.receive at hstep
    split at hstep
    · rename_i hp
      cases hstep
      exact h.same hc (by rw [hp]; rfl)
    · rename_i hp
      cases hstep
      exact h.same hc (by rw [hp]; rfl)
    · cases hstep
  | timeout k =>
    obtain ⟨c, hc, hstep⟩ := Option.bind_eq_some_iff.mp hs
    unfold Executor.timeout at hstep
    split at hstep
    · rename_i hp
      cases hstep
      exact h.same hc (by rw [hp]; rfl)
    · cases hstep
  | start | abort | release =>
    -- the task's steps leave the permits alone
    have heff := step_effect hs
    cases heff with
    | move _ _ _ _ _ _ hp _ => cases hp
    | finish _ hend => cases hend
    | _ => exact h.of_task rfl rfl (Nat.le_refl _) rfl
  | recv =>
    have heff := step_effect hs
    cases heff with
    | move _ _ _ _ _ _ hp _ => cases hp
    | finish _ hend => cases hend
    | leave => exact h.of_task rfl rfl (Nat.le_refl _) rfl
    | recv cmd q htask hq =>
      -- a command taken frees its slot
      obtain ⟨hbuf, -, -⟩ := Mpsc.recv_some hq
      have hsame : q.capacity = e.mailbox.capacity ∧ q.reserved = e.mailbox.reserved := by
        unfold Mpsc.recv at hq
        split at hq
        · cases hq
        · cases hq
          exact ⟨rfl, rfl⟩
      refine h.of_task hsame.1 hsame.2 ?_ rfl
      show q.buf.length ≤ e.mailbox.buf.length
      rw [hbuf]
      exact Nat.le_succ _
  | reply ans =>
    have heff := step_effect hs
    cases heff with
    | move _ _ _ _ _ _ hp _ => cases hp
    | finish _ hend => cases hend
    | reply cmd _ htask hfits =>
      refine h.of_task rfl rfl (Nat.le_refl _) ?_
      exact sum_modify (f := fun c : Call ι ο σ => c.phase.permit) (fun c => permit_answer c ans) _ _
  | finish | panic | cancel =>
    have heff := step_effect hs
    cases heff with
    | move _ _ _ _ _ _ hp _ => cases hp
    | finish _ hend => exact h.finish

theorem slots_spawn (capacity : ℕ) : (spawn ι ο σ capacity).Slots capacity :=
  ⟨rfl, rfl, Nat.zero_le _⟩

/-! ### What is left to do -/

/-- A send costs a slot and a push, which leaves a command behind; a wait costs a receive. -/
def Phase.effort : Phase ο σ → ℕ
  | .calling => 6
  | .permitted => 5
  | .waiting _ => 1
  | .returned _ | .abandoned => 0

def TaskPhase.effort : TaskPhase ι → ℕ
  | .starting => 3
  | .idle => 2
  | .running _ => 4
  | .stopped => 1
  | .ended => 0

/-- What the calls, the commands in the mailbox and the task have still to go through. -/
def effort (e : Executor ι ο σ) : ℕ :=
  (e.calls.map fun c => c.phase.effort).sum + 3 * e.mailbox.buf.length + e.task.effort

/-- The steps that callers and task take by themselves; handlers may panic. -/
def Action.ofParties : Action ι ο σ → Prop
  | .call _ | .abandon _ | .abort | .release => False
  | _ => True

/-- The steps of callers that poll their calls and of a task whose handlers return. -/
def Action.cooperative : Action ι ο σ → Prop
  | .reserve _ | .send _ | .receive _ | .start | .recv | .reply _ | .finish => True
  | _ => False

theorem Action.ofParties_of_cooperative (h : a.cooperative) : a.ofParties := by
  cases a with
  | call r | abandon k | abort | release => cases h
  | _ => exact trivial

theorem Moves.effort_lt {p : Phase ο σ} (h : Moves e k c a p) (ha : a.ofParties) :
    p.effort < c.phase.effort := by
  cases h with
  | permitted hp => rw [hp]; exact Nat.lt_succ_self _
  | terminated hp _ => rcases hp with hp | hp <;> rw [hp] <;> exact Nat.succ_pos _
  | busy _ _ _ hp => rw [hp]; exact Nat.succ_pos _
  | received _ hp | droppedReply hp | timedOut _ hp => rw [hp]; exact Nat.one_pos
  | abandoned _ => cases ha

theorem effort_setPhase (hc : e.calls[k]? = some c) (p : Phase ο σ) (q : Mpsc (Command ι)) :
    ({ e with mailbox := q }.setPhase k p).effort + c.phase.effort + 3 * e.mailbox.buf.length =
      e.effort + p.effort + 3 * q.buf.length := by
  have hcalls := calls_setPhase (e := { e with mailbox := q }) hc p
  have hsum := sum_map_set (fun c : Call ι ο σ => c.phase.effort) hc { c with phase := p }
  unfold effort
  rw [hcalls]
  dsimp only at hsum ⊢
  show _ + 3 * q.buf.length + e.task.effort + c.phase.effort + 3 * e.mailbox.buf.length = _
  omega

/-- **Every step of callers and task lowers the effort.** -/
theorem effort_lt (ha : a.ofParties) (hs : e.step a = some e') : e'.effort < e.effort := by
  cases step_effect hs with
  | call r => cases ha
  | move _ k c p q hc hp hq =>
    -- a call's move goes down in its own phase
    have hlow := hp.effort_lt ha
    have heff := effort_setPhase hc p q
    rw [hq.buf] at heff
    omega
  | push k c q hc hp hrx hq =>
    -- a command sent weighs less in the mailbox than its call did
    have heff := effort_setPhase hc (.waiting .pending) q
    have hlen : q.buf.length = e.mailbox.buf.length + 1 := by rw [hq.buf]; simp [Mpsc.push]
    have hone : (Phase.waiting .pending : Phase ο σ).effort = 1 := rfl
    have hfive : 5 ≤ c.phase.effort := by
      rcases hp with hp | hp <;> rw [hp] <;> simp [Phase.effort]
    omega
  | start htask =>
    unfold effort
    rw [htask]
    simp [TaskPhase.effort]
  | recv cmd q htask hq =>
    obtain ⟨hbuf, -, -⟩ := Mpsc.recv_some hq
    unfold effort
    rw [htask, hbuf, List.length_cons]
    simp only [TaskPhase.effort]
    omega
  | leave htask =>
    unfold effort
    rw [htask]
    simp [TaskPhase.effort]
  | reply cmd ans htask hfits =>
    -- the caller's phase has one weight, answered or not
    have hsame : ∀ c : Call ι ο σ, (c.answer ans).phase.effort = c.phase.effort := by
      intro c
      unfold Call.answer
      split
      · rename_i hp
        rw [hp]
        rfl
      · rfl
    have hsum := sum_modify (f := fun c : Call ι ο σ => c.phase.effort) hsame e.calls cmd.reply
    unfold effort
    dsimp only at hsum ⊢
    rw [hsum, htask]
    split <;> simp only [TaskPhase.effort] <;> omega
  | finish _ hend =>
    have hsame : ∀ c : Call ι ο σ, c.dropSender.phase.effort = c.phase.effort := by
      intro c
      unfold Call.dropSender
      split
      · rename_i hp
        rw [hp]
        rfl
      · rfl
    -- a task that ends had something left to do
    have htask : 0 < e.task.effort := by
      cases hend with
      | finish h => rw [h]; exact Nat.one_pos
      | panic h => rcases h with h | ⟨cmd, h⟩ <;> rw [h] <;> exact Nat.succ_pos _
      | cancel h _ => cases ht : e.task <;> simp_all [TaskPhase.effort]
    have hsum := congrArg List.sum
      (map_finish (f := fun c : Call ι ο σ => c.phase.effort) hsame e)
    have hended : e.finish.task.effort = 0 := rfl
    have hbuf : e.finish.mailbox.buf = e.mailbox.buf := rfl
    unfold effort
    rw [hsum, hended, hbuf]
    omega
  | abort => cases ha
  | release => cases ha

/-! ### At rest -/

/-- What every reachable state satisfies. -/
structure Served (capacity : ℕ) (e : Executor ι ο σ) : Prop where
  sound : e.Sound
  slots : e.Slots capacity

theorem Served.step (h : e.Served capacity) (hs : e.step a = some e') : e'.Served capacity :=
  ⟨h.sound.step (step_effect hs), h.slots.step hs⟩

theorem served_of_reachable (h : (machine ι ο σ capacity).Reachable e) : e.Served capacity :=
  h.inv (I := Served capacity) ⟨sound_spawn capacity, slots_spawn capacity⟩ fun _ _ _ => Served.step

theorem ranks_ofParties (capacity : ℕ) :
    (machine ι ο σ capacity).Ranks Action.ofParties (Served capacity) effort where
  keeps _ _ _ h _ hs := h.step hs
  lowers _ _ _ _ ha hs := effort_lt ha hs

/-- No caller can poll its call to some effect, and the task has nothing to do. -/
def Resting (e : Executor ι ο σ) : Prop := ∀ a : Action ι ο σ, a.cooperative → e.step a = none

/-- A handler can always answer something. -/
theorem exists_fits (cmd : Command ι) : ∃ ans : Answer ο σ, cmd.Fits ans = true := by
  cases cmd with
  | transition name input k => exact ⟨.transition (.error .busy), rfl⟩
  | snapshot k => exact ⟨.snapshot (.error (.notFound "")), rfl⟩
  | stop k => exact ⟨.shutdown true, rfl⟩

/-- The task of a resting executor waits for a command, or it is gone. -/
theorem Resting.task (h : e.Resting) :
    e.task = .idle ∧ e.handles = true ∧ e.mailbox.buf = [] ∨ e.task = .ended := by
  -- each phase but the last two can step
  cases htask : e.task with
  | starting =>
    have hstart := h .start trivial
    simp [Executor.step, start, htask] at hstart
  | running cmd =>
    obtain ⟨ans, hfits⟩ := exists_fits (ο := ο) (σ := σ) cmd
    have hreply := h (.reply ans) trivial
    simp [Executor.step, reply, htask, hfits] at hreply
  | stopped =>
    have hfinish := h .finish trivial
    simp [Executor.step, htask] at hfinish
  | ended => exact .inr rfl
  | idle =>
    have hrecv := h .recv trivial
    -- an idle task waits for the mailbox
    simp only [Executor.step, recv, htask] at hrecv
    cases hbuf : e.mailbox.buf with
    | nil =>
      simp only [Mpsc.recv, hbuf] at hrecv
      split at hrecv
      · rename_i hhandles
        exact .inl ⟨rfl, hhandles, rfl⟩
      · cases hrecv
    | cons cmd rest => simp [Mpsc.recv, hbuf] at hrecv

/-- A caller that cannot poll its send has not a permit: it would send. -/
theorem not_permitted_of_send (h : e.step (.send k) = none) (hc : e.calls[k]? = some c) :
    c.phase ≠ .permitted := by
  intro hp
  simp only [Executor.step, hc, Option.bind_some, pollSend, hp] at h
  cases hr : c.request <;> simp [hr] at h

theorem reserved_of_send (hs : e.Served capacity) (h : ∀ k, e.step (.send k) = none) :
    e.mailbox.reserved = 0 := by
  rw [hs.slots.reserved]
  unfold permits
  refine List.sum_eq_zero fun n hn => ?_
  obtain ⟨c, hc, rfl⟩ := List.mem_map.mp hn
  obtain ⟨k, hk⟩ := List.mem_iff_getElem?.mp hc
  have hnot := not_permitted_of_send (h k) hk
  cases hp : c.phase with
  | permitted => exact absurd hp hnot
  | _ => rfl

/-- A caller of a resting executor is not before its send either: the mailbox is closed, or it has
a free slot. -/
theorem Resting.not_calling (hs : e.Served capacity) (h : e.Resting) (hc : e.calls[k]? = some c) :
    c.phase ≠ .calling := by
  intro hp
  have hsend := h (.send k) trivial
  simp only [Executor.step, hc, Option.bind_some] at hsend
  have hreserve := h (.reserve k) trivial
  simp only [Executor.step, hc, Option.bind_some] at hreserve
  -- an open mailbox at rest has room, so the call would go on
  have hclosed : e.mailbox.rxAlive = true → e.mailbox.reserve = none → False := by
    intro halive hnone
    have htask : e.task ≠ .ended := hs.sound.alive.mp halive
    rcases h.task with ⟨-, -, hbuf⟩ | hended
    · -- nothing is queued and nothing is reserved, so a slot is free
      have hzero := reserved_of_send hs fun k => h (.send k) trivial
      have hcap := hs.slots.capacity_eq
      simp only [Mpsc.reserve, Mpsc.hasRoom, hbuf, List.length_nil, hzero] at hnone
      split at hnone
      · cases hnone
      · rename_i hroom
        simp only [decide_eq_true_eq] at hroom
        omega
    · exact htask hended
  -- a transition tried at once is refused; the others wait for room
  cases hr : c.request with
  | tryTransition name input => simp [pollSend, hr, hp] at hsend
  | transitionWithCtx name input | snapshot | shutdown =>
    simp only [pollSend, hr, hp] at hsend
    simp only [Executor.reserve, hr, hp] at hreserve
    split at hsend
    · rename_i halive
      rw [if_pos halive] at hreserve
      exact hclosed halive (Option.map_eq_none_iff.mp hreserve)
    · cases hsend

/-- **Nobody is left waiting.** -/
theorem Resting.answered (hs : e.Served capacity) (h : e.Resting) (hc : e.calls[k]? = some c) :
    (∃ ans, c.phase = .returned ans ∧ e.Returned k c ans) ∨ c.phase = .abandoned := by
  have hok := hs.sound.answered k c hc
  have hreceive := h (.receive k) trivial
  simp only [Executor.step, hc, Option.bind_some, receive] at hreceive
  cases hp : c.phase with
  | calling => exact absurd hp (h.not_calling hs hc)
  | permitted => exact absurd hp (not_permitted_of_send (h (.send k) trivial) hc)
  | abandoned => exact .inr rfl
  | returned ans =>
    simp only [CallOk, hp] at hok
    exact .inl ⟨ans, rfl, hok⟩
  | waiting slot =>
    cases slot with
    | sent ans => simp [hp] at hreceive
    | dropped => simp [hp] at hreceive
    | pending =>
      -- its command would be in the mailbox or in a handler, and there is none
      simp only [CallOk, hp] at hok
      obtain ⟨hheld, hne⟩ := hok
      rcases h.task with ⟨htask, -, hbuf⟩ | hended
      · simp [held, htask, hbuf] at hheld
      · exact absurd hended hne

/-- **No caller of an actor hangs.**  Let a run have led to any state: with panics, aborted tasks,
callers that left or handles that are gone.  From there a schedule of steps of the callers and of
the task is no longer than the effort, and steps without a panic bring it to a state in which none
is enabled.  In such a state every call has returned or was abandoned, and what it returned is the
answer of its own handler or an error of the executor; the task waits at an empty mailbox for which
a handle exists, or it is gone.  The mailbox never holds more commands than its capacity. -/
theorem no_caller_hangs (ι ο σ : Type*) (capacity : ℕ) {e e' : Executor ι ο σ}
    (h : (machine ι ο σ capacity).Reachable e) {as : List (Action ι ο σ)}
    (has : ∀ a ∈ as, a.ofParties) (hr : (machine ι ο σ capacity).run e as = some e') :
    as.length ≤ e.effort ∧ e'.mailbox.buf.length ≤ max capacity 1 ∧
      (∃ bs e'', (∀ a ∈ bs, a.cooperative) ∧ (machine ι ο σ capacity).run e' bs = some e'' ∧
        e''.Resting) ∧
      (e'.Resting →
        (e'.task = .idle ∧ e'.handles = true ∧ e'.mailbox.buf = [] ∨ e'.task = .ended) ∧
        ∀ k c, e'.calls[k]? = some c →
          (∃ ans, c.phase = .returned ans ∧ e'.Returned k c ans) ∨ c.phase = .abandoned) := by
  have hserved := served_of_reachable h
  obtain ⟨hlen, hs', -⟩ := (ranks_ofParties capacity).settles hserved has hr
  have hcooperative : (machine ι ο σ capacity).Ranks Action.cooperative (Served capacity) effort :=
    (ranks_ofParties capacity).mono fun a ha => Action.ofParties_of_cooperative ha
  obtain ⟨bs, e'', hbs, hrun, hrest⟩ := hcooperative.exists_atRest hs'
  have hbound := hs'.slots.bounded
  have hcap := hs'.slots.capacity_eq
  exact ⟨hlen, by omega, ⟨bs, e'', hbs, hrun, hrest⟩,
    fun hresting => ⟨hresting.task, fun k c hc => hresting.answered hs' hc⟩⟩

/-- A handler panics with one command still in the mailbox and one call before its send. -/
def panickedRun : List (Action String String String) :=
  [.call (.transitionWithCtx "turn-on" ""), .call .snapshot, .call .snapshot, .start, .reserve 0,
    .send 0, .reserve 1, .send 1, .recv, .panic]

/-- A command that panics leaves three calls, each with its own error. -/
theorem no_caller_hangs_panickedRun : ∃ e e' : Executor String String String,
    (machine String String String 2).run (machine String String String 2).init panickedRun =
        some e ∧
      (machine String String String 2).run e [.send 2, .receive 0, .receive 1] = some e' ∧
      e'.calls.map Call.phase = [
        .returned (.transition (.error (.internal "actor task dropped reply slot"))),
        .returned (.snapshot (.error (.internal "actor task dropped reply slot"))),
        .returned (.snapshot (.error (.unavailable "actor task terminated")))] ∧
      3 ≤ e.effort := by
  refine ⟨_, _, rfl, rfl, rfl, ?_⟩
  have hparties : ∀ a ∈ ([.send 2, .receive 0, .receive 1] : List (Action String String String)),
      a.ofParties := by
    intro a ha
    simp only [List.mem_cons, List.not_mem_nil, or_false] at ha
    rcases ha with rfl | rfl | rfl <;> exact trivial
  exact (no_caller_hangs String String String 2 ⟨panickedRun, rfl⟩ hparties rfl).1

end Boardwalk.Executor
