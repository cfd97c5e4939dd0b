import Mathlib.Data.List.Nodup
import Boardwalk.Runtime.Executor

/-!
# Commands of an actor are linearised

What a step of the machine of an actor's task and its callers can do is said once, by `Effect`.
From it the invariant `Sound` follows, which ties the phase of every call to the mailbox and to what
the actor did; it holds whatever happens to the task.  In a run without panics and aborts the calls
are then linearised: the handlers run one after the other in the order of the mailbox, and a call of
`transition_with_ctx`, `try_transition` or `snapshot` returns the answer of its handler, or an error
of the executor for a command that no handler ever gets.
-/

namespace Boardwalk.Executor

variable {ι ο σ : Type*}

/-! ### What a step can do -/

/-- The steps of call `k`, the push of its command apart. -/
inductive Moves (e : Executor ι ο σ) (k : ℕ) (c : Call ι ο σ) : Action ι ο σ → Phase ο σ → Prop
  | permitted (h : c.phase = .calling) : Moves e k c (.reserve k) .permitted
  | terminated (h : c.phase = .calling ∨ c.phase = .permitted) (hrx : e.mailbox.rxAlive = false) :
      Moves e k c (.send k) (.returned c.request.terminated)
  | busy (name : String) (input : ι) (hr : c.request = .tryTransition name input)
      (h : c.phase = .calling) : Moves e k c (.send k) (.returned (.transition (.error .busy)))
  | received (a : Answer ο σ) (h : c.phase = .waiting (.sent a)) :
      Moves e k c (.receive k) (.returned a)
  | droppedReply (h : c.phase = .waiting .dropped) :
      Moves e k c (.receive k) (.returned c.request.droppedReply)
  | timedOut (hr : c.request = .shutdown) (h : c.phase = .waiting .pending) :
      Moves e k c (.timeout k) (.returned (.shutdown false))
  | abandoned (h : ∀ a, c.phase ≠ .returned a) : Moves e k c (.abandon k) .abandoned

/-- The mailbox holds and has handed out the same commands, with its receiver alive or not as
before. -/
structure SameQueue (q q' : Mpsc (Command ι)) : Prop where
  buf : q'.buf = q.buf
  received : q'.received = q.received
  rxAlive : q'.rxAlive = q.rxAlive

theorem SameQueue.refl (q : Mpsc (Command ι)) : SameQueue q q := ⟨rfl, rfl, rfl⟩

/-- The steps that end the task. -/
inductive Ends (e : Executor ι ο σ) : Action ι ο σ → Prop
  | finish (h : e.task = .stopped) : Ends e .finish
  | panic (h : e.task = .starting ∨ ∃ cmd, e.task = .running cmd) : Ends e .panic
  | cancel (h : e.task ≠ .ended) (ha : e.aborted = true) : Ends e .cancel

/-- Everything a step can do. -/
inductive Effect (e : Executor ι ο σ) : Action ι ο σ → Executor ι ο σ → Prop
  | call (r : Request ι) : Effect e (.call r) (e.call r)
  | move (a : Action ι ο σ) (k : ℕ) (c : Call ι ο σ) (p : Phase ο σ) (q : Mpsc (Command ι))
      (hc : e.calls[k]? = some c) (hp : Moves e k c a p) (hq : SameQueue e.mailbox q) :
      Effect e a ({ e with mailbox := q }.setPhase k p)
  | push (k : ℕ) (c : Call ι ο σ) (q : Mpsc (Command ι)) (hc : e.calls[k]? = some c)
      (hp : c.phase = .calling ∨ c.phase = .permitted) (hrx : e.mailbox.rxAlive = true)
      (hq : SameQueue (e.mailbox.push (c.request.command k)) q) :
      Effect e (.send k) ({ e with mailbox := q }.setPhase k (.waiting .pending))
  | start (h : e.task = .starting) :
      Effect e .start { e with task := .idle, log := e.log ++ [.started] }
  | recv (cmd : Command ι) (q : Mpsc (Command ι)) (h : e.task = .idle)
      (hq : e.mailbox.recv = some (cmd, q)) :
      Effect e .recv
        { e with mailbox := q, task := .running cmd, log := e.log ++ [.began cmd] }
  | leave (h : e.task = .idle) : Effect e .recv { e with task := .stopped }
  | reply (cmd : Command ι) (a : Answer ο σ) (h : e.task = .running cmd)
      (hfits : cmd.Fits a = true) :
      Effect e (.reply a)
        { e with
          task := if cmd.isStop then .stopped else .idle
          calls := e.calls.modify cmd.reply fun c => c.answer a
          log := e.log ++ [.ended cmd a] }
  | finish (a : Action ι ο σ) (h : Ends e a) : Effect e a e.finish
  | abort : Effect e .abort { e with aborted := true }
  | release : Effect e .release { e with handles := false }

variable {e e' : Executor ι ο σ} {a : Action ι ο σ}

theorem effect_pollSend {k : ℕ} {c : Call ι ο σ} (hc : e.calls[k]? = some c)
    (h : e.pollSend k c = some e') : Effect e (.send k) e' := by
  unfold pollSend at h
  -- the first poll tries to send; the later ones wait for room
  split at h
  · rename_i name input hr hp
    cases h
    unfold trySend
    split
    · rename_i q hq
      have hroom := Mpsc.room_of_trySend_ok hq
      rw [Mpsc.trySend_ok hq]
      exact .push k c _ hc (.inl hp) hroom.1 (.refl _)
    · exact .move _ k c _ e.mailbox hc (.busy name input hr hp) (.refl _)
    · rename_i hq
      exact .move _ k c _ e.mailbox hc (.terminated (.inl hp) (Mpsc.rxAlive_of_closed hq)) (.refl _)
  · rename_i hp _
    split at h
    · cases h
    · rename_i hrx
      cases h
      exact .move _ k c _ e.mailbox hc (.terminated (.inl hp) (by simpa using hrx)) (.refl _)
  · rename_i hp
    cases h
    unfold send
    split
    · -- the permit is given back when the mailbox has closed
      rename_i hrx
      exact .push k c _ hc (.inr hp) hrx ⟨rfl, rfl, rfl⟩
    · rename_i hrx
      exact .move _ k c _ e.mailbox.release hc (.terminated (.inr hp) (by simpa using hrx))
        ⟨rfl, rfl, rfl⟩
  · cases h

theorem effect_reserve {k : ℕ} {c : Call ι ο σ} (hc : e.calls[k]? = some c)
    (h : e.reserve k c = some e') : Effect e (.reserve k) e' := by
  unfold reserve at h
  split at h
  · cases h
  · rename_i hp _
    split at h
    · obtain ⟨q, hq, rfl⟩ := Option.map_eq_some_iff.mp h
      rw [Mpsc.reserve_some hq]
      exact .move _ k c _ _ hc (.permitted hp) ⟨rfl, rfl, rfl⟩
    · cases h
  · cases h

theorem effect_receive {k : ℕ} {c : Call ι ο σ} (hc : e.calls[k]? = some c)
    (h : e.receive k c = some e') : Effect e (.receive k) e' := by
  unfold receive at h
  split at h
  · rename_i a hp
    cases h
    exact .move _ k c _ e.mailbox hc (.received a hp) (.refl _)
  · rename_i hp
    cases h
    exact .move _ k c _ e.mailbox hc (.droppedReply hp) (.refl _)
  · cases h

theorem effect_timeout {k : ℕ} {c : Call ι ο σ} (hc : e.calls[k]? = some c)
    (h : e.timeout k c = some e') : Effect e (.timeout k) e' := by
  unfold timeout at h
  split at h
  · rename_i hr hp
    cases h
    exact .move _ k c _ e.mailbox hc (.timedOut hr hp) (.refl _)
  · cases h

theorem effect_abandon {k : ℕ} {c : Call ι ο σ} (hc : e.calls[k]? = some c)
    (h : e.abandon k c = some e') : Effect e (.abandon k) e' := by
  unfold abandon at h
  split at h
  · rename_i hp
    cases h
    exact .move _ k c _ e.mailbox hc (.abandoned (by simp [hp])) (.refl _)
  · rename_i slot hp
    cases h
    exact .move _ k c _ e.mailbox hc (.abandoned (by simp [hp])) (.refl _)
  · rename_i hp
    cases h
    exact .move _ k c _ e.mailbox.release hc (.abandoned (by simp [hp])) ⟨rfl, rfl, rfl⟩
  · cases h

theorem effect_recv (h : e.recv = some e') : Effect e .recv e' := by
  unfold recv at h
  split at h
  · rename_i cmd q htask hq
    cases h
    exact .recv cmd q htask hq
  · rename_i htask _
    split at h
    · cases h
    · cases h
      exact .leave htask
  · cases h

theorem effect_reply {ans : Answer ο σ} (h : e.reply ans = some e') :
    Effect e (.reply ans) e' := by
  unfold reply at h
  split at h
  · rename_i cmd htask
    split at h
    · rename_i hfits
      cases h
      exact .reply cmd ans htask hfits
    · cases h
  · cases h

theorem step_effect (h : e.step a = some e') : Effect e a e' := by
  -- the callers' steps by their own lemmas, the actor's by its task's phase
  cases a with
  | call r =>
    simp only [step] at h
    split at h
    · cases h; exact .call r
    · cases h
  | reserve k =>
    obtain ⟨c, hc, hstep⟩ := Option.bind_eq_some_iff.mp h
    exact effect_reserve hc hstep
  | send k =>
    obtain ⟨c, hc, hstep⟩ := Option.bind_eq_some_iff.mp h
    exact effect_pollSend hc hstep
  | receive k =>
    obtain ⟨c, hc, hstep⟩ := Option.bind_eq_some_iff.mp h
    exact effect_receive hc hstep
  | timeout k =>
    obtain ⟨c, hc, hstep⟩ := Option.bind_eq_some_iff.mp h
    exact effect_timeout hc hstep
  | abandon k =>
    obtain ⟨c, hc, hstep⟩ := Option.bind_eq_some_iff.mp h
    exact effect_abandon hc hstep
  | start =>
    simp only [step, start] at h
    split at h
    · rename_i htask; cases h; exact .start htask
    · cases h
  | recv => exact effect_recv h
  | reply ans => exact effect_reply h
  | finish =>
    -- a panic ends the task while it starts, or while it runs a command
    simp only [step] at h
    split at h
    · rename_i htask
      cases h
      refine .finish _ (.finish ?_)
      cases ht : e.task <;> simp_all
    · cases h
  | panic =>
    simp only [step] at h
    split at h
    · rename_i htask; cases h; exact .finish _ (.panic (.inl htask))
    · rename_i cmd htask; cases h; exact .finish _ (.panic (.inr ⟨cmd, htask⟩))
    · cases h
  | abort => cases h; exact .abort
  | cancel =>
    simp only [step] at h
    split at h
    · cases h
    · rename_i htask
      split at h
      · rename_i hab; cases h; exact .finish _ (.cancel (by simpa using htask) hab)
      · cases h
  | release =>
    simp only [step] at h
    split at h
    · cases h; exact .release
    · cases h

/-! ### What the actor did -/

/-- The records of handlers that ran one after the other. -/
def handled (done : List (Command ι × Answer ο σ)) : List (Record ι ο σ) :=
  done.flatMap fun d => [.began d.1, .ended d.1 d.2]

/-- `on_start` ran first, then the handlers of `done` one after the other, then that of `cur` began;
these are the commands the task has taken, and a stop was the last of them. -/
structure Traced (e : Executor ι ο σ) (done : List (Command ι × Answer ο σ))
    (cur : Option (Command ι)) : Prop where
  log : e.log = [] ∧ done = [] ∧ cur = none ∨
    e.log = .started :: (handled done ++ cur.toList.map .began)
  received : e.mailbox.received = done.map Prod.fst ++ cur.toList
  fits : ∀ d ∈ done, d.1.Fits d.2 = true
  stops : ∀ c ∈ e.mailbox.received.dropLast, c.isStop = false
  starting : e.task = .starting → e.log = []
  idle : e.task = .idle → cur = none ∧ e.log ≠ [] ∧ ∀ c ∈ e.mailbox.received, c.isStop = false
  running : ∀ cmd, e.task = .running cmd → cur = some cmd
  stopped : e.task = .stopped → cur = none ∧ e.log ≠ []

/-- The receiver lives as long as the task. -/
def Alive (e : Executor ι ο σ) : Prop := e.mailbox.rxAlive = true ↔ e.task ≠ .ended

variable {done : List (Command ι × Answer ο σ)} {cur : Option (Command ι)}

theorem alive_spawn (capacity : ℕ) : (spawn ι ο σ capacity).Alive := by
  simp [Alive, spawn]

theorem traced_spawn (capacity : ℕ) : (spawn ι ο σ capacity).Traced [] none where
  log := .inl ⟨rfl, rfl, rfl⟩
  received := rfl
  fits := by simp
  stops := by simp [spawn]
  starting _ := rfl
  idle h := by cases h
  running _ h := by cases h
  stopped h := by cases h

/-- Every step keeps the receiver alive as long as the task. -/
theorem Alive.step (h : e.Alive) (heff : Effect e a e') : e'.Alive := by
  unfold Alive at h ⊢
  cases heff with
  | call r => exact h
  | move _ k c p q hc hp hq => exact (by rw [← hq.rxAlive] at h; exact h)
  | push k c q hc hp hrx hq =>
    have hq' : q.rxAlive = e.mailbox.rxAlive := hq.rxAlive
    exact (by rw [← hq'] at h; exact h)
  | start htask => simpa [htask] using h
  | recv cmd q htask hq =>
    have hq' := (Mpsc.recv_some hq).2.2
    simpa [htask, hq'] using h
  | leave htask => simpa [htask] using h
  | reply cmd ans htask hfits =>
    have hrx : e.mailbox.rxAlive = true := h.mpr (by simp [htask])
    simp only [hrx, true_iff]
    split <;> simp
  | finish _ hend => simp [finish, Mpsc.dropRx]
  | abort => exact h
  | release => exact h

/-- The records depend on what the task took and did only. -/
theorem Traced.congr (h : e.Traced done cur) (hlog : e'.log = e.log)
    (hrec : e'.mailbox.received = e.mailbox.received) (htask : e'.task = e.task) :
    e'.Traced done cur where
  log := by rw [hlog]; exact h.log
  received := by rw [hrec]; exact h.received
  fits := h.fits
  stops := by rw [hrec]; exact h.stops
  starting := by rw [htask, hlog]; exact h.starting
  idle := by rw [htask, hlog, hrec]; exact h.idle
  running := by rw [htask]; exact h.running
  stopped := by rw [htask, hlog]; exact h.stopped

/-- The start of the task is the first thing in its log. -/
theorem Traced.start (h : e.Traced done cur) (htask : e.task = .starting) :
    ({ e with task := .idle, log := e.log ++ [.started] } : Executor ι ο σ).Traced [] none := by
  have hlog := h.starting htask
  have hnil : done = [] ∧ cur = none := by
    obtain ⟨-, hd, hc⟩ | hlog' := h.log
    · exact ⟨hd, hc⟩
    · rw [hlog] at hlog'; cases hlog'
  have hrec : e.mailbox.received = [] := by rw [h.received, hnil.1, hnil.2]; rfl
  exact {
    log := .inr (by simp [hlog, handled])
    received := by simp [hrec]
    fits := by simp
    stops := by simp [hrec]
    starting := by simp
    idle := by simp [hrec]
    running := by simp
    stopped := by simp }

/-- A command received is the one under way. -/
theorem Traced.recv {cmd : Command ι} {q : Mpsc (Command ι)} (h : e.Traced done cur)
    (htask : e.task = .idle) (hq : e.mailbox.recv = some (cmd, q)) :
    ({ e with mailbox := q, task := .running cmd, log := e.log ++ [.began cmd] } :
      Executor ι ο σ).Traced done (some cmd) := by
  -- an idle task has handled every command it received
  obtain ⟨rfl, hne, hidle⟩ := h.idle htask
  have hrec : q.received = e.mailbox.received ++ [cmd] := (Mpsc.recv_some hq).2.1
  have hlog : e.log = .started :: handled done := by
    obtain ⟨hnil, -⟩ | hlog := h.log
    · exact absurd hnil hne
    · simpa using hlog
  exact {
    log := .inr (by simp [hlog])
    received := by
      have := h.received
      simp only [Option.toList_none, List.append_nil] at this
      simp [hrec, this]
    -- only the last command can be a stop
    fits := h.fits
    stops := by
      intro c hc
      have hc' : c ∈ (e.mailbox.received ++ [cmd]).dropLast := by simpa [hrec] using hc
      rw [List.dropLast_concat] at hc'
      exact hidle c hc'
    starting := by simp
    idle := by simp
    running := by simp
    stopped := by simp }

theorem Traced.leave (h : e.Traced done cur) (htask : e.task = .idle) :
    ({ e with task := .stopped } : Executor ι ο σ).Traced done cur := by
  obtain ⟨hcur, hne, -⟩ := h.idle htask
  exact { h with
    starting := by simp
    idle := by simp
    running := by simp
    stopped := fun _ => ⟨hcur, hne⟩ }

/-- An answer ends the command under way. -/
theorem Traced.reply {cmd : Command ι} {ans : Answer ο σ} {calls : List (Call ι ο σ)}
    (h : e.Traced done cur) (htask : e.task = .running cmd) (hfits : cmd.Fits ans = true) :
    ({ e with
      task := if cmd.isStop then .stopped else .idle
      calls := calls
      log := e.log ++ [.ended cmd ans] } : Executor ι ο σ).Traced (done ++ [(cmd, ans)]) none := by
  -- the command that was running is the one answered now
  have hcur := h.running cmd htask
  subst hcur
  have hlog : e.log = .started :: (handled done ++ [.began cmd]) := by
    obtain ⟨-, -, hnone⟩ | hlog := h.log
    · cases hnone
    · simpa using hlog
  have hrec : e.mailbox.received = done.map Prod.fst ++ [cmd] := by simpa using h.received
  exact {
    log := .inr (by simp [hlog, handled])
    received := by simp [hrec]
    fits := by
      intro d hd
      rcases List.mem_append.mp hd with hd | hd
      · exact h.fits d hd
      · rw [List.mem_singleton.mp hd]; exact hfits
    stops := h.stops
    -- after a stop the task stops, after any other it waits again
    starting := by
      intro hst
      cases hb : cmd.isStop <;> simp [hb] at hst
    idle := by
      intro hidle
      have hb : cmd.isStop = false := by
        cases hb : cmd.isStop
        · rfl
        · simp [hb] at hidle
      refine ⟨rfl, by simp, ?_⟩
      intro c hc
      have hstops := h.stops
      simp only [hrec, List.dropLast_concat] at hstops
      rcases List.mem_append.mp (hrec ▸ hc) with hc | hc
      · exact hstops c hc
      · rw [List.mem_singleton.mp hc]; exact hb
    running := by
      intro cmd' hrun
      cases hb : cmd.isStop <;> simp [hb] at hrun
    stopped := fun _ => ⟨rfl, by simp⟩ }

theorem Traced.finish (h : e.Traced done cur) : e.finish.Traced done cur where
  log := h.log
  received := h.received
  fits := h.fits
  stops := h.stops
  starting := by simp [Executor.finish]
  idle := by simp [Executor.finish]
  running := by simp [Executor.finish]
  stopped := by simp [Executor.finish]

/-- Every step keeps the log a trace of commands begun and ended. -/
theorem Traced.step (h : e.Traced done cur) (heff : Effect e a e') :
    ∃ done cur, e'.Traced done cur := by
  cases heff with
  | call r => exact ⟨done, cur, h.congr rfl rfl rfl⟩
  | move _ k c p q hc hp hq => exact ⟨done, cur, h.congr rfl hq.received rfl⟩
  | push k c q hc hp hrx hq => exact ⟨done, cur, h.congr rfl hq.received rfl⟩
  | start htask => exact ⟨_, _, h.start htask⟩
  | recv cmd q htask hq => exact ⟨_, _, h.recv htask hq⟩
  | leave htask => exact ⟨_, _, h.leave htask⟩
  | reply cmd ans htask hfits => exact ⟨_, _, h.reply htask hfits⟩
  | finish _ hend => exact ⟨_, _, h.finish⟩
  | abort => exact ⟨done, cur, h.congr rfl rfl rfl⟩
  | release => exact ⟨done, cur, h.congr rfl rfl rfl⟩

/-- The answers in the records are those of `done`. -/
theorem Traced.ended_iff (h : e.Traced done cur) {cmd : Command ι} {ans : Answer ο σ} :
    Record.ended cmd ans ∈ e.log ↔ (cmd, ans) ∈ done := by
  obtain ⟨hlog, rfl, rfl⟩ | hlog := h.log
  · simp [hlog]
  · simp [hlog, handled, Prod.exists]

theorem began?_handled (done : List (Command ι × Answer ο σ)) :
    (handled done).filterMap Record.began? = done.map Prod.fst := by
  induction done with
  | nil => rfl
  | cons d done ih =>
    rw [handled, List.flatMap_cons, List.filterMap_append, ← handled, ih]
    simp [Record.began?]

/-- The handlers began in the order in which the task took the commands. -/
theorem Traced.ran_eq (h : e.Traced done cur) : e.ran = e.mailbox.received := by
  rw [ran, h.received]
  obtain ⟨hlog, rfl, rfl⟩ | hlog := h.log
  · simp [hlog]
  · rw [hlog, List.filterMap_cons_none rfl, List.filterMap_append, began?_handled]
    cases cur <;> simp [Record.began?]

/-! ### Calls and their commands -/

@[simp] theorem reply_command (r : Request ι) (k : ℕ) : (r.command k).reply = k := by
  cases r <;> rfl

@[simp] theorem getElem?_setPhase (e : Executor ι ο σ) (k j : ℕ) (p : Phase ο σ) :
    (e.setPhase k p).calls[j]? =
      if k = j then e.calls[j]?.map fun c => { c with phase := p } else e.calls[j]? := by
  rw [setPhase, List.getElem?_modify]
  split <;> simp

/-- The command of the call is out. -/
def Call.Sent (c : Call ι ο σ) : Prop :=
  (∃ slot, c.phase = .waiting slot) ∨ (∃ ans, c.phase = .returned ans) ∨ c.phase = .abandoned

theorem Call.Sent.answer {c : Call ι ο σ} (h : c.Sent) (ans : Answer ο σ) : (c.answer ans).Sent := by
  unfold Call.answer
  split
  · exact .inl ⟨_, rfl⟩
  · exact h

theorem Call.Sent.dropSender {c : Call ι ο σ} (h : c.Sent) : c.dropSender.Sent := by
  unfold Call.dropSender
  split
  · exact .inl ⟨_, rfl⟩
  · exact h

@[simp] theorem Call.request_answer (c : Call ι ο σ) (ans : Answer ο σ) :
    (c.answer ans).request = c.request := by
  unfold Call.answer; split <;> rfl

@[simp] theorem Call.request_dropSender (c : Call ι ο σ) : c.dropSender.request = c.request := by
  unfold Call.dropSender; split <;> rfl

/-- Every command that was put into the mailbox is that of a call that has sent it, and of no
other. -/
structure Owned (e : Executor ι ο σ) : Prop where
  sent : ∀ cmd ∈ e.mailbox.enqueued,
    ∃ c, e.calls[cmd.reply]? = some c ∧ c.request.command cmd.reply = cmd ∧ c.Sent
  nodup : (e.mailbox.enqueued.map Command.reply).Nodup

/-- Call `k` went on to a state in which what was sent stays sent. -/
def Follows (c c' : Call ι ο σ) : Prop := c'.request = c.request ∧ (c.Sent → c'.Sent)

theorem Moves.sent {k : ℕ} {c : Call ι ο σ} {p : Phase ο σ} (h : Moves e k c a p) (hs : c.Sent) :
    ({ c with phase := p } : Call ι ο σ).Sent := by
  cases h with
  | permitted hp => simp [Call.Sent, hp] at hs
  | abandoned hp => exact .inr (.inr rfl)
  | _ => exact .inr (.inl ⟨_, rfl⟩)

/-- No step loses a call or unsends its command. -/
theorem follows_of_effect (heff : Effect e a e') {k : ℕ} {c : Call ι ο σ}
    (hc : e.calls[k]? = some c) : ∃ c', e'.calls[k]? = some c' ∧ Follows c c' := by
  have hlt : k < e.calls.length := (List.getElem?_eq_some_iff.mp hc).1
  -- a call's own step moves its phase; any other leaves it as it is
  cases heff with
  | call r =>
    refine ⟨c, ?_, rfl, id⟩
    rw [call, List.getElem?_append_left hlt, hc]
  | move _ j cj p q hj hp hq =>
    by_cases hjk : j = k
    · subst hjk
      obtain rfl : cj = c := Option.some.inj (hj.symm.trans hc)
      exact ⟨{ cj with phase := p }, by simp [hc], rfl, fun hs => hp.sent hs⟩
    · exact ⟨c, by simp [hjk, hc], rfl, id⟩
  | push j cj q hj hp hrx hq =>
    by_cases hjk : j = k
    · subst hjk
      exact ⟨{ c with phase := .waiting .pending }, by simp [hc], rfl, fun _ => .inl ⟨_, rfl⟩⟩
    · exact ⟨c, by simp [hjk, hc], rfl, id⟩
  | reply cmd ans htask hfits =>
    by_cases hk : cmd.reply = k
    · exact ⟨c.answer ans, by simp [hk, hc], by simp, fun hs => hs.answer ans⟩
    · exact ⟨c, by simp [hk, hc], rfl, id⟩
  | finish _ hend =>
    by_cases hk : k ∈ e.held.map Command.reply
    · refine ⟨c.dropSender, ?_, by simp, fun hs => hs.dropSender⟩
      rw [finish, List.getElem?_mapIdx, hc, Option.map_some, if_pos hk]
    · refine ⟨c, ?_, rfl, id⟩
      rw [finish, List.getElem?_mapIdx, hc, Option.map_some, if_neg hk]
  | _ => exact ⟨c, hc, rfl, id⟩

theorem Owned.of_enqueued_eq (h : e.Owned) (heff : Effect e a e')
    (henq : e'.mailbox.enqueued = e.mailbox.enqueued) : e'.Owned where
  sent := by
    intro cmd hcmd
    obtain ⟨c, hc, hreq, hsent⟩ := h.sent cmd (henq ▸ hcmd)
    obtain ⟨c', hc', hr, hs⟩ := follows_of_effect heff hc
    exact ⟨c', hc', by rw [hr, hreq], hs hsent⟩
  nodup := by rw [henq]; exact h.nodup

theorem SameQueue.enqueued {q q' : Mpsc (Command ι)} (h : SameQueue q q') :
    q'.enqueued = q.enqueued := by
  rw [Mpsc.enqueued, Mpsc.enqueued, h.received, h.buf]

/-- A call that has not sent its command yet. -/
theorem Owned.not_mem_of_unsent (h : e.Owned) {k : ℕ} {c : Call ι ο σ}
    (hc : e.calls[k]? = some c) (hp : c.phase = .calling ∨ c.phase = .permitted) :
    k ∉ e.mailbox.enqueued.map Command.reply := by
  intro hmem
  obtain ⟨cmd, hcmd, hk⟩ := List.mem_map.mp hmem
  obtain ⟨c', hc', -, hsent⟩ := h.sent cmd hcmd
  obtain rfl : c' = c := by
    rw [hk, hc] at hc'
    exact (Option.some.inj hc').symm
  unfold Call.Sent at hsent
  rcases hp with hp | hp <;> simp [hp] at hsent

/-- A command pushed to the mailbox is owned by its call. -/
theorem Owned.push {k : ℕ} {c : Call ι ο σ} {q : Mpsc (Command ι)} (h : e.Owned)
    (heff : Effect e a ({ e with mailbox := q }.setPhase k (.waiting .pending)))
    (hc : e.calls[k]? = some c) (hp : c.phase = .calling ∨ c.phase = .permitted)
    (hq : SameQueue (e.mailbox.push (c.request.command k)) q) :
    ({ e with mailbox := q }.setPhase k (.waiting .pending)).Owned := by
  have henq : q.enqueued = e.mailbox.enqueued ++ [c.request.command k] := by
    rw [hq.enqueued, Mpsc.enqueued_push]
  refine ⟨?_, ?_⟩
  · intro cmd hcmd
    have hcmd' : cmd ∈ e.mailbox.enqueued ++ [c.request.command k] := henq ▸ hcmd
    -- the commands before keep their callers; the new one is the call's own
    rcases List.mem_append.mp hcmd' with hold | hnew
    · obtain ⟨c', hc', hreq, hsent⟩ := h.sent cmd hold
      obtain ⟨c'', hc'', hr, hs⟩ := follows_of_effect heff hc'
      exact ⟨c'', hc'', by rw [hr, hreq], hs hsent⟩
    · rw [List.mem_singleton.mp hnew]
      exact ⟨{ c with phase := .waiting .pending }, by simp [hc], by simp, .inl ⟨_, rfl⟩⟩
  · -- a call sends once, so no two commands reply to one call
    show (q.enqueued.map Command.reply).Nodup
    rw [henq, List.map_append, List.nodup_append]
    refine ⟨h.nodup, by simp, ?_⟩
    intro x hx y hy
    have hy' : y = k := by simpa using hy
    subst hy'
    rintro rfl
    exact h.not_mem_of_unsent hc hp hx

theorem Owned.step (h : e.Owned) (heff : Effect e a e') : e'.Owned := by
  have heff' := heff
  cases heff with
  | call r => exact h.of_enqueued_eq heff' rfl
  | move _ k c p q hc hp hq => exact h.of_enqueued_eq heff' hq.enqueued
  | push k c q hc hp hrx hq => exact h.push heff' hc hp hq
  | recv cmd q htask hq => exact h.of_enqueued_eq heff' (Mpsc.enqueued_recv hq)
  | finish _ hend => exact h.of_enqueued_eq heff' (Mpsc.enqueued_dropRx e.mailbox)
  | _ => exact h.of_enqueued_eq heff' rfl

theorem owned_spawn (capacity : ℕ) : (spawn ι ο σ capacity).Owned where
  sent := by simp [spawn, Mpsc.enqueued]
  nodup := by simp [spawn, Mpsc.enqueued]

/-! ### Calls and their answers -/

/-- The task is gone and never answered the command. -/
def Lost (e : Executor ι ο σ) (cmd : Command ι) : Prop :=
  e.task = .ended ∧ cmd ∈ e.mailbox.enqueued ∧ ∀ ans, Record.ended cmd ans ∉ e.log

/-- Where the answer of call `k` comes from. -/
inductive Returned (e : Executor ι ο σ) (k : ℕ) (c : Call ι ο σ) (ans : Answer ο σ) : Prop
  /-- From the handler of its command. -/
  | own (h : Record.ended (c.request.command k) ans ∈ e.log)
  /-- The command was not sent. -/
  | refused (h : k ∉ e.mailbox.enqueued.map Command.reply)
      (ha : ans = c.request.terminated ∨
        (∃ name input, c.request = .tryTransition name input) ∧ ans = .transition (.error .busy))
  | lost (h : e.Lost (c.request.command k)) (ha : ans = c.request.droppedReply)
  | unacknowledged (hr : c.request = .shutdown) (ha : ans = .shutdown false)

/-- What the phase of call `k` says about its command. -/
def CallOk (e : Executor ι ο σ) (k : ℕ) (c : Call ι ο σ) : Prop :=
  match c.phase with
  | .calling | .permitted | .abandoned => True
  | .waiting .pending => c.request.command k ∈ e.held ∧ e.task ≠ .ended
  | .waiting (.sent ans) => Record.ended (c.request.command k) ans ∈ e.log
  | .waiting .dropped => e.Lost (c.request.command k)
  | .returned ans => e.Returned k c ans

def Answered (e : Executor ι ο σ) : Prop := ∀ k c, e.calls[k]? = some c → e.CallOk k c

/-- What a step does to call `k` when it leaves the call alone. -/
structure Later (e e' : Executor ι ο σ) (k : ℕ) : Prop where
  log : ∀ r ∈ e.log, r ∈ e'.log
  unsent : k ∉ e.mailbox.enqueued.map Command.reply → k ∉ e'.mailbox.enqueued.map Command.reply
  held : ∀ cmd ∈ e.held, cmd.reply = k → e.task ≠ .ended → cmd ∈ e'.held ∧ e'.task ≠ .ended
  ended : e.task = .ended →
    e'.task = .ended ∧ e'.log = e.log ∧ e'.mailbox.enqueued = e.mailbox.enqueued

theorem Lost.later {k : ℕ} {cmd : Command ι} (h : e.Lost cmd) (hl : Later e e' k) : e'.Lost cmd := by
  obtain ⟨htask, henq, hnot⟩ := h
  obtain ⟨htask', hlog, henq'⟩ := hl.ended htask
  exact ⟨htask', by rw [henq']; exact henq, by rw [hlog]; exact hnot⟩

theorem Returned.later {k : ℕ} {c : Call ι ο σ} {ans : Answer ο σ} (h : e.Returned k c ans)
    (hl : Later e e' k) : e'.Returned k c ans := by
  cases h with
  | own h => exact .own (hl.log _ h)
  | refused h ha => exact .refused (hl.unsent h) ha
  | lost h ha => exact .lost (h.later hl) ha
  | unacknowledged hr ha => exact .unacknowledged hr ha

theorem CallOk.later {k : ℕ} {c : Call ι ο σ} (h : e.CallOk k c) (hl : Later e e' k) :
    e'.CallOk k c := by
  unfold CallOk at h ⊢
  split at h
  · trivial
  · trivial
  · trivial
  · exact hl.held _ h.1 (reply_command _ _) h.2
  · exact hl.log _ h
  · exact h.later hl
  · exact h.later hl

/-- A step that leaves the mailbox, the task and the records alone. -/
theorem Later.of_same {k : ℕ} (hq : SameQueue e.mailbox e'.mailbox) (htask : e'.task = e.task)
    (hlog : e'.log = e.log) : Later e e' k where
  log := by rw [hlog]; exact fun _ => id
  unsent := by rw [hq.enqueued]; exact id
  held := by
    intro cmd hcmd _ hne
    have hheld : e'.held = e.held := by rw [Executor.held, Executor.held, htask, hq.buf]
    exact ⟨hheld ▸ hcmd, htask ▸ hne⟩
  ended h := ⟨htask ▸ h, hlog, hq.enqueued⟩

/-- A step of the task. -/
theorem Later.of_task {k : ℕ} (henq : e'.mailbox.enqueued = e.mailbox.enqueued)
    (hne : e.task ≠ .ended) (hne' : e'.task ≠ .ended) (hlog : e.log <+: e'.log)
    (hheld : ∀ cmd ∈ e.held, cmd.reply = k → cmd ∈ e'.held) : Later e e' k where
  log := hlog.subset
  unsent := by rw [henq]; exact id
  held cmd hcmd hk _ := ⟨hheld cmd hcmd hk, hne'⟩
  ended h := absurd h hne

/-- A call that moves by itself stays as its phase says. -/
theorem CallOk.move {k : ℕ} {c : Call ι ο σ} {p : Phase ο σ} (h : e.CallOk k c) (ho : e.Owned)
    (hc : e.calls[k]? = some c) (hp : Moves e k c a p) :
    e.CallOk k { c with phase := p } := by
  cases hp with
  | permitted _ => trivial
  | terminated hp _ => exact .refused (ho.not_mem_of_unsent hc hp) (.inl rfl)
  | busy name input hr hp =>
    exact .refused (ho.not_mem_of_unsent hc (.inl hp)) (.inr ⟨⟨name, input, hr⟩, rfl⟩)
  | received ans hp =>
    simp only [CallOk, hp] at h
    exact .own h
  | droppedReply hp =>
    simp only [CallOk, hp] at h
    exact .lost h rfl
  | timedOut hr _ => exact .unacknowledged hr rfl
  | abandoned _ => trivial

theorem CallOk.congr {k : ℕ} {c : Call ι ο σ} (h : e.CallOk k c)
    (hq : SameQueue e.mailbox e'.mailbox) (htask : e'.task = e.task) (hlog : e'.log = e.log) :
    e'.CallOk k c :=
  h.later (.of_same hq htask hlog)

theorem mem_enqueued_of_mem_buf {q : Mpsc (Command ι)} {cmd : Command ι} (h : cmd ∈ q.buf) :
    cmd ∈ q.enqueued :=
  List.mem_append_right _ h

/-- A command the task holds was taken last or not yet, so that no handler has answered it. -/
theorem not_ended_of_held (ht : e.Traced done cur) (ho : e.Owned) {cmd : Command ι}
    (h : cmd ∈ e.held) : cmd ∈ e.mailbox.enqueued ∧ ∀ ans, Record.ended cmd ans ∉ e.log := by
  -- no command is queued twice, so what is held was not handled
  have hnodup : (e.mailbox.received ++ e.mailbox.buf).Nodup :=
    List.Nodup.of_map _ ho.nodup
  have hbuf : ∀ cmd ∈ e.mailbox.buf,
      cmd ∈ e.mailbox.enqueued ∧ ∀ ans, Record.ended cmd ans ∉ e.log := by
    intro cmd hcmd
    refine ⟨mem_enqueued_of_mem_buf hcmd, fun ans hend => ?_⟩
    have hdone : cmd ∈ e.mailbox.received := by
      rw [ht.received]
      exact List.mem_append_left _ (List.mem_map.mpr ⟨_, ht.ended_iff.mp hend, rfl⟩)
    exact (List.nodup_append.mp hnodup).2.2 cmd hdone cmd hcmd rfl
  cases htask : e.task with
  | running run =>
    simp only [held, htask, List.mem_cons] at h
    rcases h with rfl | h
    · have hcur := ht.running cmd htask
      have hrec : e.mailbox.received = done.map Prod.fst ++ [cmd] := by
        rw [ht.received, hcur]; rfl
      refine ⟨List.mem_append_left _ (by simp [hrec]), fun ans hend => ?_⟩
      have hmem : cmd ∈ done.map Prod.fst := List.mem_map.mpr ⟨_, ht.ended_iff.mp hend, rfl⟩
      have hrnodup := (List.nodup_append.mp hnodup).1
      rw [hrec] at hrnodup
      exact (List.nodup_append.mp hrnodup).2.2 cmd hmem cmd (by simp) rfl
    · exact hbuf cmd h
  | _ =>
    simp only [held, htask] at h
    exact hbuf cmd h

/-- A call answered has the answer that the log has for it. -/
theorem CallOk.reply {k : ℕ} {c : Call ι ο σ} {cmd : Command ι} {ans : Answer ο σ}
    (h : e.CallOk k c) (htask : e.task = .running cmd) (hcmd : c.request.command k = cmd)
    (hlog : ∀ r ∈ e.log, r ∈ e'.log) (hend : Record.ended cmd ans ∈ e'.log)
    (hunsent : k ∉ e.mailbox.enqueued.map Command.reply →
      k ∉ e'.mailbox.enqueued.map Command.reply) : e'.CallOk k (c.answer ans) := by
  -- the task runs, so nothing is lost
  have hlost : ∀ cmd, ¬ e.Lost cmd := by
    rintro cmd ⟨hended, -⟩
    rw [htask] at hended
    cases hended
  unfold Call.answer
  -- the slot that waits is filled; any other phase takes no answer
  split
  · rename_i slot hp
    simp only [CallOk, hp] at h ⊢
    cases slot with
    | pending => rw [← hcmd] at hend; exact hend
    | sent ans' => exact hlog _ h
    | dropped => exact absurd h (hlost _)
  · unfold CallOk at h ⊢
    split at h
    · trivial
    · trivial
    · trivial
    · rename_i hp; simp_all
    · rename_i hp; simp_all
    · rename_i hp; simp_all
    · cases h with
      | own h => exact .own (hlog _ h)
      | refused h ha => exact .refused (hunsent h) ha
      | lost h ha => exact absurd h (hlost _)
      | unacknowledged hr ha => exact .unacknowledged hr ha

/-- A call whose task has ended has lost its command or was answered before. -/
theorem CallOk.finish {k : ℕ} {c : Call ι ο σ} (h : e.CallOk k c) (hne : e.task ≠ .ended)
    (hlost : c.request.command k ∈ e.held → e.finish.Lost (c.request.command k)) :
    e.finish.CallOk k (if k ∈ e.held.map Command.reply then c.dropSender else c) := by
  -- what came back before the end still holds
  have hreturned : ∀ ans, e.Returned k c ans → e.finish.Returned k c ans := by
    intro ans h
    cases h with
    | own h => exact .own h
    | refused h ha => exact .refused h ha
    | lost h ha => exact absurd h.1 hne
    | unacknowledged hr ha => exact .unacknowledged hr ha
  cases hp : c.phase with
  | calling => split <;> simp [CallOk, Call.dropSender, hp]
  | permitted => split <;> simp [CallOk, Call.dropSender, hp]
  | abandoned => split <;> simp [CallOk, Call.dropSender, hp]
  | returned ans =>
    have hret : e.Returned k c ans := by simpa only [CallOk, hp] using h
    have hok : e.finish.CallOk k c := by simpa only [CallOk, hp] using hreturned ans hret
    split
    · simpa only [Call.dropSender, hp] using hok
    · exact hok
  | waiting slot =>
    -- a pending slot is dropped with the sender that is held
    cases slot with
    | pending =>
      simp only [CallOk, hp] at h
      have hmem : k ∈ e.held.map Command.reply :=
        List.mem_map.mpr ⟨_, h.1, reply_command _ _⟩
      rw [if_pos hmem]
      simpa only [CallOk, Call.dropSender, hp, Oneshot.dropSender] using hlost h.1
    | sent ans =>
      simp only [CallOk, hp] at h
      split
      · simp only [CallOk, Call.dropSender, hp, Oneshot.dropSender]
        exact h
      · simp only [CallOk, hp]
        exact h
    | dropped =>
      simp only [CallOk, hp] at h
      exact absurd h.1 hne

theorem ne_ended_of_ends (h : Ends e a) : e.task ≠ .ended := by
  cases h with
  | finish h => simp [h]
  | panic h =>
    rcases h with h | ⟨cmd, h⟩
    · simp [h]
    · simp [h]
  | cancel h _ => exact h

theorem held_recv {cmd : Command ι} {q : Mpsc (Command ι)} (htask : e.task = .idle)
    (hq : e.mailbox.recv = some (cmd, q)) : e.held = cmd :: q.buf := by
  rw [held, htask]
  exact (Mpsc.recv_some hq).1

/-- A command pushed leaves every call with its answer or its place in the queue. -/
theorem Answered.push {k : ℕ} {c : Call ι ο σ} {q : Mpsc (Command ι)} (h : e.Answered)
    (hal : e.Alive) (hc : e.calls[k]? = some c) (hrx : e.mailbox.rxAlive = true)
    (hq : SameQueue (e.mailbox.push (c.request.command k)) q) :
    ({ e with mailbox := q }.setPhase k (.waiting .pending)).Answered := by
  have hne : e.task ≠ .ended := hal.mp hrx
  -- what was held is held
  have hheld : ∀ cmd ∈ e.held, cmd ∈ ({ e with mailbox := q } : Executor ι ο σ).held := by
    intro cmd hcmd
    have hbuf : q.buf = e.mailbox.buf ++ [c.request.command k] := hq.buf
    cases htask : e.task with
    | running run =>
      simp only [held, htask, List.mem_cons, hbuf, List.mem_append] at hcmd ⊢
      tauto
    | _ =>
      simp only [held, htask, hbuf, List.mem_append] at hcmd ⊢
      exact .inl hcmd
  have hnew : c.request.command k ∈ ({ e with mailbox := q } : Executor ι ο σ).held := by
    have hbuf : q.buf = e.mailbox.buf ++ [c.request.command k] := hq.buf
    unfold held
    split <;> simp [hbuf]
  intro j cj hj
  -- the new command is in the mailbox, and the task has not ended
  by_cases hkj : k = j
  · subst hkj
    have hcj : cj = { c with phase := .waiting .pending } := by simpa [hc] using hj.symm
    subst hcj
    exact ⟨hnew, hne⟩
  · have hj' : e.calls[j]? = some cj := by simpa [hkj] using hj
    refine (h j cj hj').later ?_
    exact {
      log := fun _ => id
      unsent := by
        intro hnot hmem
        have henq : q.enqueued = e.mailbox.enqueued ++ [c.request.command k] := by
          rw [hq.enqueued, Mpsc.enqueued_push]
        have hmem' : j ∈ (e.mailbox.enqueued ++ [c.request.command k]).map Command.reply :=
          henq ▸ hmem
        rw [List.map_append, List.mem_append] at hmem'
        rcases hmem' with hmem' | hmem'
        · exact hnot hmem'
        · have hjk : j = k := by simpa using hmem'
          exact hkj hjk.symm
      held := fun cmd hcmd _ _ => ⟨hheld cmd hcmd, hne⟩
      ended := fun h => absurd h hne }

/-- An answer leaves every call with its answer or its place in the queue. -/
theorem Answered.reply {cmd : Command ι} {ans : Answer ο σ} (h : e.Answered) (ht : e.Traced done cur)
    (ho : e.Owned) (htask : e.task = .running cmd) :
    ({ e with
      task := if cmd.isStop then .stopped else .idle
      calls := e.calls.modify cmd.reply fun c => c.answer ans
      log := e.log ++ [.ended cmd ans] } : Executor ι ο σ).Answered := by
  intro j cj hj
  -- the call that is answered, or another one
  by_cases hkj : cmd.reply = j
  · have henq : cmd ∈ e.mailbox.enqueued := (not_ended_of_held ht ho (by simp [held, htask])).1
    obtain ⟨c, hc, hreq, -⟩ := ho.sent cmd henq
    subst hkj
    have hcj : cj = c.answer ans := by simpa [hc] using hj.symm
    rw [hcj]
    exact (h cmd.reply c hc).reply htask hreq (fun _ => List.mem_append_left _) (by simp) id
  · have hj' : e.calls[j]? = some cj := by simpa [hkj] using hj
    refine (h j cj hj').later (.of_task rfl (by simp [htask]) ?_ (List.prefix_append _ _) ?_)
    · show (if cmd.isStop then TaskPhase.stopped else TaskPhase.idle) ≠ .ended
      split <;> simp
    · intro cmd' hcmd' hrep
      have hne : cmd' ≠ cmd := by
        rintro rfl
        exact hkj hrep
      have hbuf : cmd' ∈ e.mailbox.buf := by
        simp only [held, htask, List.mem_cons] at hcmd'
        exact hcmd'.resolve_left hne
      cases hb : cmd.isStop <;> simpa [held, hb] using hbuf

/-- Every step leaves every call with its answer or its place in the queue. -/
theorem Answered.step (h : e.Answered) (hal : e.Alive) (ht : e.Traced done cur) (ho : e.Owned)
    (heff : Effect e a e') : e'.Answered := by
  -- the step is one of a call, or one of the task
  cases heff with
  | call r =>
    intro j cj hj
    have hsame : SameQueue e.mailbox (e.call r).mailbox := .refl _
    -- a call that was there, or the new one
    rcases Nat.lt_or_ge j e.calls.length with hlt | hge
    · rw [call, List.getElem?_append_left hlt] at hj
      exact (h j cj hj).congr hsame rfl rfl
    · rw [call, List.getElem?_append_right hge] at hj
      have hcj : cj = { request := r } := by
        have hmem : cj ∈ [({ request := r } : Call ι ο σ)] := List.mem_of_getElem? hj
        exact List.mem_singleton.mp hmem
      subst hcj
      trivial
  | move _ k c p q hc hp hq =>
    intro j cj hj
    by_cases hkj : k = j
    · subst hkj
      have hcj : cj = { c with phase := p } := by simpa [hc] using hj.symm
      rw [hcj]
      exact ((h k c hc).move ho hc hp).congr hq rfl rfl
    · have hj' : e.calls[j]? = some cj := by simpa [hkj] using hj
      exact (h j cj hj').congr hq rfl rfl
  | push k c q hc hp hrx hq => exact h.push hal hc hrx hq
  | start htask =>
    intro j cj hj
    refine (h j cj hj).later (.of_task rfl (by simp [htask]) (by simp) (List.prefix_append _ _) ?_)
    intro cmd hcmd _
    simpa [held, htask] using hcmd
  | recv cmd q htask hq =>
    intro j cj hj
    refine (h j cj hj).later (.of_task (Mpsc.enqueued_recv hq) (by simp [htask]) (by simp)
      (List.prefix_append _ _) ?_)
    intro cmd' hcmd' _
    rw [held_recv htask hq] at hcmd'
    exact hcmd'
  | leave htask =>
    intro j cj hj
    refine (h j cj hj).later (.of_task rfl (by simp [htask]) (by simp) (List.prefix_refl _) ?_)
    intro cmd hcmd _
    simpa [held, htask] using hcmd
  | reply cmd ans htask hfits => exact h.reply ht ho htask
  | finish _ hend =>
    intro j cj hj
    -- every call whose sender was held loses it
    rw [Executor.finish, List.getElem?_mapIdx] at hj
    obtain ⟨c, hc, rfl⟩ := Option.map_eq_some_iff.mp hj
    refine (h j c hc).finish (ne_ended_of_ends hend) fun hheld => ?_
    obtain ⟨henq, hnot⟩ := not_ended_of_held ht ho hheld
    exact ⟨rfl, henq, hnot⟩
  | abort => exact fun j cj hj => (h j cj hj).congr (.refl _) rfl rfl
  | release => exact fun j cj hj => (h j cj hj).congr (.refl _) rfl rfl

/-! ### All runs -/

/-- What holds in every run, whatever becomes of the task. -/
structure Sound (e : Executor ι ο σ) : Prop where
  alive : e.Alive
  owned : e.Owned
  answered : e.Answered
  traced : ∃ done cur, e.Traced done cur

theorem sound_spawn (capacity : ℕ) : (spawn ι ο σ capacity).Sound where
  alive := alive_spawn capacity
  owned := owned_spawn capacity
  answered := by intro k c hc; simp [spawn] at hc
  traced := ⟨[], none, traced_spawn capacity⟩

theorem Sound.step (h : e.Sound) (heff : Effect e a e') : e'.Sound := by
  obtain ⟨done, cur, ht⟩ := h.traced
  exact {
    alive := h.alive.step heff
    owned := h.owned.step heff
    answered := h.answered.step h.alive ht h.owned heff
    traced := ht.step heff }

/-- A handler answers a command once. -/
theorem Sound.ended_unique (h : e.Sound) {cmd : Command ι} {ans ans' : Answer ο σ}
    (hans : Record.ended cmd ans ∈ e.log) (hans' : Record.ended cmd ans' ∈ e.log) :
    ans = ans' := by
  obtain ⟨done, cur, ht⟩ := h.traced
  have hnodup : (done.map fun d => d.1.reply).Nodup := by
    have := h.owned.nodup
    rw [Mpsc.enqueued, ht.received, List.append_assoc, List.map_append, List.map_map] at this
    exact (List.nodup_append.mp this).1
  have hmem := ht.ended_iff.mp hans
  have hmem' := ht.ended_iff.mp hans'
  have hpair : (cmd, ans) = (cmd, ans') := List.inj_on_of_nodup_map hnodup hmem hmem' rfl
  exact (Prod.ext_iff.mp hpair).2

theorem Sound.mem_received_of_ended (h : e.Sound) {cmd : Command ι} {ans : Answer ο σ}
    (hans : Record.ended cmd ans ∈ e.log) : cmd ∈ e.mailbox.received := by
  obtain ⟨done, cur, ht⟩ := h.traced
  rw [ht.received]
  exact List.mem_append_left _ (List.mem_map.mpr ⟨_, ht.ended_iff.mp hans, rfl⟩)

/-- An answer fits its command. -/
theorem Sound.fits_of_ended (h : e.Sound) {cmd : Command ι} {ans : Answer ο σ}
    (hans : Record.ended cmd ans ∈ e.log) : cmd.Fits ans = true := by
  obtain ⟨done, cur, ht⟩ := h.traced
  exact ht.fits _ (ht.ended_iff.mp hans)

theorem mem_enqueued_of_mem_received {q : Mpsc (Command ι)} {cmd : Command ι}
    (h : cmd ∈ q.received) : cmd ∈ q.enqueued :=
  List.mem_append_left _ h

/-- A call whose command was answered has the answer, unless its caller has left. -/
theorem Sound.phase_of_ended (h : e.Sound) {k : ℕ} {c : Call ι ο σ} {ans : Answer ο σ}
    (hc : e.calls[k]? = some c) (hr : c.request ≠ .shutdown)
    (hans : Record.ended (c.request.command k) ans ∈ e.log) :
    c.phase = .waiting (.sent ans) ∨ c.phase = .returned ans ∨ c.phase = .abandoned := by
  -- the command went through the mailbox, so the call has sent
  obtain ⟨done, cur, ht⟩ := h.traced
  have henq : c.request.command k ∈ e.mailbox.enqueued :=
    mem_enqueued_of_mem_received (h.mem_received_of_ended hans)
  have hmem : k ∈ e.mailbox.enqueued.map Command.reply :=
    List.mem_map.mpr ⟨_, henq, reply_command _ _⟩
  -- what the call's phase says of the log leaves the three
  have hok := h.answered k c hc
  unfold CallOk at hok
  split at hok
  · rename_i hp; exact absurd hmem (h.owned.not_mem_of_unsent hc (.inl hp))
  · rename_i hp; exact absurd hmem (h.owned.not_mem_of_unsent hc (.inr hp))
  · rename_i hp; exact .inr (.inr hp)
  · exact absurd hans ((not_ended_of_held ht h.owned hok.1).2 ans)
  · rename_i ans' hp
    rw [h.ended_unique hans hok]
    exact .inl hp
  · exact absurd hans (hok.2.2 ans)
  · rename_i ans' hp
    cases hok with
    | own hans' =>
      rw [h.ended_unique hans hans']
      exact .inr (.inl hp)
    | refused hnot _ => exact absurd hmem hnot
    | lost hl _ => exact absurd hans (hl.2.2 ans)
    | unacknowledged hs _ => exact absurd hs hr

/-- What is none of the executor's own answers comes from the handler. -/
theorem Sound.ended_of_returned (h : e.Sound) {k : ℕ} {c : Call ι ο σ} {ans : Answer ο σ}
    (hc : e.calls[k]? = some c) (hp : c.phase = .returned ans)
    (hbusy : ans ≠ .transition (.error .busy)) (hterm : ans ≠ c.request.terminated)
    (hdrop : ans ≠ c.request.droppedReply) : .ended (c.request.command k) ans ∈ e.log := by
  have hok : e.Returned k c ans := by simpa only [CallOk, hp] using h.answered k c hc
  cases hok with
  | own hans => exact hans
  | refused _ ha =>
    rcases ha with ha | ⟨-, ha⟩
    · exact absurd ha hterm
    · exact absurd ha hbusy
  | lost _ ha => exact absurd ha hdrop
  | unacknowledged hr ha => exact absurd ha (by rw [hr] at hterm; exact hterm)

/-! ### Commands that never run -/

/-- The call has returned, or its caller has left. -/
def Call.Over (c : Call ι ο σ) : Prop := (∃ ans, c.phase = .returned ans) ∨ c.phase = .abandoned

/-- A call that is over does not change. -/
theorem over_of_effect (heff : Effect e a e') {k : ℕ} {c : Call ι ο σ}
    (hc : e.calls[k]? = some c) (hover : c.Over) : e'.calls[k]? = some c := by
  have hlt : k < e.calls.length := (List.getElem?_eq_some_iff.mp hc).1
  -- a call that is over waits for nothing
  have hwait : ∀ slot, c.phase ≠ .waiting slot := by
    intro slot hp
    rcases hover with ⟨ans, h⟩ | h
    · rw [h] at hp; cases hp
    · rw [h] at hp; cases hp
  -- so each step that could move it finds nothing to move
  cases heff with
  | call r => rw [call, List.getElem?_append_left hlt, hc]
  | move _ j cj p q hj hm hq =>
    by_cases hjk : j = k
    · subst hjk
      obtain rfl : cj = c := Option.some.inj (hj.symm.trans hc)
      have hsame : ({ cj with phase := p } : Call ι ο σ) = cj := by
        rcases hover with ⟨ans, h⟩ | h
        · cases hm with
          | abandoned hne => exact absurd h (hne ans)
          | _ => simp_all
        · cases hm with
          | abandoned _ => rw [← h]
          | _ => simp_all
      simp [hc, hsame]
    · simp [hjk, hc]
  | push j cj q hj hpj hrx hq =>
    have hjk : j ≠ k := by
      rintro rfl
      obtain rfl : cj = c := Option.some.inj (hj.symm.trans hc)
      rcases hover with ⟨ans, h⟩ | h <;> simp [h] at hpj
    simp [hjk, hc]
  | reply cmd ans' htask hfits =>
    have hans : c.answer ans' = c := by
      unfold Call.answer
      split
      · rename_i slot hp; exact absurd hp (hwait slot)
      · rfl
    rw [List.getElem?_modify, hc]
    split <;> simp [hans]
  | finish _ hend =>
    have hdrop : c.dropSender = c := by
      unfold Call.dropSender
      split
      · rename_i slot hp; exact absurd hp (hwait slot)
      · rfl
    rw [finish, List.getElem?_mapIdx, hc, Option.map_some]
    split <;> simp [hdrop]
  | _ => exact hc

/-- The records only grow. -/
theorem log_prefix_of_effect (heff : Effect e a e') : e.log <+: e'.log := by
  cases heff with
  | start _ => exact List.prefix_append _ _
  | recv _ _ _ _ => exact List.prefix_append _ _
  | reply _ _ _ _ => exact List.prefix_append _ _
  | _ => exact List.prefix_refl _

/-- The mailbox gets the command of a call that is sending, and no other. -/
theorem unsent_of_effect (heff : Effect e a e') {k : ℕ} {c : Call ι ο σ} (hc : e.calls[k]? = some c)
    (hs : c.Sent) (hnot : k ∉ e.mailbox.enqueued.map Command.reply) :
    k ∉ e'.mailbox.enqueued.map Command.reply := by
  cases heff with
  | move _ j cj p q hj hm hq => exact hq.enqueued ▸ hnot
  | push j cj q hj hp hrx hq =>
    have hjk : j ≠ k := by
      rintro rfl
      obtain rfl : cj = c := Option.some.inj (hj.symm.trans hc)
      unfold Call.Sent at hs
      rcases hp with hp | hp <;> simp [hp] at hs
    show k ∉ q.enqueued.map Command.reply
    rw [hq.enqueued, Mpsc.enqueued_push, List.map_append, List.mem_append, not_or]
    exact ⟨hnot, by simpa using Ne.symm hjk⟩
  | recv cmd q htask hq => exact Mpsc.enqueued_recv hq ▸ hnot
  | _ => exact hnot

/-- A task that is gone takes nothing any more. -/
theorem ended_of_effect (hal : e.Alive) (heff : Effect e a e') (h : e.task = .ended) :
    e'.task = .ended ∧ e'.mailbox.received = e.mailbox.received := by
  cases heff with
  | move _ j cj p q hj hm hq => exact ⟨h, hq.received⟩
  | push j cj q hj hp hrx hq => exact absurd h (hal.mp hrx)
  | start htask => rw [h] at htask; cases htask
  | recv cmd q htask hq => rw [h] at htask; cases htask
  | leave htask => rw [h] at htask; cases htask
  | reply cmd ans htask hfits => rw [h] at htask; cases htask
  | finish _ hend => exact absurd h (ne_ended_of_ends hend)
  | _ => exact ⟨h, rfl⟩

/-- No handler gets the command, now or later, whatever happens. -/
def NeverRuns (capacity : ℕ) (e : Executor ι ο σ) (cmd : Command ι) : Prop :=
  ∀ e', (machine ι ο σ capacity).Leads e e' → cmd ∉ e'.ran

theorem Sound.ran_eq (h : e.Sound) : e.ran = e.mailbox.received := by
  obtain ⟨done, cur, ht⟩ := h.traced
  exact ht.ran_eq

/-- A command refused at the mailbox is never run. -/
theorem Sound.neverRuns_of_refused (h : e.Sound) (capacity : ℕ) {k : ℕ} {c : Call ι ο σ}
    {ans : Answer ο σ} (hc : e.calls[k]? = some c) (hp : c.phase = .returned ans)
    (hnot : k ∉ e.mailbox.enqueued.map Command.reply) :
    e.NeverRuns capacity (c.request.command k) := by
  intro e' hleads
  have hinv : e'.Sound ∧ e'.calls[k]? = some c ∧ k ∉ e'.mailbox.enqueued.map Command.reply := by
    refine Machine.Leads.inv (I := fun s : Executor ι ο σ =>
      s.Sound ∧ s.calls[k]? = some c ∧ k ∉ s.mailbox.enqueued.map Command.reply) ?_
      ⟨h, hc, hnot⟩ hleads
    rintro s a t ⟨hs, hsc, hsn⟩ hstep
    have heff := step_effect hstep
    exact ⟨hs.step heff, over_of_effect heff hsc (.inl ⟨ans, hp⟩),
      unsent_of_effect heff hsc (.inr (.inl ⟨ans, hp⟩)) hsn⟩
  obtain ⟨hs, -, hnot'⟩ := hinv
  rw [hs.ran_eq]
  intro hmem
  exact hnot' (List.mem_map.mpr ⟨_, mem_enqueued_of_mem_received hmem, reply_command _ _⟩)

/-- A command not run when the task ends is never run. -/
theorem Sound.neverRuns_of_ended (h : e.Sound) (capacity : ℕ) {cmd : Command ι}
    (htask : e.task = .ended) (hnot : cmd ∉ e.ran) : e.NeverRuns capacity cmd := by
  rw [h.ran_eq] at hnot
  intro e' hleads
  have hinv : e'.Sound ∧ e'.task = .ended ∧ cmd ∉ e'.mailbox.received := by
    refine Machine.Leads.inv (I := fun s : Executor ι ο σ =>
      s.Sound ∧ s.task = .ended ∧ cmd ∉ s.mailbox.received) ?_ ⟨h, htask, hnot⟩ hleads
    rintro s a t ⟨hs, hst, hsn⟩ hstep
    have heff := step_effect hstep
    obtain ⟨htt, hrec⟩ := ended_of_effect hs.alive heff hst
    exact ⟨hs.step heff, htt, hrec ▸ hsn⟩
  rw [hinv.1.ran_eq]
  exact hinv.2.2

/-! ### Calls that get a good answer -/

/-- Whatever the call has got meets `P`, and its reply sender was not dropped. -/
def Call.Meets (P : Answer ο σ → Prop) (c : Call ι ο σ) : Prop :=
  match c.phase with
  | .waiting .dropped => False
  | .waiting (.sent ans) | .returned ans => P ans
  | _ => True

/-- A request for a snapshot still meets `P` after a step that neither drops nor spoils it. -/
theorem Sound.meets_step (h : e.Sound) (heff : Effect e a e') {P : Answer ο σ → Prop} {k : ℕ}
    {c c' : Call ι ο σ} (hc : e.calls[k]? = some c) (hc' : e'.calls[k]? = some c')
    (hr : c.request = .snapshot) (hm : c.Meets P)
    (hsend : a = .send k → e.mailbox.rxAlive = false → P c.request.terminated)
    (hends : Ends e a → .snapshot k ∉ e.held)
    (hreply : ∀ ans, a = .reply ans → e.task = .running (.snapshot k) → P ans) : c'.Meets P := by
  -- the command that replies to `k` is its snapshot
  have howner : ∀ cmd ∈ e.mailbox.enqueued, cmd.reply = k → cmd = .snapshot k := by
    intro cmd hcmd hk
    obtain ⟨c₁, hc₁, hcmd', -⟩ := h.owned.sent cmd hcmd
    rw [hk] at hc₁ hcmd'
    obtain rfl : c₁ = c := Option.some.inj (hc₁.symm.trans hc)
    rw [← hcmd', hr]
    rfl
  cases heff with
  | call r =>
    rw [call, List.getElem?_append_left (List.getElem?_eq_some_iff.mp hc).1, hc] at hc'
    cases hc'
    exact hm
  | move _ j cj p q hj hp hq =>
    by_cases hjk : j = k
    · subst hjk
      obtain rfl : cj = c := Option.some.inj (hj.symm.trans hc)
      have hcj : c' = { cj with phase := p } := by simpa [hc] using hc'.symm
      subst hcj
      -- the ways a snapshot call moves
      cases hp with
      | permitted _ => trivial
      | terminated _ hrx => exact hsend rfl hrx
      | busy name input hr' _ => rw [hr] at hr'; cases hr'
      | received ans hp => simpa only [Call.Meets, hp] using hm
      | droppedReply hp => simp [Call.Meets, hp] at hm
      | timedOut hr' _ => rw [hr] at hr'; cases hr'
      | abandoned _ => trivial
    · have hcj : c' = c := by simpa [hjk, hc] using hc'.symm
      rw [hcj]
      exact hm
  | push j cj q hj hp hrx hq =>
    by_cases hjk : j = k
    · subst hjk
      have hcj : c' = { c with phase := .waiting .pending } := by simpa [hc] using hc'.symm
      subst hcj
      trivial
    · have hcj : c' = c := by simpa [hjk, hc] using hc'.symm
      rw [hcj]
      exact hm
  | reply cmd ans htask hfits =>
    -- the answer is the actor's for this command
    by_cases hk : cmd.reply = k
    · have hcj : c' = c.answer ans := by simpa [hk, hc] using hc'.symm
      rw [hcj]
      obtain ⟨done, cur, ht⟩ := h.traced
      have hheld : cmd ∈ e.held := by simp [held, htask]
      have henq := (not_ended_of_held ht h.owned hheld).1
      have hP := hreply ans rfl (by rw [htask, howner cmd henq hk])
      unfold Call.Meets at hm
      unfold Call.answer
      split
      · rename_i slot hp
        rw [hp] at hm
        cases slot with
        | pending => exact hP
        | sent ans' => exact hm
        | dropped => exact absurd hm id
      · exact hm
    · have hcj : c' = c := by simpa [hk, hc] using hc'.symm
      rw [hcj]
      exact hm
  | finish _ hend =>
    obtain ⟨done, cur, ht⟩ := h.traced
    -- the condition: the task ends without the snapshot in hand
    have hnot : k ∉ e.held.map Command.reply := by
      intro hmem
      obtain ⟨cmd, hcmd, hk⟩ := List.mem_map.mp hmem
      have henq := (not_ended_of_held ht h.owned hcmd).1
      exact hends hend (howner cmd henq hk ▸ hcmd)
    rw [finish, List.getElem?_mapIdx, hc, Option.map_some, if_neg hnot] at hc'
    cases hc'
    exact hm
  | _ =>
    obtain rfl : c = c' := Option.some.inj (hc.symm.trans hc')
    exact hm

/-! ### Runs in which no handler panics and the task is not aborted -/

/-- The step is neither a panic nor an abort. -/
def Action.Undisturbed : Action ι ο σ → Prop
  | .panic | .abort => False
  | _ => True

/-- A task that is gone had answered every command it took. -/
structure Clean (e : Executor ι ο σ) : Prop where
  sound : e.Sound
  aborted : e.aborted = false
  ended : e.task = .ended → ∃ done, e.Traced done none

/-- An undisturbed step keeps the executor clean. -/
theorem Clean.step (h : e.Clean) (ha : a.Undisturbed) (heff : Effect e a e') : e'.Clean := by
  refine ⟨h.sound.step heff, ?_, ?_⟩
  · cases heff with
    | abort => exact absurd ha id
    | _ => exact h.aborted
  · intro htask
    -- a task that had ended stays as it is
    by_cases hold : e.task = .ended
    · obtain ⟨done, ht⟩ := h.ended hold
      obtain ⟨-, hrec⟩ := ended_of_effect h.sound.alive heff hold
      have hlog : e'.log = e.log := by
        cases heff with
        | start h' => rw [hold] at h'; cases h'
        | recv cmd q h' hq => rw [hold] at h'; cases h'
        | reply cmd ans h' hfits => rw [hold] at h'; cases h'
        | _ => rfl
      exact ⟨done, ht.congr hlog hrec (htask.trans hold.symm)⟩
    · obtain ⟨done, cur, ht⟩ := h.sound.traced
      cases heff with
      | finish _ hend =>
        -- undisturbed, a task ends only by its stop
        cases hend with
        | finish hst =>
          obtain ⟨rfl, -⟩ := ht.stopped hst
          exact ⟨done, ht.finish⟩
        | panic _ => exact absurd ha id
        | cancel _ hab => rw [h.aborted] at hab; cases hab
      | reply cmd ans h' hfits =>
        cases hb : cmd.isStop <;> simp [hb] at htask
      | start _ => cases htask
      | recv _ _ _ _ => cases htask
      | leave _ => cases htask
      | _ => exact absurd htask hold

/-- In a clean state a command that was lost was never taken. -/
theorem Clean.not_ran_of_lost (h : e.Clean) {cmd : Command ι} (hl : e.Lost cmd) : cmd ∉ e.ran := by
  obtain ⟨done, ht⟩ := h.ended hl.1
  rw [ht.ran_eq, ht.received]
  intro hmem
  have hdone : cmd ∈ done.map Prod.fst := by simpa using hmem
  obtain ⟨⟨cmd', ans⟩, hd, rfl⟩ := List.mem_map.mp hdone
  exact hl.2.2 ans (ht.ended_iff.mpr hd)

/-- The answers that the executor gives in place of a handler. -/
def Request.OwnError (r : Request ι) (ans : Answer ο σ) : Prop :=
  ans = .transition (.error .busy) ∨ ans = r.terminated ∨ ans = r.droppedReply

/-- The commands of the actor are linearised. -/
structure Linearised (capacity : ℕ) (e : Executor ι ο σ) : Prop where
  /-- `on_start` ran once and first, and the handlers after it one at a time. -/
  serial : e.log = [] ∨ ∃ (done : List (Command ι × Answer ο σ)) (cur : Option (Command ι)),
    e.log = .started :: (handled done ++ cur.toList.map .began) ∧
      e.ran = done.map Prod.fst ++ cur.toList
  /-- They ran in the order in which their commands were enqueued. -/
  order : e.ran <+: e.mailbox.enqueued
  /-- No command ran twice. -/
  once : (e.ran.map Command.reply).Nodup
  /-- No handler ran after `on_stop`. -/
  stop : ∀ before cmd after, e.ran = before ++ cmd :: after → cmd.isStop = true → after = []
  /-- A caller that has not left has the answer of its handler, if that has answered. -/
  own : ∀ (k : ℕ) (c : Call ι ο σ) (ans : Answer ο σ), e.calls[k]? = some c →
    c.request ≠ .shutdown → .ended (c.request.command k) ans ∈ e.log →
      c.phase = .waiting (.sent ans) ∨ c.phase = .returned ans ∨ c.phase = .abandoned
  /-- What a caller got is the answer of its handler, or an error of the executor for a command that
  has not run and never will. -/
  result : ∀ (k : ℕ) (c : Call ι ο σ) (ans : Answer ο σ), e.calls[k]? = some c →
    c.request ≠ .shutdown → c.phase = .returned ans →
    .ended (c.request.command k) ans ∈ e.log ∨
      c.request.OwnError ans ∧ e.NeverRuns capacity (c.request.command k)
  /-- An acknowledged shutdown has seen `on_stop` return. -/
  acknowledged : ∀ (k : ℕ) (c : Call ι ο σ), e.calls[k]? = some c → c.request = .shutdown →
    c.phase = .returned (.shutdown true) → .ended (.stop k) (.shutdown true) ∈ e.log

theorem Traced.stop_last (h : e.Traced done cur) {before after : List (Command ι)}
    {cmd : Command ι} (hran : e.mailbox.received = before ++ cmd :: after)
    (hs : cmd.isStop = true) : after = [] := by
  by_contra hne
  have hmem : cmd ∈ e.mailbox.received.dropLast := by
    rw [hran, List.dropLast_append_of_ne_nil (by simp), List.dropLast_cons_of_ne_nil hne]
    simp
  rw [h.stops cmd hmem] at hs
  cases hs

/-- A clean executor is linearised. -/
theorem Clean.linearised (h : e.Clean) (capacity : ℕ) : e.Linearised capacity := by
  obtain ⟨done, cur, ht⟩ := h.sound.traced
  have hran := h.sound.ran_eq
  -- in order: the log, the queue, the commands once each, the stop, and the answers
  refine ⟨?_, ?_, ?_, ?_, ?_, ?_, ?_⟩
  · obtain ⟨hlog, -⟩ | hlog := ht.log
    · exact .inl hlog
    · exact .inr ⟨done, cur, hlog, hran.trans ht.received⟩
  · rw [hran]
    exact List.prefix_append _ _
  · have hnodup := h.sound.owned.nodup
    rw [Mpsc.enqueued, List.map_append] at hnodup
    rw [hran]
    exact (List.nodup_append.mp hnodup).1
  · intro before cmd after heq hs
    exact ht.stop_last (hran.symm.trans heq) hs
  · intro k c ans hc hr hans
    exact h.sound.phase_of_ended hc hr hans
  · intro k c ans hc hr hp
    have hok : e.Returned k c ans := by simpa only [CallOk, hp] using h.sound.answered k c hc
    -- its own answer, or one that says the command never ran
    cases hok with
    | own hans => exact .inl hans
    | refused hnot ha =>
      refine .inr ⟨?_, h.sound.neverRuns_of_refused capacity hc hp hnot⟩
      rcases ha with ha | ⟨-, ha⟩
      · exact .inr (.inl ha)
      · exact .inl ha
    | lost hl ha =>
      exact .inr ⟨.inr (.inr ha),
        h.sound.neverRuns_of_ended capacity hl.1 (h.not_ran_of_lost hl)⟩
    | unacknowledged hs _ => exact absurd hs hr
  · -- only a handled stop is acknowledged
    intro k c hc hr hp
    have hok : e.Returned k c (.shutdown true) := by
      simpa only [CallOk, hp] using h.sound.answered k c hc
    rw [← show c.request.command k = .stop k by rw [hr]; rfl]
    cases hok with
    | own hans => exact hans
    | refused _ ha => simp [hr, Request.terminated] at ha
    | lost _ ha => simp [hr, Request.droppedReply] at ha
    | unacknowledged _ ha => simp at ha

theorem clean_spawn (capacity : ℕ) : (spawn ι ο σ capacity).Clean where
  sound := sound_spawn capacity
  aborted := rfl
  ended h := by cases h

/-- **Commands are linearised.** In every run in which no handler panics and the task is not
aborted, whatever the callers do and in whichever order, every state is linearised. -/
theorem linearised_of_undisturbed (capacity : ℕ) (as : List (Action ι ο σ))
    (has : ∀ a ∈ as, a.Undisturbed) :
    (machine ι ο σ capacity).StatesMeet (Linearised capacity) (machine ι ο σ capacity).init as := by
  have hclean : (machine ι ο σ capacity).StatesMeet Clean (machine ι ο σ capacity).init as :=
    Machine.statesMeet_of_stepsMeet (G := fun _ a => a.Undisturbed)
      (fun _ _ _ hs ha hstep => hs.step ha (step_effect hstep)) (clean_spawn capacity)
      (.of_forall_mem fun a ha _ => has a ha)
  exact hclean.mono fun _ h => h.linearised capacity

/-- A lamp is turned on, read, shut down and read once more; the last request is behind the stop. -/
def lampRun : List (Action String String String) :=
  [.call (.tryTransition "turn-on" ""), .call .snapshot, .call .shutdown, .call .snapshot, .start,
    .send 0, .reserve 1, .send 1, .reserve 2, .send 2, .reserve 3, .send 3,
    .recv, .reply (.transition (.ok (.completed "" "on"))), .recv, .reply (.snapshot (.ok "on")),
    .recv, .reply (.shutdown true), .finish, .receive 0, .receive 1, .receive 2, .receive 3]

theorem linearised_lampRun :
    ((machine String String String 4).run (machine String String String 4).init lampRun).isSome =
        true ∧
      (machine String String String 4).StatesMeet (Linearised 4)
        (machine String String String 4).init lampRun :=
  ⟨by decide, linearised_of_undisturbed 4 lampRun (by simp [lampRun, Action.Undisturbed])⟩

/-- A handler answers `Busy`, and `on_stop` outlives the time limit of the shutdown. -/
def ownBusyRun : List (Action String String String) :=
  [.call (.transitionWithCtx "turn-on" ""), .start, .reserve 0, .send 0, .recv,
    .reply (.transition (.error .busy)), .receive 0, .call .shutdown, .reserve 1, .send 1, .recv,
    .timeout 1, .reply (.shutdown true)]

/-- A caller got `Busy` for a command that ran, and another one `false` although its `on_stop`
ran and answered. -/
theorem busy_of_ran :
    ∃ e, (machine String String String 4).run (machine String String String 4).init ownBusyRun =
        some e ∧
      e.calls.map Call.phase =
        [.returned (.transition (.error .busy)), .returned (.shutdown false)] ∧
      e.ran = [.transition "turn-on" "" 0, .stop 1] ∧
      .ended (.stop 1) (.shutdown true) ∈ e.log :=
  ⟨_, rfl, by decide, by decide, by decide⟩

end Boardwalk.Executor
