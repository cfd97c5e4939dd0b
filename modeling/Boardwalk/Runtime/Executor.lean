import Boardwalk.Lib.Channel
import Boardwalk.Lib.Machine

/-!
# The task of an actor and its callers

`runtime/executor.rs`: one task owns an actor and takes commands off a bounded mailbox; a call of an
`ActorHandle` puts a command there and waits for its reply.  The machine interleaves any number of
calls with the steps of the task.

What a handler answers comes with the step at which it returns, so that a run of the machine is a
run with some actor, and every actor is covered.  `ι` is the input of a transition with its context,
`ο` its output, and `σ` the snapshot that an actor reports.  The number of a call stands for the two
ends of its reply channel.
-/

namespace Boardwalk

inductive TransitionError where
  | invalidInput (message : String)
  | notAllowed (message : String)
  | conflict (message : String)
  | busy
  | backpressureRequired
  | timeout
  | resourceNotFound (id : String)
  | internal (message : String)
  deriving Repr, DecidableEq

inductive ResourceError where
  | notFound (id : String)
  | unavailable (message : String)
  | internal (message : String)
  deriving Repr, DecidableEq

structure AcceptedJob where
  id : String
  kind : String
  location : String
  created : Bool
  deriving Repr, DecidableEq

inductive TransitionOutcome (ο σ : Type*) where
  | completed (output : ο) (snapshot : σ)
  | accepted (job : AcceptedJob) (output : ο)
  deriving Repr, DecidableEq

namespace Executor

variable {ι ο σ : Type*}

/-- A message in the mailbox; `reply` is the call that waits for its answer. -/
inductive Command (ι : Type*) where
  | transition (name : String) (input : ι) (reply : ℕ)
  | snapshot (reply : ℕ)
  | stop (reply : ℕ)
  deriving Repr, DecidableEq

def Command.reply : Command ι → ℕ
  | transition _ _ k | snapshot k | stop k => k

def Command.isStop : Command ι → Bool
  | stop _ => true
  | _ => false

/-- What a handler sends to the reply channel and a call returns.  The `()` of a stop is the `true`
of `shutdown`. -/
inductive Answer (ο σ : Type*) where
  | transition (result : Except TransitionError (TransitionOutcome ο σ))
  | snapshot (result : Except ResourceError σ)
  | shutdown (acknowledged : Bool)
  deriving DecidableEq

/-- The answers that the handler of a command can give. -/
def Command.Fits : Command ι → Answer ο σ → Bool
  | transition _ _ _, .transition _ => true
  | snapshot _, .snapshot _ => true
  | stop _, .shutdown true => true
  | _, _ => false

/-- The methods of `ActorHandle`. -/
inductive Request (ι : Type*) where
  | transitionWithCtx (name : String) (input : ι)
  | tryTransition (name : String) (input : ι)
  | snapshot
  | shutdown
  deriving Repr, DecidableEq

/-- The command that a call sends. -/
def Request.command (r : Request ι) (k : ℕ) : Command ι :=
  match r with
  | transitionWithCtx name input | tryTransition name input => .transition name input k
  | snapshot => .snapshot k
  | shutdown => .stop k

/-- The answer of a call that finds the mailbox closed. -/
def Request.terminated : Request ι → Answer ο σ
  | transitionWithCtx _ _ | tryTransition _ _ =>
    .transition (.error (.internal "actor task terminated"))
  | snapshot => .snapshot (.error (.unavailable "actor task terminated"))
  | shutdown => .shutdown false

/-- The answer of a call whose reply sender is dropped. -/
def Request.droppedReply : Request ι → Answer ο σ
  | transitionWithCtx _ _ | tryTransition _ _ =>
    .transition (.error (.internal "actor task dropped reply slot"))
  | snapshot => .snapshot (.error (.internal "actor task dropped reply slot"))
  | shutdown => .shutdown false

/-- Where a call stands. -/
inductive Phase (ο σ : Type*) where
  /-- Before `try_send`, or awaiting a slot of the mailbox. -/
  | calling
  /-- A slot is assigned, the send future not yet polled again. -/
  | permitted
  /-- Sent; awaiting the reply. -/
  | waiting (slot : Oneshot (Answer ο σ))
  | returned (answer : Answer ο σ)
  /-- The caller dropped the future. -/
  | abandoned
  deriving DecidableEq

structure Call (ι ο σ : Type*) where
  request : Request ι
  phase : Phase ο σ := .calling
  deriving DecidableEq

/-- The sender of the reply channel goes away. -/
def Call.dropSender (c : Call ι ο σ) : Call ι ο σ :=
  match c.phase with
  | .waiting slot => { c with phase := .waiting slot.dropSender }
  | _ => c

/-- Sends to the reply channel; without effect when the caller is gone. -/
def Call.answer (c : Call ι ο σ) (a : Answer ο σ) : Call ι ο σ :=
  match c.phase with
  | .waiting slot => { c with phase := .waiting (slot.send a) }
  | _ => c

/-- Where the task stands. -/
inductive TaskPhase (ι : Type*) where
  /-- In `on_start`. -/
  | starting
  /-- At `rx.recv()`. -/
  | idle
  /-- In the handler of a command; `on_stop` is the handler of a stop. -/
  | running (cmd : Command ι)
  /-- The loop is left, `rx` not yet dropped. -/
  | stopped
  | ended
  deriving Repr, DecidableEq

/-- What the actor was seen to do. -/
inductive Record (ι ο σ : Type*) where
  /-- `on_start` returned. -/
  | started
  | began (cmd : Command ι)
  | ended (cmd : Command ι) (answer : Answer ο σ)
  deriving DecidableEq

def Record.began? : Record ι ο σ → Option (Command ι)
  | began cmd => some cmd
  | _ => none

end Executor

structure Executor (ι ο σ : Type*) where
  mailbox : Mpsc (Executor.Command ι)
  task : Executor.TaskPhase ι := .starting
  calls : List (Executor.Call ι ο σ) := []
  /-- Some handle exists. -/
  handles : Bool := true
  /-- `abort` was called on the task. -/
  aborted : Bool := false
  /-- What the actor did (history). -/
  log : List (Executor.Record ι ο σ) := []

namespace Executor

variable {ι ο σ : Type*}

/-- `spawn_with_task`. -/
def spawn (ι ο σ : Type*) (capacity : ℕ) : Executor ι ο σ where
  mailbox := { capacity := max capacity 1 }

def setPhase (e : Executor ι ο σ) (k : ℕ) (p : Phase ο σ) : Executor ι ο σ :=
  { e with calls := e.calls.modify k fun c => { c with phase := p } }

/-- A call of a method of the handle. -/
def call (e : Executor ι ο σ) (r : Request ι) : Executor ι ο σ :=
  { e with calls := e.calls ++ [{ request := r }] }

/-- The `try_send` of `try_transition`. -/
def trySend (e : Executor ι ο σ) (k : ℕ) (r : Request ι) : Executor ι ο σ :=
  match e.mailbox.trySend (r.command k) with
  | .ok mailbox => { e with mailbox }.setPhase k (.waiting .pending)
  | .error .full => e.setPhase k (.returned (.transition (.error .busy)))
  | .error .closed => e.setPhase k (.returned r.terminated)

/-- A poll of `send` once a slot is assigned. -/
def send (e : Executor ι ο σ) (k : ℕ) (r : Request ι) : Executor ι ο σ :=
  if e.mailbox.rxAlive then
    { e with mailbox := e.mailbox.pushReserved (r.command k) }.setPhase k (.waiting .pending)
  else { e with mailbox := e.mailbox.release }.setPhase k (.returned r.terminated)

/-- A poll of the call's send. -/
def pollSend (e : Executor ι ο σ) (k : ℕ) (c : Call ι ο σ) : Option (Executor ι ο σ) :=
  match c.request, c.phase with
  | .tryTransition _ _, .calling => some (e.trySend k c.request)
  | _, .calling =>
    if e.mailbox.rxAlive then none else some (e.setPhase k (.returned c.request.terminated))
  | _, .permitted => some (e.send k c.request)
  | _, _ => none

/-- A free slot is assigned to an awaiting send. -/
def reserve (e : Executor ι ο σ) (k : ℕ) (c : Call ι ο σ) : Option (Executor ι ο σ) :=
  match c.request, c.phase with
  | .tryTransition _ _, _ => none
  | _, .calling =>
    if e.mailbox.rxAlive then
      e.mailbox.reserve.map fun mailbox => { e with mailbox }.setPhase k .permitted
    else none
  | _, _ => none

/-- `rrx.await`. -/
def receive (e : Executor ι ο σ) (k : ℕ) (c : Call ι ο σ) : Option (Executor ι ο σ) :=
  match c.phase with
  | .waiting (.sent a) => some (e.setPhase k (.returned a))
  | .waiting .dropped => some (e.setPhase k (.returned c.request.droppedReply))
  | _ => none

/-- The time limit of `shutdown` passes. -/
def timeout (e : Executor ι ο σ) (k : ℕ) (c : Call ι ο σ) : Option (Executor ι ο σ) :=
  match c.request, c.phase with
  | .shutdown, .waiting .pending => some (e.setPhase k (.returned (.shutdown false)))
  | _, _ => none

/-- The caller drops the future. -/
def abandon (e : Executor ι ο σ) (k : ℕ) (c : Call ι ο σ) : Option (Executor ι ο σ) :=
  match c.phase with
  | .calling | .waiting _ => some (e.setPhase k .abandoned)
  | .permitted => some ({ e with mailbox := e.mailbox.release }.setPhase k .abandoned)
  | _ => none

/-- `on_start` returns; its result is ignored. -/
def start (e : Executor ι ο σ) : Option (Executor ι ο σ) :=
  match e.task with
  | .starting => some { e with task := .idle, log := e.log ++ [.started] }
  | _ => none

/-- `rx.recv().await`. -/
def recv (e : Executor ι ο σ) : Option (Executor ι ο σ) :=
  match e.task, e.mailbox.recv with
  | .idle, some (cmd, mailbox) =>
    some { e with mailbox, task := .running cmd, log := e.log ++ [.began cmd] }
  | .idle, none => if e.handles then none else some { e with task := .stopped }
  | _, _ => none

/-- A handler returns `a`, which is sent to the caller; a stop leaves the loop. -/
def reply (e : Executor ι ο σ) (a : Answer ο σ) : Option (Executor ι ο σ) :=
  match e.task with
  | .running cmd =>
    if cmd.Fits a then
      some { e with
        task := if cmd.isStop then .stopped else .idle
        calls := e.calls.modify cmd.reply fun c => c.answer a
        log := e.log ++ [.ended cmd a] }
    else none
  | _ => none

/-- The commands that the task still holds. -/
def held (e : Executor ι ο σ) : List (Command ι) :=
  match e.task with
  | .running cmd => cmd :: e.mailbox.buf
  | _ => e.mailbox.buf

/-- The task is gone, and with it the receiver and the commands it still held. -/
def finish (e : Executor ι ο σ) : Executor ι ο σ :=
  { e with
    mailbox := e.mailbox.dropRx
    task := .ended
    calls := e.calls.mapIdx fun k c =>
      if k ∈ e.held.map Command.reply then c.dropSender else c }

/-- Every send future of a call has ended; it borrows the handle. -/
def sendsOver (e : Executor ι ο σ) : Bool :=
  e.calls.all fun c =>
    match c.phase with
    | .calling | .permitted => false
    | _ => true

inductive Action (ι ο σ : Type*) where
  | call (r : Request ι)
  /-- Call `k` is assigned a slot of the mailbox. -/
  | reserve (k : ℕ)
  | send (k : ℕ)
  | receive (k : ℕ)
  | timeout (k : ℕ)
  | abandon (k : ℕ)
  | start
  | recv
  /-- The running handler returns. -/
  | reply (a : Answer ο σ)
  /-- The task that left its loop ends. -/
  | finish
  /-- The running handler panics. -/
  | panic
  /-- `JoinHandle::abort`. -/
  | abort
  /-- The abort takes effect. -/
  | cancel
  /-- The last handle is dropped. -/
  | release

def step (e : Executor ι ο σ) : Action ι ο σ → Option (Executor ι ο σ)
  | .call r => if e.handles then some (e.call r) else none
  | .reserve k => e.calls[k]?.bind fun c => e.reserve k c
  | .send k => e.calls[k]?.bind fun c => e.pollSend k c
  | .receive k => e.calls[k]?.bind fun c => e.receive k c
  | .timeout k => e.calls[k]?.bind fun c => e.timeout k c
  | .abandon k => e.calls[k]?.bind fun c => e.abandon k c
  | .start => e.start
  | .recv => e.recv
  | .reply a => e.reply a
  | .finish => if e.task matches .stopped then some e.finish else none
  | .panic =>
    match e.task with
    | .starting | .running _ => some e.finish
    | _ => none
  | .abort => some { e with aborted := true }
  | .cancel =>
    match e.task with
    | .ended => none
    | _ => if e.aborted then some e.finish else none
  | .release => if e.sendsOver then some { e with handles := false } else none

/-- All runs of an actor's task and its callers. -/
def machine (ι ο σ : Type*) (capacity : ℕ) : Machine (Executor ι ο σ) (Action ι ο σ) where
  init := spawn ι ο σ capacity
  step := step

/-- The commands whose handler began, in order. -/
def ran (e : Executor ι ο σ) : List (Command ι) := e.log.filterMap Record.began?

end Executor

end Boardwalk
