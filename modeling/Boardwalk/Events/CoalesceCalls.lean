import Boardwalk.Events.Coalesce
import Boardwalk.Lib.Machine
import Boardwalk.Lib.Notify

/-!
# The calls on a coalesce queue

Any number of `push`, `close` and `mark_receiver_dropped` calls of `events/coalesce.rs` and one
receiver, each step of a call being one action: the loads and stores of the two flags, what is done
under the lock of the queue, and the operations of the `Notify`.  The future of a `recv` can be
dropped at its await.

The payload of an envelope is tagged with the number of the push that brought it.  Keys do not see
the tags; they are there to say which push an envelope in the queue comes from.
-/

namespace Boardwalk

/-! ### Tags -/

namespace EventEnvelope

variable {δ : Type}

def tagged (n : ℕ) (e : EventEnvelope δ) : EventEnvelope (ℕ × δ) := { e with data := (n, e.data) }

def untagged (e : EventEnvelope (ℕ × δ)) : EventEnvelope δ := { e with data := e.data.2 }

/-- The number of the push. -/
def tag (e : EventEnvelope (ℕ × δ)) : ℕ := e.data.1

@[simp] theorem tag_tagged (n : ℕ) (e : EventEnvelope δ) : (e.tagged n).tag = n := rfl

@[simp] theorem untagged_tagged (n : ℕ) (e : EventEnvelope δ) : (e.tagged n).untagged = e := rfl

end EventEnvelope

/-! ### The parties -/

inductive PushPhase where
  | begun
  /-- `receiver_dropped` was not set. -/
  | checked
  /-- The queue is updated and its lock released; `notify_one` is next. -/
  | updated
  | returned
  deriving Repr, DecidableEq

/-- A call of `push`. -/
structure PushCall (δ : Type) where
  env : EventEnvelope δ
  phase : PushPhase := .begun
  /-- What it returns, once that is known. -/
  outcome : Option CoalescePushOutcome := none
  deriving Repr, DecidableEq

inductive ClosePhase where
  | begun
  /-- `receiver_dropped` is set. -/
  | marked
  /-- `closed` is set; `notify_waiters` is next. -/
  | stored
  | returned
  deriving Repr, DecidableEq

/-- A call of `close`, or of `mark_receiver_dropped`. -/
structure CloseCall where
  marks : Bool
  phase : ClosePhase := .begun
  deriving Repr, DecidableEq

/-- Where the receiver is in `recv`. -/
inductive RecvPhase where
  /-- No call of `recv` runs. -/
  | idle
  /-- At the head of the loop. -/
  | looping
  /-- The `Notified` is created. -/
  | created
  /-- The `Notified` is enabled. -/
  | enabled
  /-- It found the queue empty and still has its lock. -/
  | locked
  /-- At the await. -/
  | awaiting
  /-- It returns, with an envelope or `None`, and drops the `Notified`. -/
  | returning (envelope : Bool)
  deriving Repr, DecidableEq

/-- The queue, the calls on it and what became of the envelopes. -/
structure CoalesceCalls (δ : Type) where
  state : CoalesceState (ℕ × δ)
  notify : Notify := {}
  pushes : List (PushCall δ) := []
  closes : List CloseCall := []
  receiver : RecvPhase := .idle
  /-- The envelopes that were received (history). -/
  received : List (EventEnvelope (ℕ × δ)) := []
  /-- The envelopes that were replaced (history). -/
  overwritten : List (EventEnvelope (ℕ × δ)) := []
  deriving Repr, DecidableEq

/-- A step of one of the calls. -/
inductive CoalesceAction (δ : Type) where
  /-- A `push` begins. -/
  | push (env : EventEnvelope δ)
  /-- Push `n` loads `receiver_dropped`. -/
  | check (n : ℕ)
  /-- Push `n` updates the queue under its lock. -/
  | update (n : ℕ)
  | notifyOne (n : ℕ)
  /-- A `close`, or a `mark_receiver_dropped`, begins. -/
  | close (marks : Bool)
  /-- Call `m` stores `receiver_dropped`, unless it is a `close`. -/
  | storeDropped (m : ℕ)
  /-- Call `m` stores `closed`. -/
  | storeClosed (m : ℕ)
  | notifyWaiters (m : ℕ)
  /-- A `recv` begins. -/
  | recv
  /-- `Notify::notified`. -/
  | notified
  /-- `Notified::enable`. -/
  | enable
  /-- Takes the lock of the queue and pops. -/
  | lock
  /-- Loads `closed` and releases the lock. -/
  | loadClosed
  /-- The await completes. -/
  | poll
  /-- Returns; `back` is whether a permit taken by `enable` is given back. -/
  | finish (back : Bool)
  /-- The future of the `recv` is dropped at its await. -/
  | cancel (back : Bool)
  | tryRecv
  deriving Repr, DecidableEq

namespace CoalesceCalls

variable {δ κ : Type} [DecidableEq κ]

/-- Push `n` in phase `phase` takes a step. -/
def onPush (s : CoalesceCalls δ) (n : ℕ) (phase : PushPhase)
    (f : PushCall δ → CoalesceCalls δ) : Option (CoalesceCalls δ) :=
  (s.pushes[n]?).bind fun c => if c.phase = phase then some (f c) else none

/-- Call `m` in phase `phase` takes a step. -/
def onClose (s : CoalesceCalls δ) (m : ℕ) (phase : ClosePhase)
    (f : CloseCall → CoalesceCalls δ) : Option (CoalesceCalls δ) :=
  (s.closes[m]?).bind fun c => if c.phase = phase then some (f c) else none

/-- The envelope that a push overwrites. -/
def displaced (key : EventEnvelope (ℕ × δ) → FieldPath → Option κ) (s : CoalesceState (ℕ × δ))
    (env : EventEnvelope (ℕ × δ)) : Option (EventEnvelope (ℕ × δ)) :=
  (key env s.keyPath).bind fun k => s.queue.find? fun slot => key slot s.keyPath = some k

/-- The pop of a receive. -/
def receive (s : CoalesceCalls δ) : CoalesceCalls δ :=
  match s.state.pop with
  | some (env, state) => { s with state, received := s.received ++ [env] }
  | none => s

/-- The update of push `n`; a dropped envelope is not notified. -/
def updateBy (key : EventEnvelope δ → FieldPath → Option κ) (s : CoalesceCalls δ) (n : ℕ)
    (c : PushCall δ) : CoalesceCalls δ :=
  let key' := fun e path => key (EventEnvelope.untagged e) path
  let (outcome, state) := s.state.offer key' (c.env.tagged n)
  { s with
    state
    overwritten := s.overwritten ++ (displaced key' s.state (c.env.tagged n)).toList
    pushes := s.pushes.set n { c with
      phase := if outcome = .dropped then .returned else .updated
      outcome := some outcome } }

def step (key : EventEnvelope δ → FieldPath → Option κ) (s : CoalesceCalls δ) :
    CoalesceAction δ → Option (CoalesceCalls δ)
  | .push env => some { s with pushes := s.pushes ++ [{ env }] }
  | .check n => s.onPush n .begun fun c =>
    -- before the lock: a push without a receiver goes no further
    { s with pushes := s.pushes.set n (if s.state.receiverDropped then
        { c with phase := .returned, outcome := some .receiverGone }
      else { c with phase := .checked }) }
  | .update n =>
    -- the update is under the lock, which the receiver may hold
    if s.receiver = .locked then none
    else s.onPush n .checked (s.updateBy key n)
  | .notifyOne n => s.onPush n .updated fun c =>
    { s with
      notify := s.notify.notifyOne
      pushes := s.pushes.set n { c with phase := .returned } }
  -- `close` stores its flags first and wakes the receiver last
  | .close marks => some { s with closes := s.closes ++ [{ marks }] }
  | .storeDropped m => s.onClose m .begun fun c =>
    { s with
      state := { s.state with receiverDropped := s.state.receiverDropped || c.marks }
      closes := s.closes.set m { c with phase := .marked } }
  | .storeClosed m => s.onClose m .marked fun c =>
    { s with
      state := s.state.close
      closes := s.closes.set m { c with phase := .stored } }
  | .notifyWaiters m => s.onClose m .stored fun c =>
    { s with
      notify := s.notify.notifyWaiters
      closes := s.closes.set m { c with phase := .returned } }
  | .recv => if s.receiver = .idle then some { s with receiver := .looping } else none
  | .notified =>
    -- the future is created, then enabled, and only then is the queue looked at
    if s.receiver = .looping then
      some { s with receiver := .created, notify := s.notify.notified }
    else none
  | .enable =>
    if s.receiver = .created then some { s with receiver := .enabled, notify := s.notify.enable }
    else none
  | .lock =>
    -- the lock is kept while the queue is empty, until `closed` is loaded
    if s.receiver = .enabled then
      some { s.receive with receiver := if s.state.queue = [] then .locked else .returning true }
    else none
  | .loadClosed =>
    if s.receiver = .locked then
      some { s with receiver := if s.state.closed then .returning false else .awaiting }
    else none
  | .poll =>
    if s.receiver = .awaiting then
      s.notify.poll.map fun notify => { s with receiver := .looping, notify }
    else none
  | .finish back =>
    if s.receiver = .returning true ∨ s.receiver = .returning false then
      some { s with receiver := .idle, notify := s.notify.drop back }
    else none
  | .cancel back =>
    -- the caller drops the future of `recv`, and with it what it was told
    if s.receiver = .awaiting then
      some { s with receiver := .idle, notify := s.notify.drop back }
    else none
  | .tryRecv => if s.receiver = .idle then some s.receive else none

/-- The calls on a new queue, in any order. -/
def machine (key : EventEnvelope δ → FieldPath → Option κ) (capacity : ℕ) (keyPath : FieldPath) :
    Machine (CoalesceCalls δ) (CoalesceAction δ) where
  init := { state := .new capacity keyPath }
  step := step key

end CoalesceCalls

end Boardwalk
