import Boardwalk.Events.Envelope
import Boardwalk.Events.Policy

/-!
# The coalesce queue

The sidecar queue of `events/coalesce.rs` that backs `SlowConsumerPolicy::Coalesce`.  Key
extraction is a parameter `key`: the queue compares keys and never looks inside an envelope.
-/

namespace Boardwalk

/-- What a push did. -/
inductive CoalescePushOutcome where
  | pushed
  | replaced
  | dropped
  | receiverGone
  deriving Repr, DecidableEq

/-- What a pass of the loop of `recv` comes to: it returns, or it awaits a notification. -/
inductive RecvPass (δ : Type) where
  | returns (env : Option (EventEnvelope δ))
  | awaits
  deriving Repr, DecidableEq

inductive TryRecvError where
  | empty
  | disconnected
  deriving Repr, DecidableEq

structure CoalesceState (δ : Type) where
  queue : List (EventEnvelope δ) := []
  capacity : ℕ
  keyPath : FieldPath
  closed : Bool := false
  receiverDropped : Bool := false
  deriving Repr, DecidableEq

namespace CoalesceState

variable {δ κ : Type} [DecidableEq κ]

/-- `CoalesceState::new`: a capacity of zero is raised to one. -/
def new (capacity : ℕ) (keyPath : FieldPath) : CoalesceState δ :=
  { capacity := max capacity 1, keyPath }

/-- Overwrites the first queued envelope whose key is `k`; `none` when there is none. -/
def replaceFirst (key : EventEnvelope δ → FieldPath → Option κ) (path : FieldPath) (k : κ)
    (env : EventEnvelope δ) : List (EventEnvelope δ) → Option (List (EventEnvelope δ))
  | [] => none
  | slot :: rest =>
    if key slot path = some k then some (env :: rest)
    else (replaceFirst key path k env rest).map (slot :: ·)

/-- `CoalesceState::push`.  An envelope without a key replaces nothing. -/
def push (key : EventEnvelope δ → FieldPath → Option κ) (s : CoalesceState δ)
    (env : EventEnvelope δ) : CoalescePushOutcome × CoalesceState δ :=
  if s.receiverDropped then (.receiverGone, s)
  else
    match (key env s.keyPath).bind fun k => replaceFirst key s.keyPath k env s.queue with
    | some queue => (.replaced, { s with queue })
    | none =>
      if s.queue.length < s.capacity then (.pushed, { s with queue := s.queue ++ [env] })
      else (.dropped, s)

/-- The part of `push` under the lock of the queue. -/
def offer (key : EventEnvelope δ → FieldPath → Option κ) (s : CoalesceState δ)
    (env : EventEnvelope δ) : CoalescePushOutcome × CoalesceState δ :=
  match (key env s.keyPath).bind fun k => replaceFirst key s.keyPath k env s.queue with
  | some queue => (.replaced, { s with queue })
  | none =>
    if s.queue.length < s.capacity then (.pushed, { s with queue := s.queue ++ [env] })
    else (.dropped, s)

/-- The pop that `recv` and `try_recv` share. -/
def pop (s : CoalesceState δ) : Option (EventEnvelope δ × CoalesceState δ) :=
  match s.queue with
  | [] => none
  | env :: rest => some (env, { s with queue := rest })

/-- One pass of the loop of `CoalesceState::recv`. -/
def recvPass (s : CoalesceState δ) : RecvPass δ × CoalesceState δ :=
  match s.pop with
  | some (env, s) => (.returns (some env), s)
  | none => (if s.closed then .returns none else .awaits, s)

/-- `CoalesceState::try_recv`. -/
def tryRecv (s : CoalesceState δ) : Except TryRecvError (EventEnvelope δ) × CoalesceState δ :=
  match s.pop with
  | some (env, s) => (.ok env, s)
  | none => (.error (if s.closed then .disconnected else .empty), s)

/-- `CoalesceState::close`. -/
def close (s : CoalesceState δ) : CoalesceState δ := { s with closed := true }

/-- `CoalesceState::mark_receiver_dropped`. -/
def markReceiverDropped (s : CoalesceState δ) : CoalesceState δ :=
  { s with receiverDropped := true, closed := true }

end CoalesceState

end Boardwalk
