import Mathlib.Data.List.Basic
import Mathlib.Tactic.Common

/-!
# Channels: a bounded queue with send permits, and a one-shot cell

`Mpsc ε` is a bounded multi-producer single-consumer queue.  A sender either tries to push at once
(`trySend`) or first waits for a send permit (`reserve`) and later spends it (`pushReserved`); a
permit that is given up unspent is returned by `release`, which is why a cancelled send has pushed
nothing.  A slot taken by a permit counts against the capacity.  The values already handed to the
consumer are kept in `received`, a history variable no operation reads, so that
`enqueued = received ++ buf` is everything ever pushed, in order, and first-in first-out delivery
holds by construction.

`Oneshot ε` is the state of a one-shot channel as its receiver sees it: nothing yet, a value, or a
sender that went away without sending.

`Broadcast ε` hands every value to every receiver.  A receiver is the position it reads at; one that
falls more than the capacity behind skips to the oldest value still kept and is told how many it
missed.
-/

namespace Boardwalk

/-- A bounded queue: `buf` holds the queued values, oldest first, and `reserved` counts the send
permits handed out and not yet spent. -/
structure Mpsc (ε : Type*) where
  capacity : ℕ
  buf : List ε := []
  reserved : ℕ := 0
  /-- The consumer has not dropped its end. -/
  rxAlive : Bool := true
  /-- The values the consumer has taken, in order (history). -/
  received : List ε := []
  deriving Repr, DecidableEq

/-- Why a push was refused. -/
inductive TrySendError where
  | full
  | closed
  deriving Repr, DecidableEq

namespace Mpsc

variable {ε : Type*}

/-- Everything ever pushed, in order. -/
def enqueued (q : Mpsc ε) : List ε := q.received ++ q.buf

/-- There is a slot that is neither filled nor reserved. -/
def hasRoom (q : Mpsc ε) : Bool := decide (q.buf.length + q.reserved < q.capacity)

/-- Pushes without looking at the capacity. -/
def push (q : Mpsc ε) (x : ε) : Mpsc ε := { q with buf := q.buf ++ [x] }

/-- Pushes at once or fails. -/
def trySend (q : Mpsc ε) (x : ε) : Except TrySendError (Mpsc ε) :=
  if !q.rxAlive then .error .closed
  else if q.hasRoom then .ok (q.push x)
  else .error .full

/-- Takes a send permit; `none` while there is no free slot. -/
def reserve (q : Mpsc ε) : Option (Mpsc ε) :=
  if q.hasRoom then some { q with reserved := q.reserved + 1 } else none

/-- Spends a permit. -/
def pushReserved (q : Mpsc ε) (x : ε) : Mpsc ε :=
  { q.push x with reserved := q.reserved - 1 }

/-- Gives a permit back unspent. -/
def release (q : Mpsc ε) : Mpsc ε := { q with reserved := q.reserved - 1 }

/-- Takes the oldest queued value. -/
def recv (q : Mpsc ε) : Option (ε × Mpsc ε) :=
  match q.buf with
  | [] => none
  | x :: rest => some (x, { q with buf := rest, received := q.received ++ [x] })

/-- The consumer drops its end. -/
def dropRx (q : Mpsc ε) : Mpsc ε := { q with rxAlive := false }

@[simp] theorem enqueued_push (q : Mpsc ε) (x : ε) :
    (q.push x).enqueued = q.enqueued ++ [x] := by
  simp [enqueued, push]

@[simp] theorem enqueued_pushReserved (q : Mpsc ε) (x : ε) :
    (q.pushReserved x).enqueued = q.enqueued ++ [x] := by
  simp [enqueued, pushReserved, push]

@[simp] theorem enqueued_release (q : Mpsc ε) : q.release.enqueued = q.enqueued := rfl

@[simp] theorem enqueued_dropRx (q : Mpsc ε) : q.dropRx.enqueued = q.enqueued := rfl

theorem trySend_ok {q q' : Mpsc ε} {x : ε} (h : q.trySend x = .ok q') : q' = q.push x := by
  unfold trySend at h
  split at h
  · cases h
  · split at h
    · exact (Except.ok.inj h).symm
    · cases h

theorem room_of_trySend_ok {q q' : Mpsc ε} {x : ε} (h : q.trySend x = .ok q') :
    q.rxAlive = true ∧ q.hasRoom = true := by
  unfold trySend at h
  split at h
  · cases h
  · rename_i hrx
    split at h
    · rename_i hroom
      exact ⟨by simpa using hrx, hroom⟩
    · cases h

/-- While the consumer is there, a push fails only for want of room. -/
theorem trySend_of_rxAlive {q : Mpsc ε} (h : q.rxAlive = true) (x : ε) :
    q.trySend x = if q.hasRoom then .ok (q.push x) else .error .full := by
  simp [trySend, h]

theorem rxAlive_of_closed {q : Mpsc ε} {x : ε} (h : q.trySend x = .error .closed) :
    q.rxAlive = false := by
  unfold trySend at h
  split at h
  · rename_i hrx; simpa using hrx
  · split at h <;> cases h

theorem reserve_some {q q' : Mpsc ε} (h : q.reserve = some q') :
    q' = { q with reserved := q.reserved + 1 } := by
  unfold reserve at h
  split at h
  · exact (Option.some.inj h).symm
  · cases h

theorem enqueued_reserve {q q' : Mpsc ε} (h : q.reserve = some q') :
    q'.enqueued = q.enqueued := by
  rw [reserve_some h]; rfl

theorem recv_some {q q' : Mpsc ε} {x : ε} (h : q.recv = some (x, q')) :
    q.buf = x :: q'.buf ∧ q'.received = q.received ++ [x] ∧ q'.rxAlive = q.rxAlive := by
  unfold recv at h
  split at h
  · cases h
  · rename_i y rest hbuf
    cases h
    exact ⟨hbuf, rfl, rfl⟩

/-- Taking a value does not change what was ever pushed. -/
theorem enqueued_recv {q q' : Mpsc ε} {x : ε} (h : q.recv = some (x, q')) :
    q'.enqueued = q.enqueued := by
  obtain ⟨hbuf, hrec, -⟩ := recv_some h
  rw [enqueued, enqueued, hrec, hbuf, List.append_assoc, List.singleton_append]

end Mpsc

/-- A one-shot channel seen from its receiver. -/
inductive Oneshot (ε : Type*) where
  /-- Nothing sent, the sender still exists. -/
  | pending
  | sent (x : ε)
  /-- The sender was dropped without sending. -/
  | dropped
  deriving Repr, DecidableEq

namespace Oneshot

variable {ε : Type*}

/-- Sends a value; the sender is consumed. -/
def send (o : Oneshot ε) (x : ε) : Oneshot ε :=
  match o with
  | pending => sent x
  | o => o

/-- The sender goes away. -/
def dropSender : Oneshot ε → Oneshot ε
  | pending => dropped
  | o => o

/-- The value, once it is sent. -/
def get? : Oneshot ε → Option ε
  | sent x => some x
  | _ => none

@[simp] theorem get?_eq_some {o : Oneshot ε} {x : ε} : o.get? = some x ↔ o = sent x := by
  cases o <;> simp [get?]

@[simp] theorem dropSender_eq_sent {o : Oneshot ε} {x : ε} :
    o.dropSender = sent x ↔ o = sent x := by
  cases o <;> simp [dropSender]

theorem send_eq_sent {o : Oneshot ε} {x y : ε} (h : o.send x = sent y) : o = sent y ∨ x = y := by
  cases o with
  | pending => exact .inr (by simpa [send] using h)
  | sent z => exact .inl h
  | dropped => cases h

end Oneshot

/-- A broadcast channel; `sent` lists everything ever sent, of which the last `capacity` values are
kept. -/
structure Broadcast (ε : Type*) where
  capacity : ℕ
  sent : List ε := []
  deriving Repr, DecidableEq

namespace Broadcast

variable {ε : Type*}

/-- What a receiver gets. -/
inductive Received (ε : Type*) where
  | value (x : ε)
  /-- That many values were overwritten before they were read. -/
  | lagged (skipped : ℕ)
  /-- All senders are gone and nothing is left. -/
  | closed
  | pending
  deriving Repr, DecidableEq

def send (c : Broadcast ε) (x : ε) : Broadcast ε := { c with sent := c.sent ++ [x] }

/-- The position of a new receiver: it sees what is sent from now on. -/
def subscribe (c : Broadcast ε) : ℕ := c.sent.length

/-- A receive at position `next`, and the position after it. -/
def recv (c : Broadcast ε) (senderAlive : Bool) (next : ℕ) : Received ε × ℕ :=
  let oldest := c.sent.length - c.capacity
  if next < oldest then (.lagged (oldest - next), oldest)
  else
    match c.sent[next]? with
    | some x => (.value x, next + 1)
    | none => (if senderAlive then .pending else .closed, next)

end Broadcast

end Boardwalk
