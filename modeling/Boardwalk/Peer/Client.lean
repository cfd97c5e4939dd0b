import Boardwalk.Lib.Machine
import Boardwalk.Peer.Capabilities
import Mathlib.Data.Finset.Card

/-!
# The peer clients of a hub

The loop of `PeerClient::spawn` in `peer.rs` for all clients of a server, with the `PeerInitState`
that they share and the handler of `GET /_initiate_peer/{id}` that consumes it.  An attempt registers
its connection id, dials, serves the tunnel and takes the id out again, unless it is dropped on the
way.  Random bits come from a generator that each worker thread has for itself.

A step is what a client does between two awaits, or one request.
-/

namespace Boardwalk

/-! ### Backoff -/

/-- The seed of `xorshift`. -/
def XORSHIFT_SEED : UInt64 := 0xdeadbeefdeadbeef

/-- `xorshift` on the state of its thread; `now` is the clock in nanoseconds, for a state of zero. -/
def xorshift (now x : UInt64) : UInt64 :=
  let x := if x = 0 then max now 1 else x
  let x := x ^^^ (x <<< 13)
  let x := x ^^^ (x >>> 7)
  x ^^^ (x <<< 17)

/-- `u64::MAX`. -/
def U64_MAX : ℕ := 2 ^ 64 - 1

/-- `u32::MAX`. -/
def U32_MAX : ℕ := 2 ^ 32 - 1

/-- `backoff_ms`, with what `xorshift` returned. -/
def backoffMs (attempt : ℕ) (random : UInt64) : ℕ :=
  let base := 100
  let max := 30000
  let computed := min (base * 2 ^ min attempt 10) U64_MAX
  let jitter := random.toNat % 1000
  min (min computed max + jitter) U64_MAX

/-! ### Clients -/

/-- Where the loop of a client is. -/
inductive ClientPhase where
  /-- At the first `select!`. -/
  | ready
  /-- In `dial_initiator`. -/
  | dialing (id : Uuid)
  /-- In `serve_connection`. -/
  | serving (id : Uuid)
  /-- At the second `select!`. -/
  | sleeping (backoff : ℕ)
  /-- The task is over; an attempt that was running was dropped. -/
  | stopped (dropped : Option Uuid)
  deriving Repr, DecidableEq

/-- The task of a client. -/
structure ClientTask where
  phase : ClientPhase := .ready
  attempt : ℕ := 0
  /-- `shutdown` holds a permit. -/
  notified : Bool := false
  /-- What was logged of the attempts, in order: whether the link closed, or failed. -/
  ends : List Bool := []
  deriving Repr, DecidableEq

/-- The attempt that a client is in. -/
def ClientTask.attempting (task : ClientTask) : Option Uuid :=
  match task.phase with
  | .dialing id | .serving id => some id
  | _ => none

/-- The clients of a server, and what they share. -/
structure PeerClients where
  tasks : List ClientTask
  /-- `PeerInitState`. -/
  peerInit : Finset Uuid := ∅
  /-- The generator of each thread. -/
  random : ℕ → UInt64 := fun _ => XORSHIFT_SEED
  /-- The ids that were registered, in order. -/
  dialed : List Uuid := []
  /-- The answers to `/_initiate_peer`, in order: the id and the status. -/
  answers : List (Uuid × ℕ) := []

/-- What happens next.  `k` is the client that is polled. -/
inductive ClientAction where
  /-- The client passes the first `select!` with a fresh id. -/
  | dial (k : ℕ) (id : Uuid)
  /-- `dial_initiator` returns a stream. -/
  | linked (k : ℕ)
  /-- The attempt returns, with `Ok` or an error, on a thread. -/
  | ended (k : ℕ) (ok : Bool) (thread : ℕ) (now : UInt64)
  /-- The backoff is over. -/
  | wake (k : ℕ)
  /-- `shutdown.notify_one()`. -/
  | notify (k : ℕ)
  /-- `JoinHandle::abort`. -/
  | abort (k : ℕ)
  /-- A request for `/_initiate_peer/{id}`. -/
  | initiate (id : Uuid)
  deriving Repr, DecidableEq

/-- The client that is polled, notified or aborted. -/
def ClientAction.client : ClientAction → Option ℕ
  | .dial k _ | .linked k | .ended k _ _ _ | .wake k | .notify k | .abort k => some k
  | .initiate _ => none

namespace PeerClients

/-- Replaces the task of client `k`. -/
def setTask (s : PeerClients) (k : ℕ) (task : ClientTask) : PeerClients :=
  { s with tasks := s.tasks.set k task }

/-- `PeerInitState::register`. -/
def register (s : PeerClients) (id : Uuid) : PeerClients :=
  { s with peerInit := insert id s.peerInit, dialed := s.dialed ++ [id] }

/-- `PeerInitState::consume`, for its effect. -/
def consume (s : PeerClients) (id : Uuid) : PeerClients :=
  { s with peerInit := s.peerInit.erase id }

/-- `initiate_peer`, on an id that parses. -/
def initiatePeer (s : PeerClients) (id : Uuid) : PeerClients :=
  let status := if id ∈ s.peerInit then 200 else 404
  { s.consume id with answers := s.answers ++ [(id, status)] }

/-- The task ends where it is. -/
def stop (s : PeerClients) (k : ℕ) (task : ClientTask) : PeerClients :=
  s.setTask k { task with phase := .stopped task.attempting, notified := false }

/-- A poll of a `select!`, which is biased: a permit of `shutdown` ends the task whatever else is
ready. -/
def poll (s : PeerClients) (k : ℕ) (task : ClientTask) (s' : PeerClients) : PeerClients :=
  if task.notified then s.stop k task else s'

/-- The end of an attempt: the id is consumed, the attempt counted, and the backoff drawn. -/
def endAttempt (s : PeerClients) (k : ℕ) (task : ClientTask) (id : Uuid) (ok : Bool) (thread : ℕ)
    (now : UInt64) : PeerClients :=
  let attempt := min ((if ok then 0 else task.attempt) + 1) U32_MAX
  let x := xorshift now (s.random thread)
  { (s.consume id).setTask k
      { task with
        phase := .sleeping (backoffMs attempt x)
        attempt := attempt
        ends := task.ends ++ [ok] } with
    random := Function.update s.random thread x }

/-- One step of client `k`. -/
def stepTask (s : PeerClients) (k : ℕ) (task : ClientTask) : ClientAction → Option PeerClients
  | .dial _ id =>
    if task.phase = .ready then
      some <| s.poll k task <| (s.register id).setTask k { task with phase := .dialing id }
    else none
  | .linked _ =>
    match task.phase with
    | .dialing id => some <| s.poll k task <| s.setTask k { task with phase := .serving id }
    | _ => none
  | .ended _ ok thread now =>
    match task.phase with
    -- a dial that returns is an error
    | .dialing id =>
      if ok then none else some <| s.poll k task <| s.endAttempt k task id ok thread now
    | .serving id => some <| s.poll k task <| s.endAttempt k task id ok thread now
    | _ => none
  | .wake _ =>
    match task.phase with
    | .sleeping _ => some <| s.poll k task <| s.setTask k { task with phase := .ready }
    | _ => none
  | .notify _ =>
    match task.phase with
    | .stopped _ => none
    | _ => some <| s.setTask k { task with notified := true }
  | .abort _ =>
    match task.phase with
    | .stopped _ => none
    | _ => some <| s.stop k task
  | .initiate _ => none

/-- One step of the server. -/
def step (s : PeerClients) : ClientAction → Option PeerClients
  | .initiate id => some (s.initiatePeer id)
  | a => a.client.bind fun k => (s.tasks[k]?).bind fun task => s.stepTask k task a

/-- A server with `n` clients, from its start. -/
def machine (n : ℕ) : Machine PeerClients ClientAction where
  init := { tasks := List.replicate n {} }
  step := step

end PeerClients

end Boardwalk
