import Boardwalk.Http.Forward
import Boardwalk.Http.Ingress
import Boardwalk.Lib.Channel
import Boardwalk.Query.Json

/-!
# The hub of peer event streams

`http/peer_streams.rs`: all subscribers of a topic of a peer share one upstream request, whose lines
are broadcast to them.  An entry of the hub counts its subscribers and names its upstream; the last
one to leave removes the entry and aborts the upstream task.

`subscribe` and `unsubscribe` hold the lock of the map for all they do.
-/

namespace Boardwalk

/-- `BROADCAST_BUFFER`. -/
def BROADCAST_BUFFER : ℕ := 256

/-- One `run_stream` task and the channel it sends on. -/
structure Upstream where
  peer : String
  topic : String
  /-- The connection that the request goes through. -/
  sender : ConnId
  channel : Broadcast Json := { capacity := BROADCAST_BUFFER }
  /-- The task has not returned. -/
  running : Bool := true
  aborted : Bool := false

/-- The entries name their upstream by its number, as `task`. -/
structure PeerStreamHub where
  inner : Table (String × String) PeerStreamEntry := .empty
  upstreams : List Upstream := []

namespace PeerStreamHub

/-- `PeerStreamHub::subscribe`: the upstream and the position of the new receiver. -/
def subscribe (hub : PeerStreamHub) (peer topic : String) (senders : PeerSenders) :
    Option ((ℕ × ℕ) × PeerStreamHub) :=
  match hub.inner.get? (peer, topic) with
  | some entry =>
    let next := (hub.upstreams[entry.task]?.map fun u => u.channel.subscribe).getD 0
    some ((entry.task, next), { hub with
      inner := hub.inner.insert (peer, topic) { entry with refcount := entry.refcount + 1 } })
  | none =>
    (senders.sender peer).map fun sender =>
      let upstream := hub.upstreams.length
      ((upstream, 0), { hub with
        inner := hub.inner.insert (peer, topic) { task := upstream, refcount := 1 }
        upstreams := hub.upstreams ++ [{ peer, topic, sender }] })

/-- `JoinHandle::abort` of an upstream task. -/
def abort (hub : PeerStreamHub) (k : ℕ) : PeerStreamHub :=
  { hub with upstreams := hub.upstreams.modify k fun u => { u with aborted := true } }

/-- `PeerStreamHub::unsubscribe`. -/
def unsubscribe (hub : PeerStreamHub) (peer topic : String) : PeerStreamHub :=
  match hub.inner.get? (peer, topic) with
  | none => hub
  | some entry =>
    if entry.refcount = 1 then
      { hub with inner := hub.inner.remove (peer, topic) }.abort entry.task
    else
      { hub with
        inner := hub.inner.insert (peer, topic) { entry with refcount := entry.refcount - 1 } }

/-- Some sender of the channel of upstream `k` exists: the entry's, or the task's. -/
def senderAlive (hub : PeerStreamHub) (k : ℕ) : Bool :=
  match hub.upstreams[k]? with
  | none => false
  | some u => u.running || (hub.inner.get? (u.peer, u.topic)).any fun entry => entry.task == k

/-- `rx.recv()` at position `next` of upstream `k`. -/
def recv (hub : PeerStreamHub) (k next : ℕ) : Broadcast.Received Json × ℕ :=
  match hub.upstreams[k]? with
  | none => (.closed, next)
  | some u => u.channel.recv (hub.senderAlive k) next

end PeerStreamHub

/-- What happens to the hub outside one connection. -/
inductive HubAction where
  /-- Another connection subscribes. -/
  | subscribe (peer topic : String)
  | unsubscribe (peer topic : String)
  /-- The task of upstream `k` broadcasts a line. -/
  | line (k : ℕ) (value : Json)
  /-- The task of upstream `k` returns or is cancelled. -/
  | ended (k : ℕ)

namespace PeerStreamHub

def step (senders : Option PeerSenders) (hub : PeerStreamHub) : HubAction → Option PeerStreamHub
  | .subscribe peer topic =>
    senders.bind fun senders => (hub.subscribe peer topic senders).map (·.2)
  | .unsubscribe peer topic => some (hub.unsubscribe peer topic)
  | .line k value =>
    match hub.upstreams[k]? with
    | some u =>
      if u.running then
        some { hub with
          upstreams := hub.upstreams.set k { u with channel := u.channel.send value } }
      else none
    | none => none
  | .ended k =>
    match hub.upstreams[k]? with
    | some u =>
      if u.running then
        some { hub with upstreams := hub.upstreams.set k { u with running := false } }
      else none
    | none => none

end PeerStreamHub

/-! ### The upstream task -/

/-- Where `run_stream` stands. -/
inductive RunStream where
  /-- Before the response. -/
  | request
  /-- In the loop over the frames of the body, with the bytes that are not yet a line. -/
  | body (buf : List UInt8)
  | returned
  deriving Repr, DecidableEq

/-- What the connection to the peer gives the task. -/
inductive PeerReply where
  | requestFailed
  | response (status : ℕ)
  | data (bytes : List UInt8)
  /-- A frame of the body without data. -/
  | trailers
  | bodyError
  | endOfBody
  deriving Repr, DecidableEq

namespace RunStream

/-- The bytes before the first newline, and those after it. -/
def nextLine (buf : List UInt8) : Option (List UInt8 × List UInt8) :=
  match buf.dropWhile (· != 10) with
  | [] => none
  | _ :: rest => some (buf.takeWhile (· != 10), rest)

/-- The task goes on at one of its awaits. -/
def resume : RunStream → PeerReply → Option RunStream
  | request, .requestFailed => some returned
  | request, .response status =>
    if 200 ≤ status ∧ status < 300 then some (body []) else some returned
  | body buf, reply =>
    -- the next frame is awaited when the buffer has no line left
    if (nextLine buf).isSome then none
    else
      match reply with
      | .data bytes => some (body (buf ++ bytes))
      | .trailers => some (body buf)
      | .bodyError | .endOfBody => some returned
      | _ => none
  | _, _ => none

/-- The task takes a line off its buffer; a line that does not parse is skipped. -/
def takeLine (fromSlice : List UInt8 → Option Json) : RunStream → Option (Option Json × RunStream)
  | body buf => (nextLine buf).map fun (line, rest) => (fromSlice line, body rest)
  | _ => none

/-- The task is at an await, where an abort takes effect. -/
def awaiting : RunStream → Bool
  | request => true
  | body buf => (nextLine buf).isNone
  | returned => false

end RunStream

/-- The hub with its upstream tasks. -/
structure PeerStreams where
  hub : PeerStreamHub := {}
  /-- The tasks of the upstreams, by their numbers. -/
  tasks : List RunStream := []

inductive PeerStreamsAction where
  | subscribe (peer topic : String) (senders : PeerSenders)
  | unsubscribe (peer topic : String)
  | resume (k : ℕ) (reply : PeerReply)
  | takeLine (k : ℕ)
  /-- An aborted task ends at its await. -/
  | cancelled (k : ℕ)

namespace PeerStreams

/-- Task `k` goes to `task`; one that returns drops its sender. -/
def setTask (s : PeerStreams) (k : ℕ) (task : RunStream) : Option PeerStreams :=
  let tasks := s.tasks.set k task
  match task with
  | .returned => (s.hub.step none (.ended k)).map fun hub => { hub, tasks }
  | _ => some { s with tasks }

def step (fromSlice : List UInt8 → Option Json) (s : PeerStreams) :
    PeerStreamsAction → Option PeerStreams
  | .subscribe peer topic senders =>
    (s.hub.subscribe peer topic senders).map fun (_, hub) =>
      { hub
        tasks :=
          if s.hub.upstreams.length < hub.upstreams.length then s.tasks ++ [.request] else s.tasks }
  | .unsubscribe peer topic => some { s with hub := s.hub.unsubscribe peer topic }
  | .resume k reply => s.tasks[k]?.bind fun task => (task.resume reply).bind (s.setTask k)
  | .takeLine k =>
    s.tasks[k]?.bind fun task => (task.takeLine fromSlice).bind fun (value, task) =>
      match value with
      | some v => (s.hub.step none (.line k v)).map fun hub => { hub, tasks := s.tasks.set k task }
      | none => some { s with tasks := s.tasks.set k task }
  | .cancelled k =>
    s.tasks[k]?.bind fun task =>
      if task.awaiting ∧ (s.hub.upstreams[k]?.any fun u => u.aborted) then s.setTask k .returned
      else none

def machine (fromSlice : List UInt8 → Option Json) : Machine PeerStreams PeerStreamsAction where
  init := {}
  step := step fromSlice

end PeerStreams

end Boardwalk
