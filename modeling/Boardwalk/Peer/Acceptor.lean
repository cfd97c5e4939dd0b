import Boardwalk.Http.Headers
import Boardwalk.Lib.Machine
import Boardwalk.Lib.Table
import Boardwalk.Peer.Capabilities

/-!
# The peer acceptors of a gateway

`PeerAcceptors` of `peer.rs` with the `POST /peers/{name}` handler of `http/routes.rs` that feeds
it.  Three maps keyed by the route name record a connection: `inner` its acceptor task, `contexts`
its admission, `senders` its HTTP/2 sender.  They are under three locks, and four kinds of task
take them:

* the request handler `peers_upgrade`, which asks `has_active_peer`, upgrades and ends in
  `on_upgraded` by storing the task's handle;
* the acceptor task that `on_upgraded` spawns, which records the context, runs `drive_acceptor` and
  cleans up;
* the task that `drive_acceptor` spawns to drive the HTTP/2 connection, which takes the entries of
  its route out when the connection ends;
* the readers.

A connection is a number.  The maps hold the number of the connection whose handle, admission or
sender was inserted; the records themselves are in `conns`.  One step of the machine is what a task
does under one acquisition of a lock, or one await without a lock.  Two guards are held across an
await and are part of the state: the acceptor task waits for `senders` with `inner` locked, and the
connection task waits for `contexts` with `senders` locked.  A task that panics is gone without a
trace in the maps; what the parse of a URI comes to is a parameter (`HttpOps`).
-/

namespace Boardwalk

/-- The name of a connection in the model. -/
abbrev ConnId := ℕ

/-- Where the request handler of a connection is. -/
inductive RequestPhase where
  /-- About to look into `senders` (`has_active_peer`). -/
  | checkSenders
  /-- About to look into `inner` (`has_active_peer`). -/
  | checkInner
  /-- Waits for the upgrade. -/
  | upgrading
  /-- In `on_upgraded`: the task is spawned, its handle is not yet stored. -/
  | storing
  | stored
  /-- Refused with `409 Conflict`. -/
  | refused
  /-- The upgrade failed. -/
  | upgradeFailed
  deriving Repr, DecidableEq

/-- Where the acceptor task of a connection is. -/
inductive TaskPhase where
  | unspawned
  /-- About to record the context. -/
  | recording
  /-- `drive_acceptor`: waits for the HTTP/2 handshake. -/
  | handshaking
  /-- `drive_acceptor`: waits for the answer to `/_initiate_peer`. -/
  | confirming
  /-- `drive_acceptor`: confirmed, about to insert the sender. -/
  | registering
  /-- `drive_acceptor` returned `Ok`. -/
  | succeeded
  /-- `drive_acceptor` returned an error: about to take the context out. -/
  | failing
  /-- The context is out, the failure is not yet recorded. -/
  | failed
  /-- `drive_acceptor` panicked: the confirmation request could not be built. -/
  | panicked
  /-- About to lock `inner`. -/
  | finishing (driveSucceeded : Bool)
  /-- Holds `inner`, about to lock `senders`. -/
  | checking (driveSucceeded : Bool)
  | finished (driveSucceeded : Bool)
  deriving Repr, DecidableEq

/-- Where the task that drives the HTTP/2 connection is. -/
inductive ConnPhase where
  | unspawned
  /-- The connection is open. -/
  | running
  /-- The connection ended, the cleanup has not begun. -/
  | ended
  /-- Holds `senders`, about to lock `contexts`. -/
  | cleaning
  | finished
  deriving Repr, DecidableEq

/-- `PeerConnectionStatus`, as far as the acceptor writes it. -/
inductive PeerConnectionStatus where
  | connected
  | disconnected
  | failed
  deriving Repr, DecidableEq

/-- An admitted connection and its three tasks. -/
structure PeerConn where
  admitted : AdmittedPeerConnection
  request : RequestPhase := .checkSenders
  task : TaskPhase := .unspawned
  conn : ConnPhase := .unspawned
  deriving Repr, DecidableEq

/-- The key under which the connection stands in the maps.  The path segment that `peers_upgrade`
asks about and the route name of the admission are the same string. -/
def PeerConn.route (p : PeerConn) : String := p.admitted.routeName

structure PeerAcceptors where
  inner : Table String ConnId := .empty
  senders : Table String ConnId := .empty
  contexts : Table String ConnId := .empty
  confirmations : UInt64 := 0
  /-- The acceptor task that holds the guard of `inner`. -/
  innerGuard : Option ConnId := none
  /-- The connection task that holds the guard of `senders`. -/
  sendersGuard : Option ConnId := none
  /-- The calls of `write_peer`, in order. -/
  written : List (ConnId × PeerConnectionStatus) := []
  conns : Table ConnId PeerConn := .empty

/-- What happens next: a new admitted connection, or the next step of one of a connection's tasks.
`ok` is the outcome of what the task waits for, where it waits for something outside. -/
inductive AcceptorAction where
  | dial (c : ConnId) (admitted : AdmittedPeerConnection)
  | request (c : ConnId) (ok : Bool)
  | task (c : ConnId) (ok : Bool)
  | conn (c : ConnId)
  deriving Repr, DecidableEq

/-- The confirmation that `drive_acceptor` sends. -/
def confirmationRequest (ops : HttpOps) (peerName : String) (connectionId : Uuid) :
    Option (HttpRequest Unit) :=
  expectGet ops ("http://" ++ tunnelHost peerName ++ "/_initiate_peer/" ++ connectionId.toText)

/-- The confirmation request of a connection. -/
def PeerConn.confirmation (ops : HttpOps) (p : PeerConn) : Option (HttpRequest Unit) :=
  confirmationRequest ops p.route p.admitted.connectionId

namespace PeerAcceptors

/-! ### The readers -/

/-- `PeerSenders::sender`: the connection whose sender is returned. -/
def sender (s : PeerAcceptors) (name : String) : Option ConnId := s.senders.get? name

/-- The connection whose admission stands in `contexts`. -/
def contextConn (s : PeerAcceptors) (name : String) : Option ConnId := s.contexts.get? name

/-- `PeerSenders::peer_context`. -/
def peerContext (s : PeerAcceptors) (name : String) : Option AdmittedPeerConnection :=
  (s.contextConn name).bind fun c => (s.conns.get? c).map PeerConn.admitted

/-- `PeerSenders::has_active_peer`, for a caller that finds both locks in the same state. -/
def hasActivePeer (s : PeerAcceptors) (name : String) : Bool :=
  s.senders.containsKey name || s.inner.containsKey name

/-- What a `PeerConnectionStatusRecord` on route `r` says of the connection, if an entry of `written`
is one. -/
def routeRecord (s : PeerAcceptors) (r : String) :
    ConnId × PeerConnectionStatus → Option (Uuid × PeerConnectionStatus)
  | (c, status) => (s.conns.get? c).bind fun p =>
    if p.route = r then some (p.admitted.connectionId, status) else none

/-- `latest_by_route` of the status repository, where `put_latest` stores a record under its
route. -/
def latestByRoute (s : PeerAcceptors) (r : String) : Option (Uuid × PeerConnectionStatus) :=
  (s.written.filterMap (s.routeRecord r)).getLast?

/-! ### The tasks -/

/-- Replaces the record of connection `c`. -/
def setConn (s : PeerAcceptors) (c : ConnId) (p : PeerConn) : PeerAcceptors :=
  { s with conns := s.conns.insert c p }

/-- Runs a step that needs the lock of `inner`. -/
def withInner (s : PeerAcceptors) (s' : PeerAcceptors) : Option PeerAcceptors :=
  if s.innerGuard = none then some s' else none

/-- Runs a step that needs the lock of `senders`. -/
def withSenders (s : PeerAcceptors) (s' : PeerAcceptors) : Option PeerAcceptors :=
  if s.sendersGuard = none then some s' else none

/-- `write_peer`. -/
def writePeer (s : PeerAcceptors) (c : ConnId) (status : PeerConnectionStatus) : PeerAcceptors :=
  { s with written := s.written ++ [(c, status)] }

/-- `should_record_disconnected`. -/
def shouldRecordDisconnected (driveSucceeded senderActive : Bool) : Bool :=
  driveSucceeded && !senderActive

/-- `peers_upgrade` after the admission, and the end of `on_upgraded`. -/
def peersUpgrade (s : PeerAcceptors) (c : ConnId) (p : PeerConn) (ok : Bool) :
    Option PeerAcceptors :=
  match p.request with
  | .checkSenders =>
    s.withSenders <| s.setConn c
      { p with request := if s.senders.containsKey p.route then .refused else .checkInner }
  | .checkInner =>
    s.withInner <| s.setConn c
      { p with request := if s.inner.containsKey p.route then .refused else .upgrading }
  | .upgrading =>
    some <| s.setConn c <|
      if ok then { p with request := .storing, task := .recording }
      else { p with request := .upgradeFailed }
  | .storing =>
    s.withInner <| { s with inner := s.inner.insert p.route c }.setConn c
      { p with request := .stored }
  | .stored | .refused | .upgradeFailed => none

/-- The task spawned by `on_upgraded`, with `drive_acceptor` inlined. -/
def acceptorTask (ops : HttpOps) (s : PeerAcceptors) (c : ConnId) (p : PeerConn) (ok : Bool) :
    Option PeerAcceptors :=
  match p.task with
  | .unspawned | .panicked | .finished _ => none
  | .recording =>
    some <| { s with contexts := s.contexts.insert p.route c }.setConn c
      { p with task := .handshaking }
  | .handshaking =>
    some <| s.setConn c <|
      if ok then
        -- the task that drives the connection is spawned before the request is built
        { p with
          task := if (p.confirmation ops).isSome then .confirming else .panicked
          conn := .running }
      else { p with task := .failing }
  | .confirming =>
    some <| s.setConn c { p with task := if ok then .registering else .failing }
  | .registering =>
    s.withSenders <| { s with senders := s.senders.insert p.route c }.setConn c
      { p with task := .succeeded }
  | .succeeded =>
    some <| { s.writePeer c .connected with confirmations := s.confirmations + 1 }.setConn c
      { p with task := .finishing true }
  | .failing =>
    some <| { s with contexts := s.contexts.remove p.route }.setConn c { p with task := .failed }
  | .failed =>
    some <| (s.writePeer c .failed).setConn c { p with task := .finishing false }
  | .finishing driveSucceeded =>
    s.withInner <| { s with inner := s.inner.remove p.route, innerGuard := some c }.setConn c
      { p with task := .checking driveSucceeded }
  | .checking driveSucceeded =>
    s.withSenders <|
      { if shouldRecordDisconnected driveSucceeded (s.senders.containsKey p.route) then
          s.writePeer c .disconnected else s with innerGuard := none }.setConn c
        { p with task := .finished driveSucceeded }

/-- The task spawned by `drive_acceptor`. -/
def connTask (s : PeerAcceptors) (c : ConnId) (p : PeerConn) : Option PeerAcceptors :=
  match p.conn with
  | .unspawned | .finished => none
  | .running => some <| s.setConn c { p with conn := .ended }
  | .ended =>
    s.withSenders <| { s with senders := s.senders.remove p.route, sendersGuard := some c }.setConn
      c { p with conn := .cleaning }
  | .cleaning =>
    some <| { s with contexts := s.contexts.remove p.route, sendersGuard := none }.setConn c
      { p with conn := .finished }

/-- One step of the gateway. -/
def step (ops : HttpOps) (s : PeerAcceptors) : AcceptorAction → Option PeerAcceptors
  | .dial c admitted =>
    if s.conns.get? c = none then some (s.setConn c { admitted }) else none
  | .request c ok => (s.conns.get? c).bind fun p => s.peersUpgrade c p ok
  | .task c ok => (s.conns.get? c).bind fun p => s.acceptorTask ops c p ok
  | .conn c => (s.conns.get? c).bind fun p => s.connTask c p

/-- The gateway, from its start. -/
def machine (ops : HttpOps) : Machine PeerAcceptors AcceptorAction where
  init := {}
  step := step ops

end PeerAcceptors

end Boardwalk
