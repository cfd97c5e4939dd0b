import Boardwalk.Http.Socket

/-!
# The connections of a server

Any number of WebSocket connections (`Http.Socket`) on one server.  They share its `AppState`: the
bus, the hub of peer streams and the set of connected peers, which a step of a connection takes as
they are and leaves to the next one.  The hub is used by no one else, so its subscribers are those
of the connections.
-/

namespace Boardwalk

/-- `PeerStreamHub::refcount`. -/
def PeerStreamHub.refcount (hub : PeerStreamHub) (peer topic : String) : Option ℕ :=
  (hub.inner.get? (peer, topic)).map fun entry => entry.refcount

/-- The steps of the connection itself. -/
def SocketAction.own {ρ : Type} : SocketAction ρ → Bool
  | .bus _ | .hub _ | .connected _ => false
  | _ => true

structure Sockets (ρ : Type) where
  app : AppState ρ
  conns : List (Socket ρ) := []

inductive SocketsAction (ρ : Type) where
  /-- A client connects. -/
  | upgrade
  /-- A task of connection `i` takes a step. -/
  | conn (i : ℕ) (a : SocketAction ρ)
  /-- A publisher, or a subscriber that is no connection. -/
  | bus (a : BusAction Json (TopicPattern ρ))
  /-- The task of upstream `k` broadcasts a line. -/
  | line (k : ℕ) (value : Json)
  /-- The task of upstream `k` returns or is cancelled. -/
  | ended (k : ℕ)
  /-- Peers connect or go away. -/
  | connected (senders : PeerSenders)

namespace Sockets

variable {ρ κ : Type} [DecidableEq κ] (ops : SocketOps ρ κ)

def withHub (s : Sockets ρ) (peerStreams : PeerStreamHub) : Sockets ρ :=
  { s with app := { s.app with peerStreams } }

def step (s : Sockets ρ) : SocketsAction ρ → Option (Sockets ρ)
  | .upgrade => some { s with conns := s.conns ++ [{ s.app with }] }
  | .conn i a =>
    if a.own then
      s.conns[i]?.bind fun c => (Socket.step ops { c with toAppState := s.app } a).map fun c =>
        { app := c.toAppState, conns := s.conns.set i c }
    else none
  | .bus a =>
    if s.conns.all fun c => c.othersMay a then
      (s.app.bus.step ops.bus a).map fun bus => { s with app := { s.app with bus } }
    else none
  | .line k value => (s.app.peerStreams.step none (.line k value)).map s.withHub
  | .ended k => (s.app.peerStreams.step none (.ended k)).map s.withHub
  | .connected senders =>
    if s.app.peerSenders.isSome then
      some { s with app := { s.app with peerSenders := some senders } }
    else none

/-- The server `app` before the first connection. -/
def machine (app : AppState ρ) : Machine (Sockets ρ) (SocketsAction ρ) where
  init := { app }
  step := step ops

end Sockets

end Boardwalk
