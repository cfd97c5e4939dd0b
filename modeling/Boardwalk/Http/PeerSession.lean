import Boardwalk.Http.Ndjson
import Boardwalk.Http.Socket

/-!
# A forwarded subscription, from the hub's lines to the client

The way of the lines of a hub's event stream through a gateway: the body of the upstream response
arrives in frames, `run_stream` cuts it into lines and broadcasts their values, the
`forward_peer_subscription` of a connection renders them, and its writer sends them.  The steps are
those of `Http.PeerStreams` and `Http.Socket`; the other tasks of the connection share its two
channels.
-/

namespace Boardwalk

/-- The subscription that a frame is for: an event's or a `stream-gap`'s. -/
def OutboundMessage.subscription {δ : Type} : OutboundMessage δ → Option SubscriptionRef
  | event _ id .. => some id
  | streamGap _ id .. => some (.single id)
  | _ => none

structure PeerSession (ρ : Type) where
  socket : Socket ρ
  /-- The upstream tasks of the gateway. -/
  tasks : List RunStream
  /-- The bytes of the response body that have not arrived. -/
  incoming : List UInt8

inductive PeerSessionAction where
  /-- The upstream task is given anything but data. -/
  | resume (reply : PeerReply)
  /-- The next `n` bytes arrive. -/
  | frame (n : ℕ)
  | takeLine
  /-- The forwarder is polled. -/
  | poll (now : ℤ)
  /-- Another task of the connection tries to send, for no subscription or for another one. -/
  | other (terminal : Bool) (msg : OutboundMessage Json)
  | write (sent : Bool)

namespace PeerSession

variable {ρ : Type}

def streams (s : PeerSession ρ) : PeerStreams := ⟨s.socket.peerStreams, s.tasks⟩

def withStreams (s : PeerSession ρ) (p : PeerStreams) : PeerSession ρ :=
  { s with socket := { s.socket with peerStreams := p.hub }, tasks := p.tasks }

/-- A `try_send` of another task. -/
def push (s : Socket ρ) (terminal : Bool) (msg : OutboundMessage Json) : Socket ρ :=
  if terminal then
    match s.terminal.trySend msg with
    | .ok terminal => { s with terminal }
    | .error _ => s
  else
    match s.out.trySend msg with
    | .ok out => { s with out }
    | .error _ => s

/-- The session of the forwarder `j`, whose id is `appId`, on the upstream `k`. -/
def step (fromSlice : List UInt8 → Option Json) (k j : ℕ) (appId : UInt64) (s : PeerSession ρ) :
    PeerSessionAction → Option (PeerSession ρ)
  | .resume reply =>
    match reply with
    | .data _ => none
    -- the body ends after its last byte, or with an error
    | .endOfBody =>
      if s.incoming = [] then
        (s.streams.step fromSlice (.resume k .endOfBody)).map s.withStreams
      else none
    | reply => (s.streams.step fromSlice (.resume k reply)).map s.withStreams
  | .frame n =>
    (s.streams.step fromSlice (.resume k (.data (s.incoming.take n)))).map fun p =>
      { s.withStreams p with incoming := s.incoming.drop n }
  | .takeLine => (s.streams.step fromSlice (.takeLine k)).map s.withStreams
  | .poll now => (s.socket.pollPeer j now).map fun socket => { s with socket }
  | .other terminal msg =>
    if msg.subscription = some (.single appId) then none
    else some { s with socket := push s.socket terminal msg }
  | .write sent => (s.socket.write sent).map fun socket => { s with socket }

def machine (fromSlice : List UInt8 → Option Json) (k j : ℕ) (appId : UInt64)
    (init : PeerSession ρ) : Machine (PeerSession ρ) PeerSessionAction where
  init := init
  step := step fromSlice k j appId

end PeerSession

/-- The response body of a list of lines; `toVec` writes the text of a value. -/
def ndjsonBody (toVec : Json → List UInt8) (lines : List (NdjsonLine Json)) : List UInt8 :=
  lines.flatMap fun line => toVec line.toJson ++ [10]

end Boardwalk
