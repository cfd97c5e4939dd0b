import Boardwalk.Http.Socket

/-!
# One poll of a peer forwarder

`forward_peer_subscription` turns each line it receives into an event frame, and ends when it falls
behind, finds the outbound queue full or closed, or finds its channel closed.
-/

namespace Boardwalk.Socket

variable {ρ : Type}

/-- What one poll of the peer forwarder `f` can do. -/
inductive PeerPolled (s : Socket ρ) (k : ℕ) (f : PeerForwarder) (now : ℤ) (t : Socket ρ) :
    Prop where
  | value (v : Json) (next : ℕ) (at_recv : f.phase = .recv)
      (recv : s.peerStreams.recv f.upstream f.next = (.value v, next))
      (next_eq : t = s.setPeer k
        { f with next, phase := .send (renderPeerEvent now f.appId f.fallbackTopic v) })
  | lagged (skipped next : ℕ) (at_recv : f.phase = .recv)
      (recv : s.peerStreams.recv f.upstream f.next = (.lagged skipped, next))
      (next_eq : t = s.setPeer k
        { f with next, phase := .gap ("broadcast_lag(" ++ toString skipped ++ ")") })
  | closed (at_recv : f.phase = .recv) (next_eq : t = s.setPeer k { f with phase := .closed })
  | sent (msg : OutboundMessage Json) (out : Mpsc (OutboundMessage Json))
      (at_send : f.phase = .send msg) (room : s.out.trySend msg = .ok out)
      (next_eq : t = { s with out }.setPeer k { f with phase := .recv })
  | full (msg : OutboundMessage Json) (at_send : f.phase = .send msg)
      (full : s.out.trySend msg = .error .full)
      (next_eq : t = s.setPeer k { f with phase := .gap "ws_outbound_full" })
  /-- The socket is gone. -/
  | hangup (msg : OutboundMessage Json) (at_send : f.phase = .send msg)
      (closed : s.out.trySend msg = .error .closed)
      (next_eq : t = s.setPeer k { f with phase := .done })
  /-- The terminal `stream-gap` is tried. -/
  | gap (reason : String) (terminal : Mpsc (OutboundMessage Json)) (at_gap : f.phase = .gap reason)
      (next_eq : t = { s with terminal }.setPeer k { f with phase := .report })
  /-- The error of a closed stream is tried. -/
  | error (out : Mpsc (OutboundMessage Json)) (at_closed : f.phase = .closed)
      (next_eq : t = { s with out }.setPeer k { f with phase := .report })
  | report (at_report : f.phase = .report)
      (next_eq : t = { s with
        fwdEvents := s.fwdEvents ++ [ForwarderEvent.lagTerminated f.appId] }.setPeer k
          { f with phase := .done })

variable {s t : Socket ρ} {k : ℕ} {now : ℤ}

theorem peerPolled_of_pollPeer (h : s.pollPeer k now = some t) :
    ∃ f, s.peers[k]? = some f ∧ PeerPolled s k f now t := by
  unfold pollPeer at h
  -- one case for each phase, in the order of the source's loop
  split at h
  · cases h
  rename_i f hk
  refine ⟨f, hk, ?_⟩
  split at h
  · rename_i hp
    split at h
    · rename_i v next hr; exact .value v next hp hr (Option.some.inj h).symm
    · rename_i skipped next hr; exact .lagged skipped next hp hr (Option.some.inj h).symm
    · exact .closed hp (Option.some.inj h).symm
    · cases h
  · rename_i msg hp
    split at h
    · rename_i out hsend; exact .sent msg out hp hsend (Option.some.inj h).symm
    · rename_i hsend; exact .full msg hp hsend (Option.some.inj h).symm
    · rename_i hsend; exact .hangup msg hp hsend (Option.some.inj h).symm
  · rename_i reason hp
    split at h
    · rename_i terminal _; exact .gap reason terminal hp (Option.some.inj h).symm
    · exact .gap reason s.terminal hp (Option.some.inj h).symm
  · rename_i hp
    dsimp only at h
    split at h
    · rename_i out _; exact .error out hp (Option.some.inj h).symm
    · exact .error s.out hp (Option.some.inj h).symm
  · rename_i hp; exact .report hp (Option.some.inj h).symm
  · cases h

/-- A cancelled forwarder was aborted at its receive. -/
theorem cancelPeer_cases (h : s.cancelPeer k = some t) : ∃ f, s.peers[k]? = some f ∧
    f.aborted = true ∧ t = s.setPeer k { f with phase := .done } := by
  unfold cancelPeer at h
  split at h
  · cases h
  rename_i f hk
  split at h
  · rename_i haborted
    exact ⟨f, hk, haborted, (Option.some.inj h).symm⟩
  · cases h

end Boardwalk.Socket
