import Boardwalk.Events.Spec.Notice
import Boardwalk.Http.Ws

/-!
# What a WebSocket forwarder does with the envelopes of its queue

`FwdInv` says where every envelope is that the bus enqueued: sent to `out_tx`, dropped, in the
forwarder's hand, or still in the queue.  The forwarder takes the queue in order, and before its
`slow_fut` has completed it drops nothing.

`sent_eq_enqueued_iff` settles what happens to a subscription that ends without overflow.  The outer
select, when it finds the one-shot's sender dropped, goes on draining the queue; the inner one,
which holds an envelope, drops that envelope.  So the forwarder has sent exactly what was enqueued
iff it never polled the inner select's notice after the sender was dropped and before the outer
select saw it.
-/

namespace Boardwalk

/-- The envelope the forwarder has taken and not yet sent. -/
def LocalForwarder.inHand {δ : Type} (f : LocalForwarder δ) : List (EventEnvelope δ) :=
  match f.phase with
  | .innerNotice env | .innerSend env => [env]
  | _ => []

/-- The forwarder is at the inner select's notice. -/
def LocalForwarder.atInnerNotice {δ : Type} (f : LocalForwarder δ) : Bool :=
  match f.phase with
  | .innerNotice _ => true
  | _ => false

/-- The loop is over. -/
def LocalForwarder.Ended {δ : Type} (f : LocalForwarder δ) : Prop :=
  match f.phase with
  | .exiting | .reported | .done => True
  | _ => False

/-- `LocalTerminated` has been reported. -/
def LocalForwarder.Reported {δ : Type} (f : LocalForwarder δ) : Prop :=
  match f.phase with
  | .reported | .done => True
  | _ => False

namespace WsConn

variable {δ τ κ : Type} [DecidableEq κ]

/-- The forwarder `f` of `w` accounts for what it took from its queue. -/
structure FwdSound (w : WsConn δ τ) (f : LocalForwarder δ) : Prop where
  opts : ∃ opts, (w.bus.hist f.sub).opts = some opts ∧ opts.slowConsumerPolicy = .disconnect
  names : w.bus.NamesEnqueued f.sub
  taken : (w.bus.mpsc f.sub).received.length = f.sent.length + f.lost.length + f.inHand.length
  inOrder : f.lost = [] → (w.bus.mpsc f.sub).received = f.sent ++ f.inHand
  nothingLost : ¬ f.Ended → f.slowTerminated = false → f.lost = []
  ended : f.Ended → w.out.rxAlive = false ∨ (∃ n, w.bus.notify f.sub = .sent n) ∨
    (w.bus.mpsc f.sub).buf = [] ∧ w.bus.senderAlive f.sub = false

structure FwdInv (w : WsConn δ τ) : Prop where
  wellFormed : w.bus.WellFormed
  sound : ∀ f, w.fwd = some f → FwdSound w f

theorem fwdInv_init (ops : BusOps δ τ κ) (rfc3339 : OffsetDateTime → Option String)
    (replayCapacity : ℕ) : FwdInv (machine ops rfc3339 replayCapacity).init where
  wellFormed := Bus.wellFormed_init ops replayCapacity
  sound f hf := by cases hf

/-! ### The steps of a connection, inverted -/

section Inversion

variable {w w' : WsConn δ τ} {ops : BusOps δ τ κ} {rfc3339 : OffsetDateTime → Option String}

theorem step_bus {a : BusAction δ τ} (hs : step ops rfc3339 w (.bus a) = some w') :
    w.othersMay a = true ∧ ∃ bus, w.bus.step ops a = some bus ∧ w' = { w with bus } := by
  simp only [step] at hs
  split at hs
  · rename_i hmay
    obtain ⟨bus, hbus, rfl⟩ := Option.map_eq_some_iff.mp hs
    exact ⟨hmay, bus, hbus, rfl⟩
  · cases hs

/-- A connection has at most one forwarder here; it is spawned if the subscription was created. -/
theorem step_subscribe {appId : UInt64} {topic : τ} {limit outboundCapacity : Option ℕ}
    (hs : step ops rfc3339 w (.subscribe appId topic limit outboundCapacity) = some w') :
    w.fwd = none ∧ ∃ bus, w.bus.step ops (.subscribe topic { limit, outboundCapacity }) = some bus ∧
      w' = { w with
        bus
        fwd := (bus.subs w.bus.nextId).map fun _ => { appId, sub := w.bus.nextId } } := by
  simp only [step] at hs
  split at hs
  · rename_i hnone
    obtain ⟨bus, hbus, rfl⟩ := Option.map_eq_some_iff.mp hs
    exact ⟨Option.isNone_iff_eq_none.mp hnone, bus, hbus, rfl⟩
  · cases hs

/-- The writer only takes from the two outbound channels. -/
theorem step_write (hs : step ops rfc3339 w .write = some w') :
    ∃ out terminal, w' = { w with out, terminal } ∧ out.rxAlive = w.out.rxAlive := by
  simp only [step] at hs
  split at hs
  · obtain rfl := Option.some.inj hs
    exact ⟨_, _, rfl, rfl⟩
  · obtain ⟨⟨msg, out⟩, hr, rfl⟩ := Option.map_eq_some_iff.mp hs
    exact ⟨_, _, rfl, (Mpsc.recv_some hr).2.2⟩

end Inversion

/-! ### Steps of the bus -/

section BusSteps

variable {w : WsConn δ τ} {f : LocalForwarder δ} {bus : Bus δ τ} {ops : BusOps δ τ κ}
  {a : BusAction δ τ}

theorem FwdSound.opts_mpsc (hf : FwdSound w f) : ∃ opts,
    (w.bus.hist f.sub).opts = some opts ∧ opts.slowConsumerPolicy.isMpsc = true := by
  obtain ⟨opts, hopts, hpol⟩ := hf.opts
  exact ⟨opts, hopts, by rw [hpol]; rfl⟩

theorem FwdSound.sub_ne_nextId (hw : w.bus.WellFormed) (hf : FwdSound w f) :
    f.sub ≠ w.bus.nextId := by
  obtain ⟨opts, hopts, -⟩ := hf.opts
  exact (hw.lt_nextId_of_opts hopts).ne

/-- A step of the bus that does not take from the forwarder's queue. -/
theorem FwdSound.bus_step (hw : w.bus.WellFormed) (hf : FwdSound w f) (ha : a ≠ .recv f.sub)
    (hs : w.bus.step ops a = some bus) : FwdSound { w with bus } f := by
  obtain ⟨opts, hopts, hmpsc⟩ := hf.opts_mpsc
  obtain ⟨opts', hopts', hpol⟩ := hf.opts
  have heff := hw.effect hopts hs
  have hrec := Bus.received_of_step (hf.sub_ne_nextId hw) ha hs
  refine ⟨⟨opts', hw.opts_step hopts' hs, hpol⟩,
    Bus.namesEnqueued_step hw hopts hmpsc hf.names hs, ?_, ?_, hf.nothingLost, ?_⟩
  · rw [hrec]; exact hf.taken
  · rw [hrec]; exact hf.inOrder
  · intro hend
    rcases hf.ended hend with hout | ⟨n, hn⟩ | ⟨hbuf, hgone⟩
    · exact .inl hout
    · exact .inr (.inl ⟨n, Bus.notify_sent_of_effect heff hn⟩)
    · -- nothing was enqueued and nothing was taken, so the queue is still empty
      obtain ⟨hgone', henq⟩ := hw.senderGone heff hgone
      refine .inr (.inr ⟨?_, hgone'⟩)
      rw [Mpsc.enqueued, Mpsc.enqueued, hrec, hbuf] at henq
      exact List.append_cancel_left henq

end BusSteps

/-! ### Polls -/

/-- What one poll of the forwarder `f` can do. -/
inductive PollEffect (rfc3339 : OffsetDateTime → Option String) (w : WsConn δ τ)
    (f : LocalForwarder δ) (w' : WsConn δ τ) : Prop where
  /-- A branch is not ready or disabled. -/
  | wait (phase : ForwarderPhase δ) (next : w' = w.setFwd { f with phase })
      (hand : { f with phase }.inHand = f.inHand) (running : ¬ f.Ended ∧ ¬ { f with phase }.Ended)
  /-- The outer select finds the one-shot's sender dropped. -/
  | seen (at_outer : f.phase = .outerNotice) (dropped : w.bus.notify f.sub = .dropped)
      (next : w' = w.setFwd { f with slowTerminated := true })
  | take (env : EventEnvelope δ) (bus : Bus δ τ) (at_recv : f.phase = .outerRecv)
      (recv : w.bus.recv f.sub = some (env, bus))
      (next : w' = { w with bus }.setFwd { f with phase := .innerNotice env })
  | send (env : EventEnvelope δ) (out : Mpsc (OutboundMessage δ))
      (at_send : f.phase = .innerSend env)
      (sent : w.out.trySend (renderEventForWs rfc3339 f.appId env) = .ok out)
      (next : w' = { w with out }.setFwd { f with phase := .outerNotice, sent := f.sent ++ [env] })
  /-- The inner select finds the one-shot's sender dropped. -/
  | drop (env : EventEnvelope δ) (at_inner : f.phase = .innerNotice env)
      (open_ : f.slowTerminated = false) (dropped : w.bus.notify f.sub = .dropped)
      (next : w' = w.setFwd
        { f with slowTerminated := true, phase := .outerNotice, lost := f.lost ++ [env] })
  /-- A select finds the notice; the `stream-gap` may not fit into the terminal channel. -/
  | gap (now : ℤ) (n : SlowConsumerNotice)
      (at_notice : f.phase = .outerNotice ∨ ∃ env, f.phase = .innerNotice env)
      (open_ : f.slowTerminated = false) (fired : w.bus.notify f.sub = .sent n)
      (next : w' = w.emitGap { f with lost := f.lost ++ f.inHand } now n)
  /-- The socket is gone. -/
  | hangup (env : EventEnvelope δ) (at_send : f.phase = .innerSend env)
      (closed : w.out.rxAlive = false)
      (next : w' = w.setFwd { f with phase := .exiting, lost := f.lost ++ [env] })
  /-- The queue is empty and has no sender. -/
  | finish (at_recv : f.phase = .outerRecv) (empty : w.bus.recv f.sub = none)
      (gone : w.bus.senderAlive f.sub = false) (next : w' = w.setFwd { f with phase := .exiting })
  | report (at_exit : f.phase = .exiting)
      (next : w' = { w with
        fwdEvents := w.fwdEvents ++ [ForwarderEvent.localTerminated f.appId] }.setFwd
          { f with phase := .reported })
  | dropRx (at_reported : f.phase = .reported)
      (next : w' = { w with bus := w.bus.dropRx f.sub }.setFwd { f with phase := .done })

theorem poll_effect {w w' : WsConn δ τ} {f : LocalForwarder δ}
    {rfc3339 : OffsetDateTime → Option String} {now : ℤ}
    (hs : w.poll rfc3339 f now = some w') : PollEffect rfc3339 w f w' := by
  unfold poll at hs
  split at hs
  case h_1 hp =>
    split at hs
    · obtain rfl := Option.some.inj hs
      exact .wait .outerRecv rfl (by simp [LocalForwarder.inHand, hp])
        (by simp [LocalForwarder.Ended, hp])
    · rename_i hslow
      have hslow' : f.slowTerminated = false := by simpa using hslow
      split at hs
      · obtain rfl := Option.some.inj hs
        exact .wait .outerRecv rfl (by simp [LocalForwarder.inHand, hp])
          (by simp [LocalForwarder.Ended, hp])
      · rename_i n hn
        obtain rfl := Option.some.inj hs
        have hhand : f.inHand = [] := by simp [LocalForwarder.inHand, hp]
        exact .gap now n (.inl hp) hslow' hn (by rw [hhand, List.append_nil])
      · rename_i hn
        obtain rfl := Option.some.inj hs
        exact .seen hp hn rfl
  case h_2 hp =>
    -- `recv` of an empty queue is pending while a sender exists, and `None` after that
    split at hs
    · rename_i env bus hrecv
      obtain rfl := Option.some.inj hs
      exact .take env bus hp hrecv rfl
    · rename_i hrecv
      split at hs
      · obtain rfl := Option.some.inj hs
        exact .wait .outerNotice rfl (by simp [LocalForwarder.inHand, hp])
          (by simp [LocalForwarder.Ended, hp])
      · rename_i halive
        obtain rfl := Option.some.inj hs
        exact .finish hp hrecv (by simpa using halive) rfl
  case h_3 env hp =>
    split at hs
    · obtain rfl := Option.some.inj hs
      exact .wait (.innerSend env) rfl (by simp [LocalForwarder.inHand, hp])
        (by simp [LocalForwarder.Ended, hp])
    · rename_i hslow
      have hslow' : f.slowTerminated = false := by simpa using hslow
      split at hs
      · obtain rfl := Option.some.inj hs
        exact .wait (.innerSend env) rfl (by simp [LocalForwarder.inHand, hp])
          (by simp [LocalForwarder.Ended, hp])
      · rename_i n hn
        obtain rfl := Option.some.inj hs
        exact .gap now n (.inr ⟨env, hp⟩) hslow' hn (by simp [LocalForwarder.inHand, hp])
      · rename_i hn
        obtain rfl := Option.some.inj hs
        exact .drop env hp hslow' hn rfl
  case h_4 env hp =>
    split at hs
    · rename_i out hout
      obtain rfl := Option.some.inj hs
      exact .send env out hp hout rfl
    · obtain rfl := Option.some.inj hs
      exact .wait (.innerNotice env) rfl (by simp [LocalForwarder.inHand, hp])
        (by simp [LocalForwarder.Ended, hp])
    · rename_i hout
      obtain rfl := Option.some.inj hs
      exact .hangup env hp (Mpsc.rxAlive_of_closed hout) rfl
  case h_5 hp =>
    obtain rfl := Option.some.inj hs
    exact .report hp rfl
  case h_6 hp =>
    obtain rfl := Option.some.inj hs
    exact .dropRx hp rfl
  case h_7 => cases hs

section Polls

variable {w w' : WsConn δ τ} {f : LocalForwarder δ} {ops : BusOps δ τ κ}
  {rfc3339 : OffsetDateTime → Option String}

/-- The forwarder moves on without taking, sending or dropping an envelope. -/
theorem FwdSound.move (hf : FwdSound w f) (f' : LocalForwarder δ) (hsub : f'.sub = f.sub)
    (hsent : f'.sent = f.sent) (hlost : f'.lost = f.lost) (hhand : f'.inHand = f.inHand)
    (hrun : ¬ f'.Ended → ¬ f.Ended ∧ (f'.slowTerminated = false → f.slowTerminated = false))
    (hend : f'.Ended → w.out.rxAlive = false ∨ (∃ n, w.bus.notify f.sub = .sent n) ∨
      (w.bus.mpsc f.sub).buf = [] ∧ w.bus.senderAlive f.sub = false) : FwdSound w f' where
  opts := by rw [hsub]; exact hf.opts
  names := by rw [hsub]; exact hf.names
  taken := by rw [hsub, hsent, hlost, hhand]; exact hf.taken
  inOrder h := by rw [hsub, hsent, hhand]; exact hf.inOrder (hlost ▸ h)
  nothingLost h ht := by
    obtain ⟨hne, hslow⟩ := hrun h
    rw [hlost]
    exact hf.nothingLost hne (hslow ht)
  ended h := by rw [hsub]; exact hend h

/-- The forwarder drops what it has in hand, and either it has seen `slow_fut` complete or it
ends. -/
theorem FwdSound.drop (hf : FwdSound w f) (f' : LocalForwarder δ) (hsub : f'.sub = f.sub)
    (hsent : f'.sent = f.sent) (hlost : f'.lost = f.lost ++ f.inHand) (hhand : f'.inHand = [])
    (hrun : ¬ f'.Ended → f'.slowTerminated = true)
    (hend : f'.Ended → w.out.rxAlive = false ∨ ∃ n, w.bus.notify f.sub = .sent n) :
    FwdSound w f' where
  opts := by rw [hsub]; exact hf.opts
  names := by rw [hsub]; exact hf.names
  taken := by
    have := hf.taken
    rw [hsub, hsent, hlost, hhand]
    simp only [List.length_append, List.length_nil]
    omega
  inOrder h := by
    rw [hlost, List.append_eq_nil_iff] at h
    have := hf.inOrder h.1
    rw [hsub, hsent, hhand, this, h.2]
  nothingLost h ht := by rw [hrun h] at ht; cases ht
  ended h := by
    rw [hsub]
    exact (hend h).imp_right .inl

theorem FwdSound.of_bus_out {w₁ : WsConn δ τ} (hf : FwdSound w₁ f) (hbus : w.bus = w₁.bus)
    (hout : w₁.out.rxAlive = false → w.out.rxAlive = false) : FwdSound w f where
  opts := hbus ▸ hf.opts
  names := hbus ▸ hf.names
  taken := hbus ▸ hf.taken
  inOrder := hbus ▸ hf.inOrder
  nothingLost := hf.nothingLost
  ended h := by
    rcases hf.ended h with h1 | h2
    · exact .inl (hout h1)
    · exact .inr (hbus ▸ h2)

/-- The forwarder takes the oldest envelope of its queue. -/
theorem FwdSound.take {env : EventEnvelope δ} {q : Mpsc (EventEnvelope δ)} (hf : FwdSound w f)
    (hp : f.phase = .outerRecv) (hq : (w.bus.mpsc f.sub).recv = some (env, q)) :
    FwdSound { w with bus := w.bus.setMpsc f.sub q } { f with phase := .innerNotice env } := by
  obtain ⟨hbuf, hrec, -⟩ := Mpsc.recv_some hq
  have henq := Mpsc.enqueued_recv hq
  have hmpsc : (w.bus.setMpsc f.sub q).mpsc f.sub = q := by simp [Bus.setMpsc]
  have hhand : f.inHand = [] := by simp [LocalForwarder.inHand, hp]
  have htaken := hf.taken
  rw [hhand] at htaken
  refine ⟨hf.opts, ⟨?_, ?_, ?_⟩, ?_, fun hlost => ?_, fun _ hslow => ?_, fun hend => ?_⟩
  · rw [hmpsc, henq]; exact hf.names.landed
  · rw [hmpsc, henq]; exact hf.names.last
  · rw [hmpsc, henq]; exact hf.names.notice
  · rw [hmpsc, hrec]
    simp only [List.length_append, htaken, LocalForwarder.inHand]
    rfl
  · rw [hmpsc, hrec, hf.inOrder hlost, hhand, List.append_nil]
    rfl
  · exact hf.nothingLost (by simp [LocalForwarder.Ended, hp]) hslow
  · simp [LocalForwarder.Ended] at hend

/-- The forwarder sends the envelope in its hand. -/
theorem FwdSound.send {env : EventEnvelope δ} (hf : FwdSound w f) (hp : f.phase = .innerSend env) :
    FwdSound w { f with phase := .outerNotice, sent := f.sent ++ [env] } := by
  have hhand : f.inHand = [env] := by simp [LocalForwarder.inHand, hp]
  have htaken := hf.taken
  rw [hhand] at htaken
  refine ⟨hf.opts, hf.names, ?_, fun hlost => ?_, fun _ hslow => ?_, fun hend => ?_⟩
  · simp only [htaken, List.length_append, LocalForwarder.inHand, List.length_cons, List.length_nil]
    omega
  · rw [hf.inOrder hlost, hhand]
    simp [LocalForwarder.inHand]
  · exact hf.nothingLost (by simp [LocalForwarder.Ended, hp]) hslow
  · simp [LocalForwarder.Ended] at hend

/-- The connection after the attempt to report a gap. -/
theorem emitGap_cases (w : WsConn δ τ) (f : LocalForwarder δ) (now : ℤ) (n : SlowConsumerNotice) :
    ∃ gap, (w.emitGap f now n).fwd =
        some { f with phase := .exiting, slowTerminated := true, gap } ∧
      (gap = f.gap ∨ gap = some (n, (w.bus.mpsc f.sub).enqueued) ∧ w.terminal.rxAlive = true ∧
        w.terminal.hasRoom = true) ∧
      (w.emitGap f now n).bus = w.bus ∧ (w.emitGap f now n).out = w.out := by
  unfold emitGap
  dsimp only
  split
  · rename_i terminal ht
    exact ⟨_, rfl, .inr ⟨rfl, Mpsc.room_of_trySend_ok ht⟩, rfl, rfl⟩
  · exact ⟨f.gap, rfl, .inl rfl, rfl, rfl⟩

/-- **The forwarder accounts for its envelopes after every poll.** -/
theorem fwdInv_poll (ops : BusOps δ τ κ) (hw : FwdInv w) (hfw : w.fwd = some f)
    (h : PollEffect rfc3339 w f w') : FwdInv w' := by
  have hf := hw.sound f hfw
  obtain ⟨opts, hopts, hpol⟩ := hf.opts
  cases h with
  | wait phase next hand running =>
    subst next
    refine ⟨hw.wellFormed, ?_⟩
    rintro f' ⟨⟩
    exact (hf.move { f with phase } rfl rfl rfl hand (fun _ => ⟨running.1, id⟩)
      (fun h => absurd h running.2)).of_bus_out rfl id
  | seen at_outer dropped next =>
    subst next
    refine ⟨hw.wellFormed, ?_⟩
    rintro f' ⟨⟩
    refine (hf.move { f with slowTerminated := true } rfl rfl rfl rfl (fun h => ⟨h, by simp⟩)
      fun h => ?_).of_bus_out rfl id
    simp [LocalForwarder.Ended, at_outer] at h
  | take env bus at_recv recv next =>
    subst next
    have hstep : w.bus.step ops (.recv f.sub) = some bus := by simp [Bus.step, recv]
    obtain ⟨q, hq, rfl⟩ := Bus.recv_mpsc hopts (by rw [hpol]; rfl) recv
    refine ⟨Bus.wellFormed_step hw.wellFormed hstep, ?_⟩
    rintro f' ⟨⟩
    exact (hf.take at_recv hq).of_bus_out rfl id
  | send env out at_send sent next =>
    subst next
    refine ⟨hw.wellFormed, ?_⟩
    rintro f' ⟨⟩
    refine (hf.send at_send).of_bus_out rfl fun hout => ?_
    -- a send that succeeds finds the receiving end open
    rw [(Mpsc.room_of_trySend_ok sent).1] at hout
    cases hout
  | drop env at_inner open_ dropped next =>
    subst next
    refine ⟨hw.wellFormed, ?_⟩
    rintro f' ⟨⟩
    refine (hf.drop { f with slowTerminated := true, phase := .outerNotice
                             lost := f.lost ++ [env] }
      rfl rfl ?_ rfl (fun _ => rfl) ?_).of_bus_out rfl id
    · simp [LocalForwarder.inHand, at_inner]
    · intro h; simp [LocalForwarder.Ended] at h
  | gap now n at_notice open_ fired next =>
    subst next
    obtain ⟨gap, hfwd, -, hbus, hout⟩ :=
      emitGap_cases w { f with lost := f.lost ++ f.inHand } now n
    refine ⟨hbus ▸ hw.wellFormed, ?_⟩
    intro f' hf'
    rw [hfwd] at hf'
    obtain rfl := Option.some.inj hf'
    have hdrop : FwdSound w { f with phase := .exiting, slowTerminated := true, gap
                                     lost := f.lost ++ f.inHand } :=
      hf.drop _ rfl rfl rfl rfl (fun _ => rfl) (fun _ => .inr ⟨n, fired⟩)
    exact hdrop.of_bus_out hbus (by rw [hout]; exact id)
  | hangup env at_send closed next =>
    subst next
    refine ⟨hw.wellFormed, ?_⟩
    rintro f' ⟨⟩
    refine (hf.drop { f with phase := .exiting, lost := f.lost ++ [env] }
      rfl rfl ?_ rfl (fun h => ?_) (fun _ => .inl closed)).of_bus_out rfl id
    · simp [LocalForwarder.inHand, at_send]
    · simp [LocalForwarder.Ended] at h
  | finish at_recv empty gone next =>
    subst next
    refine ⟨hw.wellFormed, ?_⟩
    rintro f' ⟨⟩
    refine (hf.move { f with phase := .exiting } rfl rfl rfl ?_ (fun h => ?_)
      fun _ => ?_).of_bus_out rfl id
    · simp [LocalForwarder.inHand, at_recv]
    · simp [LocalForwarder.Ended] at h
    · exact .inr (.inr ⟨Bus.recv_none hopts hpol empty, gone⟩)
  | report at_exit next =>
    subst next
    refine ⟨hw.wellFormed, ?_⟩
    rintro f' ⟨⟩
    refine (hf.move { f with phase := .reported } rfl rfl rfl ?_ (fun h => ?_)
      fun _ => ?_).of_bus_out rfl id
    · simp [LocalForwarder.inHand, at_exit]
    · simp [LocalForwarder.Ended] at h
    · exact hf.ended (by simp [LocalForwarder.Ended, at_exit])
  | dropRx at_reported next =>
    subst next
    have hstep : w.bus.step ops (.dropRx f.sub) = some (w.bus.dropRx f.sub) := rfl
    have hf' := hf.bus_step hw.wellFormed (by simp) hstep
    refine ⟨Bus.wellFormed_step hw.wellFormed hstep, ?_⟩
    rintro f' ⟨⟩
    refine (hf'.move { f with phase := .done } rfl rfl rfl ?_ (fun h => ?_)
      fun _ => ?_).of_bus_out rfl id
    · simp [LocalForwarder.inHand, at_reported]
    · simp [LocalForwarder.Ended] at h
    · exact hf'.ended (by simp [LocalForwarder.Ended, at_reported])

end Polls

/-! ### The invariant -/

section Steps

variable {w w' : WsConn δ τ} {f : LocalForwarder δ} {ops : BusOps δ τ κ}
  {rfc3339 : OffsetDateTime → Option String} {a : WsAction δ τ}

theorem rxAlive_sendOrTerminate (out terminal : Mpsc (OutboundMessage δ))
    (msg : OutboundMessage δ) : (sendOrTerminate out terminal msg).1.rxAlive = out.rxAlive := by
  unfold sendOrTerminate
  split
  · rename_i q hq
    rw [Mpsc.trySend_ok hq]; rfl
  · split <;> rfl
  · rfl

theorem othersMay_ne_recv {a : BusAction δ τ} (h : w.othersMay a = true) (hf : w.fwd = some f) :
    a ≠ .recv f.sub := by
  rintro rfl
  simp [othersMay, hf] at h

/-- The forwarder that a subscribe spawns has a fresh subscription. -/
theorem fwdSound_subscribe {b : Bus δ τ} (hb : b.WellFormed) {topic : τ} {opts : SubscribeOpts}
    (hpol : opts.slowConsumerPolicy = .disconnect) {sub : SubscriptionInner τ}
    (hsub : (b.subscribe topic opts).subs b.nextId = some sub)
    (hbus : w.bus = b.subscribe topic opts) (appId : UInt64) :
    FwdSound w { appId, sub := b.nextId } := by
  have hu := hb.untouched b.nextId (Nat.le_refl _)
  rcases Bus.subscribe_cases b topic opts hu with hu' | ⟨sub', hsub', -, hhist, -, henq⟩
  · rw [hu'.subs] at hsub
    cases hsub
  · rw [← hbus] at henq hhist
    rw [Mpsc.enqueued, List.append_eq_nil_iff] at henq
    refine ⟨⟨opts, by rw [hhist], hpol⟩, ?_, ?_, fun _ => henq.1, fun _ _ => rfl, fun h => h.elim⟩
    · rw [hbus]
      exact Bus.namesEnqueued_created hb topic opts
    · simp [henq.1, LocalForwarder.inHand]

theorem fwdInv_step (hw : FwdInv w) (hs : step ops rfc3339 w a = some w') : FwdInv w' := by
  -- the bus and the queues change under the forwarder; only its own poll moves it
  cases a with
  | bus a =>
    obtain ⟨hmay, bus, hbus, rfl⟩ := step_bus hs
    exact ⟨Bus.wellFormed_step hw.wellFormed hbus, fun f hf =>
      (hw.sound f hf).bus_step hw.wellFormed (othersMay_ne_recv hmay hf) hbus⟩
  | subscribe appId topic limit outboundCapacity =>
    obtain ⟨-, bus, hbus, rfl⟩ := step_subscribe hs
    refine ⟨Bus.wellFormed_step hw.wellFormed hbus, fun f hf => ?_⟩
    obtain ⟨sub, hsub, rfl⟩ := Option.map_eq_some_iff.mp hf
    obtain rfl := Bus.step_subscribe hbus
    exact fwdSound_subscribe hw.wellFormed rfl hsub rfl appId
  | poll now =>
    obtain ⟨f, hf, hp⟩ := Option.bind_eq_some_iff.mp hs
    exact fwdInv_poll ops hw hf (poll_effect hp)
  | control msg =>
    obtain rfl := Option.some.inj hs
    refine ⟨hw.wellFormed, fun f hf => (hw.sound f hf).of_bus_out rfl fun hout => ?_⟩
    exact (rxAlive_sendOrTerminate w.out w.terminal msg).trans hout
  | write =>
    obtain ⟨out, terminal, rfl, halive⟩ := step_write hs
    exact ⟨hw.wellFormed, fun f hf => (hw.sound f hf).of_bus_out rfl fun hout => halive.trans hout⟩
  | close =>
    obtain rfl := Option.some.inj hs
    exact ⟨hw.wellFormed, fun f hf => (hw.sound f hf).of_bus_out rfl fun _ => rfl⟩

end Steps

/-! ### Ending without overflow -/

/-- The socket is open and no slow-consumer notice has fired for the forwarder's subscription. -/
structure Undisturbed (w : WsConn δ τ) : Prop where
  socketOpen : w.out.rxAlive = true
  noNotice : ∀ f, w.fwd = some f → ∀ n, w.bus.notify f.sub ≠ .sent n

/-- The forwarder is not about to find the one-shot's sender dropped with an envelope in hand. -/
def KeepsInHand (w : WsConn δ τ) : WsAction δ τ → Prop
  | .poll _ => ∀ f ∈ w.fwd, f.atInnerNotice = true → f.slowTerminated = false →
      w.bus.notify f.sub ≠ .dropped
  | _ => True

instance (w : WsConn δ τ) : ∀ a, Decidable (KeepsInHand w a)
  | .poll _ => inferInstanceAs (Decidable (∀ f ∈ w.fwd, _))
  | .bus _ | .subscribe _ _ _ _ | .control _ | .write | .close => isTrue True.intro

section Exact

variable {w w' : WsConn δ τ} {f : LocalForwarder δ} {ops : BusOps δ τ κ}
  {rfc3339 : OffsetDateTime → Option String} {a : WsAction δ τ}

/-- A poll keeps the subscription, the notice and the receiving end of `out_tx`. -/
theorem poll_frame (h : PollEffect rfc3339 w f w') :
    (∃ f', w'.fwd = some f' ∧ f'.sub = f.sub) ∧ w'.bus.notify = w.bus.notify ∧
      w'.out.rxAlive = w.out.rxAlive := by
  cases h with
  | wait phase next => subst next; exact ⟨⟨_, rfl, rfl⟩, rfl, rfl⟩
  | seen _ _ next => subst next; exact ⟨⟨_, rfl, rfl⟩, rfl, rfl⟩
  | take env bus _ recv next =>
    subst next
    rcases Bus.recv_cases recv with ⟨q, -, rfl⟩ | ⟨state, rfl⟩
    · exact ⟨⟨_, rfl, rfl⟩, rfl, rfl⟩
    · exact ⟨⟨_, rfl, rfl⟩, rfl, rfl⟩
  | send env out _ sent next =>
    subst next
    exact ⟨⟨_, rfl, rfl⟩, rfl, by rw [Mpsc.trySend_ok sent]; rfl⟩
  | drop env _ _ _ next => subst next; exact ⟨⟨_, rfl, rfl⟩, rfl, rfl⟩
  | gap now n _ _ _ next =>
    subst next
    obtain ⟨gap, hfwd, -, hbus, hout⟩ :=
      emitGap_cases w { f with lost := f.lost ++ f.inHand } now n
    exact ⟨⟨_, hfwd, rfl⟩, by rw [hbus], by rw [hout]⟩
  | hangup env _ _ next => subst next; exact ⟨⟨_, rfl, rfl⟩, rfl, rfl⟩
  | finish _ _ _ next => subst next; exact ⟨⟨_, rfl, rfl⟩, rfl, rfl⟩
  | report _ next => subst next; exact ⟨⟨_, rfl, rfl⟩, rfl, rfl⟩
  | dropRx _ next => subst next; exact ⟨⟨_, rfl, rfl⟩, rfl, rfl⟩

/-- What is undisturbed after a step was so before. -/
theorem undisturbed_of_step (hw : FwdInv w) (hs : step ops rfc3339 w a = some w')
    (h' : Undisturbed w') : Undisturbed w := by
  cases a with
  | bus a =>
    obtain ⟨-, bus, hbus, rfl⟩ := step_bus hs
    refine ⟨h'.socketOpen, fun f hf n hn => h'.noNotice f hf n ?_⟩
    -- a notice that has fired stays fired
    obtain ⟨opts, hopts, -⟩ := (hw.sound f hf).opts
    exact Bus.notify_sent_of_effect (hw.wellFormed.effect hopts hbus) hn
  | subscribe appId topic limit outboundCapacity =>
    obtain ⟨hnone, bus, -, rfl⟩ := step_subscribe hs
    refine ⟨h'.socketOpen, fun f hf => ?_⟩
    rw [hf] at hnone
    cases hnone
  | poll now =>
    obtain ⟨f, hf, hp⟩ := Option.bind_eq_some_iff.mp hs
    obtain ⟨⟨f', hf', hsub⟩, hnotify, hout⟩ := poll_frame (poll_effect hp)
    refine ⟨hout ▸ h'.socketOpen, fun f₁ hf₁ n hn => ?_⟩
    -- a poll moves the forwarder but keeps its subscription
    obtain rfl : f = f₁ := Option.some.inj (hf.symm.trans hf₁)
    exact h'.noNotice f' hf' n (by rw [hnotify, hsub, hn])
  | control msg =>
    obtain rfl := Option.some.inj hs
    exact ⟨(rxAlive_sendOrTerminate w.out w.terminal msg).symm.trans h'.socketOpen, h'.noNotice⟩
  | write =>
    obtain ⟨out, terminal, rfl, halive⟩ := step_write hs
    exact ⟨halive.symm.trans h'.socketOpen, h'.noNotice⟩
  | close =>
    obtain rfl := Option.some.inj hs
    cases h'.socketOpen

/-- Nothing is lost by a poll exactly when it does not find the sender dropped with an envelope in
hand. -/
theorem lost_poll_iff {now : ℤ} (hf : w.fwd = some f) (hp : w.poll rfc3339 f now = some w')
    (h' : Undisturbed w') :
    (∀ f', w'.fwd = some f' → f'.lost = []) ↔ f.lost = [] ∧ KeepsInHand w (.poll now) := by
  obtain ⟨⟨f₁, hf₁, hsub⟩, hnotify, hout⟩ := poll_frame (poll_effect hp)
  by_cases hK : KeepsInHand w (.poll now)
  · -- every other poll keeps `lost`, or it is disturbed
    have hsame : f₁.lost = f.lost := by
      cases poll_effect hp with
      | wait phase next => subst next; cases hf₁; rfl
      | seen _ _ next => subst next; cases hf₁; rfl
      | take env bus _ recv next => subst next; cases hf₁; rfl
      | send env out _ sent next => subst next; cases hf₁; rfl
      | drop env at_inner open_ dropped next =>
        exact absurd dropped (hK f hf (by simp [LocalForwarder.atInnerNotice, at_inner]) open_)
      | gap now n _ _ fired next =>
        -- a fired notice is a disturbance
        exact absurd (by rw [hnotify, hsub, fired]) (h'.noNotice f₁ hf₁ n)
      | hangup env _ closed next =>
        -- so is a closed socket
        rw [← hout, h'.socketOpen] at closed
        cases closed
      | finish _ _ _ next => subst next; cases hf₁; rfl
      | report _ next => subst next; cases hf₁; rfl
      | dropRx _ next => subst next; cases hf₁; rfl
    constructor
    · exact fun h => ⟨hsame ▸ h f₁ hf₁, hK⟩
    · rintro ⟨h, -⟩ f' hf'
      obtain rfl : f₁ = f' := Option.some.inj (hf₁.symm.trans hf')
      rw [hsame, h]
  · -- otherwise the poll drops the envelope
    refine iff_of_false (fun h => hK ?_) (fun h => hK h.2)
    intro f₂ hf₂ hinner hopen hdrop
    obtain rfl : f = f₂ := Option.some.inj (hf.symm.trans hf₂)
    -- a forwarder at the inner notice holds an envelope
    obtain ⟨env, hphase⟩ : ∃ env, f.phase = .innerNotice env := by
      unfold LocalForwarder.atInnerNotice at hinner
      split at hinner
      · rename_i env hphase; exact ⟨env, hphase⟩
      · cases hinner
    simp only [poll, hphase, hopen, hdrop, Bool.false_eq_true, if_false, Option.some.injEq] at hp
    subst hp
    have := h _ rfl
    simp at this

/-- A step loses no envelope exactly when it keeps the one in hand. -/
theorem lost_step_iff (hs : step ops rfc3339 w a = some w') (h' : Undisturbed w') :
    (∀ f, w'.fwd = some f → f.lost = []) ↔
      (∀ f, w.fwd = some f → f.lost = []) ∧ KeepsInHand w a := by
  cases a with
  | bus a =>
    obtain ⟨-, bus, -, rfl⟩ := step_bus hs
    exact (and_iff_left True.intro).symm
  | subscribe appId topic limit outboundCapacity =>
    obtain ⟨hnone, bus, -, rfl⟩ := step_subscribe hs
    refine iff_of_true (fun f hf => ?_) ⟨fun f hf => ?_, True.intro⟩
    · -- a new forwarder has lost nothing
      obtain ⟨sub, -, rfl⟩ := Option.map_eq_some_iff.mp hf
      rfl
    · rw [hf] at hnone
      cases hnone
  | poll now =>
    obtain ⟨f, hf, hp⟩ := Option.bind_eq_some_iff.mp hs
    rw [lost_poll_iff hf hp h']
    simp [hf]
  | control msg =>
    obtain rfl := Option.some.inj hs
    exact (and_iff_left True.intro).symm
  | write =>
    obtain ⟨out, terminal, rfl, -⟩ := step_write hs
    exact (and_iff_left True.intro).symm
  | close =>
    obtain rfl := Option.some.inj hs
    exact (and_iff_left True.intro).symm

/-- A forwarder that ended undisturbed has sent exactly what was enqueued iff it lost nothing. -/
theorem sent_eq_enqueued_iff_lost (hf : FwdSound w f) (hfw : w.fwd = some f) (hend : f.Reported)
    (h : Undisturbed w) : f.sent = (w.bus.mpsc f.sub).enqueued ↔ f.lost = [] := by
  have hended : f.Ended := by
    unfold LocalForwarder.Reported at hend
    unfold LocalForwarder.Ended
    split at hend <;> simp_all
  have hhand : f.inHand = [] := by
    unfold LocalForwarder.Ended at hended
    unfold LocalForwarder.inHand
    split at hended <;> simp_all
  have hbuf : (w.bus.mpsc f.sub).buf = [] := by
    rcases hf.ended hended with hout | ⟨n, hn⟩ | ⟨hbuf, -⟩
    · rw [h.socketOpen] at hout; cases hout
    · exact absurd hn (h.noNotice f hfw n)
    · exact hbuf
  rw [Mpsc.enqueued, hbuf, List.append_nil]
  -- everything enqueued was taken, so one lost envelope makes `sent` too short
  constructor
  · intro heq
    have := hf.taken
    rw [← heq, hhand] at this
    rw [List.length_nil] at this
    exact List.eq_nil_of_length_eq_zero (by omega)
  · intro hlost
    rw [hf.inOrder hlost, hhand, List.append_nil]

end Exact

/-- **No event is lost without overflow, exactly when no envelope in hand meets the dropped
one-shot.**  Take any run after which the forwarder has reported `LocalTerminated`, with the socket
open and no slow-consumer notice fired.  It has sent to `out_tx` exactly the envelopes enqueued for
its subscription, in order and each once, iff no poll of the run found the one-shot's sender dropped
at the inner select before `slow_fut` had completed. -/
theorem sent_eq_enqueued_iff (ops : BusOps δ τ κ) (rfc3339 : OffsetDateTime → Option String)
    (replayCapacity : ℕ) {as : List (WsAction δ τ)} {w : WsConn δ τ} {f : LocalForwarder δ}
    (hrun : (machine ops rfc3339 replayCapacity).run
      (machine ops rfc3339 replayCapacity).init as = some w)
    (hf : w.fwd = some f) (hrep : f.Reported) (hquiet : w.Undisturbed) :
    f.sent = (w.bus.mpsc f.sub).enqueued ↔
      (machine ops rfc3339 replayCapacity).StepsMeet KeepsInHand
        (machine ops rfc3339 replayCapacity).init as := by
  -- soundness holds of every reachable connection
  have hinv : FwdInv w :=
    Machine.Reachable.inv (fwdInv_init ops rfc3339 replayCapacity) (fun _ _ _ => fwdInv_step)
      ⟨as, hrun⟩
  -- a loss is never undone, so one step at a time decides the run
  obtain ⟨-, hiff⟩ := Machine.run_iff_stepsMeet
    (Q := fun w : WsConn δ τ => ∀ f, w.fwd = some f → f.lost = [])
    (fun _ _ _ => fwdInv_step) (fun _ _ _ => undisturbed_of_step)
    (fun _ _ _ _ hs h' => lost_step_iff hs h')
    (fwdInv_init ops rfc3339 replayCapacity) hrun hquiet
  rw [sent_eq_enqueued_iff_lost (hinv.sound f hf) hf hrep hquiet]
  constructor
  · intro hlost
    refine (hiff.mp fun f' hf' => ?_).2
    obtain rfl : f = f' := Option.some.inj (hf.symm.trans hf')
    exact hlost
  · intro hsteps
    exact hiff.mpr ⟨fun f' hf' => (by cases hf'), hsteps⟩ f hf

/-- One envelope on a subscription with limit one, up to the enqueue. -/
def limitReached : List (WsAction Unit Unit) :=
  [.subscribe 7 () (some 1) none, .bus (.publish (.nth 1)), .bus (.advance 0), .bus (.advance 0),
    .bus (.advance 0), .bus (.visit 0 1), .bus (.advance 0), .bus (.advance 0)]

/-- The entry is removed first; the outer select sees it and drains the queue. -/
def drainAfterRemoval : List (WsAction Unit Unit) :=
  limitReached ++ [.bus (.advance 0)] ++ List.replicate 8 (.poll 0)

/-- A queue drained after the removal of its subscription: everything enqueued was sent. -/
theorem sent_eq_enqueued_drainAfterRemoval : ∃ (w : WsConn Unit Unit) (f : LocalForwarder Unit),
    (machine .matchAll (fun _ => none) 10).run (machine .matchAll (fun _ => none) 10).init
      drainAfterRemoval = some w ∧ w.fwd = some f ∧ f.Reported ∧ w.Undisturbed ∧
    f.sent = (w.bus.mpsc f.sub).enqueued := by
  have hend : ∃ (w : WsConn Unit Unit) (f : LocalForwarder Unit),
      (machine .matchAll (fun _ => none) 10).run (machine .matchAll (fun _ => none) 10).init
        drainAfterRemoval = some w ∧ w.fwd = some f ∧ f.Reported ∧ w.out.rxAlive = true ∧
      w.bus.notify f.sub = .dropped :=
    ⟨_, _, rfl, rfl, True.intro, rfl, rfl⟩
  obtain ⟨w, f, hrun, hf, hrep, hopen, hdropped⟩ := hend
  have hquiet : w.Undisturbed := by
    refine ⟨hopen, fun f' hf' n hn => ?_⟩
    obtain rfl : f = f' := Option.some.inj (hf.symm.trans hf')
    rw [hdropped] at hn
    cases hn
  exact ⟨w, f, hrun, hf, hrep, hquiet,
    (sent_eq_enqueued_iff .matchAll (fun _ => none) 10 hrun hf hrep hquiet).mpr (by decide)⟩

/-- The forwarder takes the envelope before the `Delivered` commit removes the entry, and polls the
inner select after it. -/
def removalWithEnvelopeInHand : List (WsAction Unit Unit) :=
  limitReached ++ [.poll 0, .poll 0, .bus (.advance 0)] ++ List.replicate 4 (.poll 0)

/-- **An event is lost**: the only envelope of a subscription with limit one is dropped, without
overflow and with the socket open. -/
theorem envelope_in_hand_lost : ∃ (w : WsConn Unit Unit) (f : LocalForwarder Unit),
    (machine .matchAll (fun _ => none) 10).run (machine .matchAll (fun _ => none) 10).init
      removalWithEnvelopeInHand = some w ∧ w.fwd = some f ∧ f.Reported ∧
    w.fwdEvents = [.localTerminated 7] ∧ w.out.rxAlive = true ∧
    w.bus.notify f.sub = .dropped ∧ (w.bus.mpsc f.sub).enqueued = [.nth 1] ∧ f.sent = [] :=
  ⟨_, _, rfl, rfl, True.intro, rfl, rfl, rfl, rfl, rfl⟩

end WsConn

end Boardwalk
