import Boardwalk.Http.Socket
import Boardwalk.Http.Spec.LocalForwarder
import Boardwalk.Lib.Owed

/-!
# The frames a WebSocket connection owes

The dispatcher owes its control replies, and a forwarder the terminated `stream-gap` of its
subscription.  `owed` lists the frames that come to be owed in a step.  A frame is held while it is
in one of the two queues or was taken from it by the writer, and while `send_or_terminate` has it
between its two `try_send`s.

`owed_held_iff` says when a connection holds all it owes: in exactly those runs in which the one
slot of the terminal channel is free whenever a task turns to it.
-/

namespace Boardwalk

/-- The kinds of frames that are owed: neither events nor the error of a closed peer stream. -/
def OutboundMessage.isOwed {δ : Type} : OutboundMessage δ → Bool
  | .event .. => false
  | .error code .. => code != 502
  | _ => true

/-- The frame an operation of the dispatcher has in hand. -/
def DispatchOp.inHand {ρ : Type} : DispatchOp ρ → List (OutboundMessage Json)
  | .fallback msg => [msg]
  | _ => []

/-- The notice that the next poll of a local forwarder finds. -/
def LocalForwarder.noticeAhead {δ τ : Type} (f : LocalForwarder δ) (bus : Bus δ τ) :
    Option SlowConsumerNotice :=
  match f.phase with
  | .outerNotice | .innerNotice _ => if f.slowTerminated then none else (bus.notify f.sub).get?
  | _ => none

/-- The terminal `stream-gap` of a local forwarder. -/
def LocalForwarder.gapFrame {δ : Type} (f : LocalForwarder δ) (now : ℤ) (n : SlowConsumerNotice) :
    OutboundMessage δ :=
  .streamGap now f.appId n.streamId n.lastDeliveredSequence n.reason true

namespace Socket

variable {ρ κ : Type} [DecidableEq κ] {ops : SocketOps ρ κ} {s t : Socket ρ}

/-- The writer has not dropped its receivers. -/
def writerAlive (s : Socket ρ) : Bool :=
  match s.writer with
  | .ended => false
  | _ => true

/-- The frame `send_or_terminate` has between its two `try_send`s. -/
def inHand (s : Socket ρ) : List (OutboundMessage Json) := s.todo.flatMap DispatchOp.inHand

/-- The frames that reached one of the queues, and the one in hand. -/
def held (s : Socket ρ) : Multiset (OutboundMessage Json) :=
  ↑s.out.enqueued + ↑s.terminal.enqueued + ↑s.inHand

/-- The frames that come to be owed in a step. -/
def owed (s : Socket ρ) : SocketAction ρ → List (OutboundMessage Json)
  | .dispatch now =>
    match s.todo with
    | .reply r :: _ => [r.message now]
    | _ => []
  | .pollLocal k now =>
    match s.locals[k]? with
    | none => []
    | some f =>
      match f.noticeAhead s.bus with
      | some n => [f.gapFrame now n]
      | none => []
  | .pollPeer k now =>
    match s.peers[k]? with
    | none => []
    | some f =>
      match f.phase with
      | .gap reason => [peerGap now f.appId reason]
      | _ => []
  | _ => []

/-- The step puts a frame into the terminal channel. -/
def usesTerminal (s : Socket ρ) : SocketAction ρ → Bool
  | .dispatch _ =>
    match s.todo with
    | .fallback _ :: _ => true
    | _ => false
  | .pollLocal k _ => s.locals[k]?.any fun f => (f.noticeAhead s.bus).isSome
  | .pollPeer k _ =>
    s.peers[k]?.any fun f =>
      match f.phase with
      | .gap _ => true
      | _ => false
  | _ => false

/-- A step that uses the terminal channel finds its slot free. -/
def SlotFree (s : Socket ρ) (a : SocketAction ρ) : Prop :=
  s.writerAlive = true → s.usesTerminal a = true → s.terminal.hasRoom = true

/-! ### What the tasks can have in hand -/

end Socket

/-- A reply is of an owed kind. -/
def Reply.Owed : Reply → Prop
  | .error code _ _ _ => code ≠ 502
  | _ => True

theorem Reply.Owed.isOwed {δ : Type} {r : Reply} (h : r.Owed) (now : ℤ) :
    (r.message now : OutboundMessage δ).isOwed = true := by
  cases r with
  | error code _ _ _ => simpa [Reply.Owed, Reply.message, OutboundMessage.isOwed] using h
  | _ => rfl

/-- An operation with nothing in hand, and no reply but an owed one ahead. -/
def DispatchOp.Plain {ρ : Type} : DispatchOp ρ → Prop
  | .fallback _ => False
  | .reply r => r.Owed
  | _ => True

namespace Socket

variable {ρ κ : Type} [DecidableEq κ] {ops : SocketOps ρ κ} {s t : Socket ρ}

def TodoPlain (s : Socket ρ) : Prop := ∀ op ∈ s.todo, op.Plain

/-- What a peer forwarder sends in the normal queue is an event. -/
def PeersSound (s : Socket ρ) : Prop :=
  ∀ f ∈ s.peers, ∀ msg, f.phase = .send msg → msg.isOwed = false

theorem TodoPlain.inHand (h : s.TodoPlain) : s.inHand = [] := by
  refine List.flatMap_eq_nil_iff.mpr fun op hop => ?_
  have hplain := h op hop
  cases op with
  | fallback msg => exact hplain.elim
  | _ => rfl

/-- The queues are open while the writer is alive, and only the first operation of the dispatcher
has a frame in hand. -/
structure Inv (s : Socket ρ) : Prop where
  out : s.out.rxAlive = s.writerAlive
  terminal : s.terminal.rxAlive = s.writerAlive
  todo : s.TodoPlain ∨
    ∃ msg rest, s.todo = .fallback msg :: rest ∧ msg.isOwed = true ∧ ∀ op ∈ rest, op.Plain
  peers : s.PeersSound

theorem inv_init (ops : SocketOps ρ κ) (app : AppState ρ) : (machine ops app).init.Inv where
  out := rfl
  terminal := rfl
  todo := .inl fun op hop => by cases hop
  peers f hf := by cases hf

/-- A step of the connection keeps the invariant, and it loses frames only for want of room in the
terminal channel. -/
structure Carries (s : Socket ρ) (a : SocketAction ρ) (t : Socket ρ) : Prop where
  inv : t.Inv
  /-- A writer that has ended does not come back. -/
  alive : t.writerAlive = true → s.writerAlive = true
  ends : s.writerAlive = true → t.writerAlive = false → s.SlotFree a
  moves : s.writerAlive = true → ∃ lost,
    Owed.Step OutboundMessage.isOwed s.held t.held ↑(s.owed a) lost ∧ (lost = 0 ↔ s.SlotFree a)

/-! ### Steps that leave the queues alone -/

structure Quiet (s t : Socket ρ) : Prop where
  out : t.out = s.out
  terminal : t.terminal = s.terminal
  writer : t.writer = s.writer
  todo : t.todo = s.todo ∨ s.TodoPlain ∧ t.TodoPlain
  peers : s.PeersSound → t.PeersSound

theorem Quiet.held (h : Quiet s t) : t.held = s.held := by
  have hhand : t.inHand = s.inHand := by
    rcases h.todo with htodo | ⟨hs, ht⟩
    · simp [inHand, htodo]
    · rw [hs.inHand, ht.inHand]
  simp [Socket.held, h.out, h.terminal, hhand]

theorem Quiet.writerAlive (h : Quiet s t) : t.writerAlive = s.writerAlive := by
  simp [Socket.writerAlive, h.writer]

/-- A step that leaves the queues alone loses nothing. -/
theorem Quiet.carries {a : SocketAction ρ} (h : Quiet s t) (hi : s.Inv) (howed : s.owed a = [])
    (huses : s.usesTerminal a = false) : Carries s a t where
  inv :=
    { out := by rw [h.out, h.writerAlive, hi.out]
      terminal := by rw [h.terminal, h.writerAlive, hi.terminal]
      todo := by
        rcases h.todo with htodo | ⟨-, ht⟩
        · simpa [TodoPlain, htodo] using hi.todo
        · exact .inl ht
      peers := h.peers hi.peers }
  alive ht := by rwa [h.writerAlive] at ht
  ends _ _ := by simp [SlotFree, huses]
  moves _ := by
    refine ⟨0, ⟨⟨0, by simp, by simp [h.held, howed]⟩, by simp [howed], by simp⟩, ?_⟩
    simp [SlotFree, huses]

/-- Aborting a forwarder does not move it. -/
theorem mem_modify_phase {peers : List PeerForwarder} {k : ℕ} {f : PeerForwarder}
    (hf : f ∈ peers.modify k fun g => { g with aborted := true }) :
    ∃ g ∈ peers, f.phase = g.phase := by
  rw [List.mem_iff_getElem?] at hf
  obtain ⟨i, hi⟩ := hf
  rw [List.getElem?_modify] at hi
  obtain ⟨g, hg, rfl⟩ := Option.map_eq_some_iff.mp hi
  refine ⟨g, List.mem_of_getElem? hg, ?_⟩
  split <;> rfl

theorem quiet_of_todo (hs : s.TodoPlain) {todo : List (DispatchOp ρ)}
    (ht : ∀ op ∈ todo, op.Plain) : Quiet s { s with todo } :=
  ⟨rfl, rfl, rfl, .inr ⟨hs, ht⟩, id⟩

theorem quiet_accept (hs : s.TodoPlain) (r : Subscribing ρ) : Quiet s (s.accept r) := by
  refine ⟨rfl, rfl, rfl, .inr ⟨hs, ?_⟩, id⟩
  intro op hop
  simp only [accept, List.mem_cons] at hop
  rcases hop with rfl | rfl | hop
  · exact True.intro
  · split <;> exact True.intro
  · exact hs op hop

omit [DecidableEq κ] in
/-- A text frame leaves the queues alone. -/
theorem quiet_onText (hs : s.TodoPlain) (text : String) : Quiet s (s.onText ops text) := by
  unfold onText
  split
  · unfold onSubscribe
    split
    · exact quiet_of_todo hs (by simp [DispatchOp.Plain, Reply.Owed])
    · dsimp only
      split
      · exact quiet_of_todo hs (by simp [DispatchOp.Plain, Reply.Owed])
      · split
        · exact quiet_of_todo hs (by simp [DispatchOp.Plain])
        · exact quiet_accept hs _
  · exact quiet_of_todo hs (by simp [DispatchOp.Plain, Reply.Owed])
  · exact quiet_of_todo hs (by simp [DispatchOp.Plain, Reply.Owed])
  · exact quiet_of_todo hs (by simp [DispatchOp.Plain, Reply.Owed])

/-- The operations that send nothing. -/
theorem quiet_runOp {now : ℤ} {op : DispatchOp ρ} (hs : s.TodoPlain)
    (hreply : ∀ r, op ≠ .reply r) (hfallback : ∀ msg, op ≠ .fallback msg)
    (h : s.runOp ops now op = some t) : Quiet s t := by
  -- a local operation touches neither queue nor writer
  cases op with
  | reply r => exact absurd rfl (hreply r)
  | fallback msg => exact absurd rfl (hfallback msg)
  | peerContext r =>
    simp only [runOp] at h
    split at h
    · split at h
      · obtain rfl := Option.some.inj h
        exact quiet_accept hs r
      · obtain rfl := Option.some.inj h
        refine quiet_of_todo hs (List.forall_mem_cons.mpr ⟨?_, hs⟩)
        simp [DispatchOp.Plain, Reply.Owed]
    · obtain rfl := Option.some.inj h
      exact quiet_accept hs r
  | subscribePeer appId r =>
    simp only [runOp] at h
    split at h
    · obtain rfl := Option.some.inj h
      refine quiet_of_todo hs (List.forall_mem_cons.mpr ⟨?_, hs⟩)
      simp [DispatchOp.Plain, Reply.Owed]
    · obtain rfl := Option.some.inj h
      refine ⟨rfl, rfl, rfl, .inl rfl, fun hp f hf msg hmsg => ?_⟩
      rcases List.mem_append.mp hf with hf | hf
      · exact hp f hf msg hmsg
      · -- a new forwarder starts at its receive
        obtain rfl := List.mem_singleton.mp hf
        cases hmsg
  | subscribeLocal appId r =>
    -- a refused subscription leaves nothing to do
    obtain ⟨bus, -, rfl⟩ := Option.map_eq_some_iff.mp h
    split
    · exact ⟨rfl, rfl, rfl, .inl rfl, id⟩
    · exact ⟨rfl, rfl, rfl, .inr ⟨hs, fun op hop => by cases hop⟩, id⟩
  | removeLocal appId =>
    simp only [runOp] at h
    split at h
    · obtain rfl := Option.some.inj h
      exact ⟨rfl, rfl, rfl, .inl rfl, id⟩
    · obtain ⟨bus, -, rfl⟩ := Option.map_eq_some_iff.mp h
      exact ⟨rfl, rfl, rfl, .inl rfl, id⟩
  | removeFwd appId =>
    simp only [runOp] at h
    split at h
    · obtain rfl := Option.some.inj h
      exact ⟨rfl, rfl, rfl, .inl rfl, id⟩
    · obtain rfl := Option.some.inj h
      refine ⟨rfl, rfl, rfl, .inr ⟨hs, List.forall_mem_cons.mpr ⟨True.intro, hs⟩⟩, ?_⟩
      intro hp f hf msg hmsg
      obtain ⟨g, hg, hphase⟩ := mem_modify_phase hf
      exact hp g hg msg (hphase ▸ hmsg)
  | unsubscribePeer peer topic =>
    obtain rfl := Option.some.inj h
    exact ⟨rfl, rfl, rfl, .inl rfl, id⟩

/-! ### Steps that send -/

theorem Inv.next (hi : s.Inv) (hout : t.out.rxAlive = s.out.rxAlive)
    (hterminal : t.terminal.rxAlive = s.terminal.rxAlive) (hwriter : t.writer = s.writer)
    (htodo : t.TodoPlain ∨
      ∃ msg rest, t.todo = .fallback msg :: rest ∧ msg.isOwed = true ∧ ∀ op ∈ rest, op.Plain)
    (hpeers : t.PeersSound) : t.Inv := by
  have halive : t.writerAlive = s.writerAlive := by simp [writerAlive, hwriter]
  exact ⟨by rw [hout, halive, hi.out], by rw [hterminal, halive, hi.terminal], htodo, hpeers⟩

theorem Inv.keep (hi : s.Inv) (hout : t.out.rxAlive = s.out.rxAlive)
    (hterminal : t.terminal.rxAlive = s.terminal.rxAlive) (hwriter : t.writer = s.writer)
    (htodo : t.todo = s.todo) (hpeers : t.PeersSound) : t.Inv :=
  hi.next hout hterminal hwriter (by simpa [TodoPlain, htodo] using hi.todo) hpeers

theorem rxAlive_trySend {ε : Type} {q q' : Mpsc ε} {x : ε} (h : q.trySend x = .ok q') :
    q'.rxAlive = q.rxAlive := by
  rw [Mpsc.trySend_ok h]; rfl

/-- Nothing is lost, and the frames held grow by what is owed and by frames nobody owes. -/
theorem Carries.of_held {a : SocketAction ρ} (hinv : t.Inv)
    (halive : t.writerAlive = true → s.writerAlive = true)
    (extra : Multiset (OutboundMessage Json)) (hextra : ∀ x ∈ extra, x.isOwed = false)
    (howed : ∀ x ∈ s.owed a, x.isOwed = true) (hfree : s.SlotFree a)
    (hheld : s.writerAlive = true → t.held = s.held + extra + ↑(s.owed a)) : Carries s a t where
  inv := hinv
  alive := halive
  ends _ _ := hfree
  moves halive :=
    ⟨0, ⟨⟨extra, hextra, by rw [hheld halive, add_zero]⟩, by simpa using howed, by simp⟩,
      by simpa using hfree⟩

/-- A frame is tried on the terminal channel. -/
theorem Carries.of_terminal {a : SocketAction ρ} (hi : s.Inv) (hinv : t.Inv)
    (halive : t.writerAlive = s.writerAlive)
    (msg : OutboundMessage Json) (hmsg : msg.isOwed = true)
    (howed : ∀ x ∈ s.owed a, x.isOwed = true) (huses : s.usesTerminal a = true)
    (hout : t.out = s.out)
    (hterminal : s.terminal.trySend msg = .ok t.terminal ∨
      (∃ e, s.terminal.trySend msg = .error e) ∧ t.terminal = s.terminal)
    (hhand : (t.inHand : Multiset (OutboundMessage Json)) + {msg} = ↑s.inHand + ↑(s.owed a)) :
    Carries s a t := by
  refine ⟨hinv, fun ht => halive ▸ ht, fun hs ht => ?_, fun halive => ?_⟩
  · rw [halive, hs] at ht; cases ht
  -- the writer lives, so the terminal queue is open
  have hrx : s.terminal.rxAlive = true := by rw [hi.terminal, halive]
  have hfree : s.SlotFree a ↔ s.terminal.hasRoom = true := by simp [SlotFree, halive, huses]
  rw [Mpsc.trySend_of_rxAlive hrx] at hterminal
  -- room: the message goes in
  by_cases hroom : s.terminal.hasRoom = true
  · have hpush : t.terminal = s.terminal.push msg := by
      rcases hterminal with h | ⟨⟨e, he⟩, -⟩
      · rw [if_pos hroom] at h
        exact (Except.ok.inj h).symm
      · rw [if_pos hroom] at he; cases he
    refine ⟨0, ⟨⟨0, by simp, ?_⟩, by simpa using howed, by simp⟩, by simp [hfree, hroom]⟩
    calc t.held + 0 = ↑s.out.enqueued + ↑s.terminal.enqueued + (↑t.inHand + {msg}) := by
          simp only [held, hout, hpush, Mpsc.enqueued_push, ← Multiset.coe_add, add_zero,
            Multiset.coe_singleton]
          ac_rfl
      _ = s.held + 0 + ↑(s.owed a) := by
          rw [hhand, held, add_zero]
          ac_rfl
  · -- no room: the message is dropped
    have hsame : t.terminal = s.terminal := by
      rcases hterminal with h | ⟨-, hsame⟩
      · rw [if_neg hroom] at h; cases h
      · exact hsame
    refine ⟨{msg}, ⟨⟨0, by simp, ?_⟩, by simpa using howed, by simpa using hmsg⟩,
      by simp [hfree, hroom]⟩
    calc t.held + {msg} = ↑s.out.enqueued + ↑s.terminal.enqueued + (↑t.inHand + {msg}) := by
          rw [held, hout, hsame]
          ac_rfl
      _ = s.held + 0 + ↑(s.owed a) := by
          rw [hhand, held, add_zero]
          ac_rfl

/-- The dispatcher sends a reply: into the normal queue, or it keeps it in hand. -/
theorem carries_reply {now : ℤ} {r : Reply} {rest : List (DispatchOp ρ)} (hi : s.Inv)
    (htodo : s.todo = .reply r :: rest)
    (h : { s with todo := rest }.runOp ops now (.reply r) = some t) :
    Carries s (.dispatch now) t := by
  -- a reply stands first, so no fallback is pending
  have hplain : s.TodoPlain := by
    rcases hi.todo with hplain | ⟨msg, rest', hcons, -⟩
    · exact hplain
    · rw [htodo] at hcons; cases hcons
  have hr : r.Owed := hplain (.reply r) (by simp [htodo])
  have hrest : ∀ op ∈ rest, op.Plain := fun op hop => hplain op (by simp [htodo, hop])
  have hhand : rest.flatMap DispatchOp.inHand = [] :=
    TodoPlain.inHand (s := { s with todo := rest }) hrest
  have hfree : s.SlotFree (.dispatch now) := by simp [SlotFree, usesTerminal, htodo]
  have howed : s.owed (.dispatch now) = [r.message now] := by simp [owed, htodo]
  have hmsg : ∀ x ∈ s.owed (.dispatch now), x.isOwed = true := by
    simpa [howed] using hr.isOwed now
  -- the reply fits into `out`, becomes a fallback, or meets a closed queue
  simp only [runOp] at h
  split at h
  · rename_i out hout
    obtain rfl := Option.some.inj h
    refine .of_held (hi.next (rxAlive_trySend hout) rfl rfl (.inl hrest) hi.peers) id 0 (by simp)
      hmsg hfree fun _ => ?_
    rw [held, held, hplain.inHand, howed, Mpsc.trySend_ok hout, Mpsc.enqueued_push]
    simp only [inHand, hhand, ← Multiset.coe_add]
    ac_rfl
  · obtain rfl := Option.some.inj h
    refine .of_held (hi.next rfl rfl rfl (.inr ⟨_, rest, rfl, hr.isOwed now, hrest⟩) hi.peers) id 0
      (by simp) hmsg hfree fun _ => ?_
    rw [held, held, hplain.inHand, howed]
    simp [inHand, DispatchOp.inHand, hhand]
  · rename_i hout
    obtain rfl := Option.some.inj h
    refine .of_held (hi.next rfl rfl rfl (.inl hrest) hi.peers) id 0 (by simp) hmsg hfree
      fun halive => ?_
    -- a closed `out` means that the writer is gone
    have hclosed : s.out.rxAlive = false := Mpsc.rxAlive_of_closed hout
    rw [hi.out, halive] at hclosed
    cases hclosed

/-- The dispatcher falls back to the terminal channel. -/
theorem carries_fallback {now : ℤ} {msg : OutboundMessage Json} {rest : List (DispatchOp ρ)}
    (hi : s.Inv) (htodo : s.todo = .fallback msg :: rest)
    (h : { s with todo := rest }.runOp ops now (.fallback msg) = some t) :
    Carries s (.dispatch now) t := by
  -- only the head may be a fallback
  obtain ⟨hmsg, hrest⟩ : msg.isOwed = true ∧ ∀ op ∈ rest, op.Plain := by
    rcases hi.todo with hplain | ⟨msg', rest', hcons, hmsg, hrest⟩
    · exact (hplain (.fallback msg) (by simp [htodo])).elim
    · rw [htodo] at hcons
      cases hcons
      exact ⟨hmsg, hrest⟩
  have hhand : rest.flatMap DispatchOp.inHand = [] :=
    TodoPlain.inHand (s := { s with todo := rest }) hrest
  have howed : s.owed (.dispatch now) = [] := by simp [owed, htodo]
  have huses : s.usesTerminal (.dispatch now) = true := by simp [usesTerminal, htodo]
  have hin : s.inHand = [msg] := by simp [inHand, htodo, DispatchOp.inHand, hhand]
  -- the fallback fits into `terminal`, or is dropped
  simp only [runOp] at h
  split at h
  · rename_i terminal hterminal
    obtain rfl := Option.some.inj h
    refine .of_terminal hi (hi.next rfl (rxAlive_trySend hterminal) rfl (.inl hrest) hi.peers) rfl
      msg hmsg (by simp [howed]) huses rfl (.inl hterminal) ?_
    rw [hin, howed]
    simp [inHand, hhand]
  · rename_i e he
    obtain rfl := Option.some.inj h
    refine .of_terminal hi (hi.next rfl rfl rfl (.inl hrest) hi.peers) rfl msg hmsg
      (by simp [howed]) huses rfl (.inr ⟨⟨e, he⟩, rfl⟩) ?_
    rw [hin, howed]
    simp [inHand, hhand]

end Socket

namespace WsConn

variable {δ τ : Type} {w w' : WsConn δ τ} {f : LocalForwarder δ} {now : ℤ}
  {rfc3339 : OffsetDateTime → Option String}

/-- The notice of a gap goes to the terminal queue, or is lost when that is full. -/
theorem emitGap_queues (w : WsConn δ τ) (f : LocalForwarder δ) (now : ℤ) (n : SlowConsumerNotice) :
    (w.emitGap f now n).out = w.out ∧
      (w.terminal.trySend (f.gapFrame now n) = .ok (w.emitGap f now n).terminal ∨
        (∃ e, w.terminal.trySend (f.gapFrame now n) = .error e) ∧
          (w.emitGap f now n).terminal = w.terminal) := by
  unfold emitGap
  dsimp only
  split
  · rename_i terminal hok
    exact ⟨rfl, .inl hok⟩
  · rename_i e he
    exact ⟨rfl, .inr ⟨⟨e, he⟩, rfl⟩⟩

/-- What a poll of a local forwarder does to the two queues: a notice ahead is tried on the terminal
channel, and otherwise at most an event is sent. -/
theorem poll_queues (h : w.poll rfc3339 f now = some w') :
    (∃ n, f.noticeAhead w.bus = some n ∧ w'.out = w.out ∧
      (w.terminal.trySend (f.gapFrame now n) = .ok w'.terminal ∨
        (∃ e, w.terminal.trySend (f.gapFrame now n) = .error e) ∧ w'.terminal = w.terminal)) ∨
    (f.noticeAhead w.bus = none ∧ w'.terminal = w.terminal ∧
      (w'.out = w.out ∨
        ∃ env, w.out.trySend (renderEventForWs rfc3339 f.appId env) = .ok w'.out)) := by
  -- one case for each phase, in the order of the source
  unfold poll at h
  split at h
  case h_1 hp =>
    split at h
    · rename_i hslow
      obtain rfl := Option.some.inj h
      exact .inr ⟨by simp [LocalForwarder.noticeAhead, hp, hslow], rfl, .inl rfl⟩
    · -- a notice that fired sends the gap frame; the other answers send nothing
      rename_i hslow
      split at h
      · rename_i hn
        obtain rfl := Option.some.inj h
        refine .inr ⟨?_, rfl, .inl rfl⟩
        simp [LocalForwarder.noticeAhead, hp, hslow, hn, Oneshot.get?]
      · rename_i n hn
        obtain rfl := Option.some.inj h
        refine .inl ⟨n, by simp [LocalForwarder.noticeAhead, hp, hslow, hn], ?_⟩
        exact emitGap_queues w f now n
      · rename_i hn
        obtain rfl := Option.some.inj h
        refine .inr ⟨?_, rfl, .inl rfl⟩
        simp [LocalForwarder.noticeAhead, hp, hslow, hn, Oneshot.get?]
  case h_2 hp =>
    have hnone : f.noticeAhead w.bus = none := by simp [LocalForwarder.noticeAhead, hp]
    split at h
    · obtain rfl := Option.some.inj h
      exact .inr ⟨hnone, rfl, .inl rfl⟩
    · split at h <;> obtain rfl := Option.some.inj h
      · exact .inr ⟨hnone, rfl, .inl rfl⟩
      · exact .inr ⟨hnone, rfl, .inl rfl⟩
  case h_3 env hp =>
    split at h
    · rename_i hslow
      obtain rfl := Option.some.inj h
      exact .inr ⟨by simp [LocalForwarder.noticeAhead, hp, hslow], rfl, .inl rfl⟩
    · rename_i hslow
      split at h
      · rename_i hn
        obtain rfl := Option.some.inj h
        refine .inr ⟨?_, rfl, .inl rfl⟩
        simp [LocalForwarder.noticeAhead, hp, hslow, hn, Oneshot.get?]
      · rename_i n hn
        obtain rfl := Option.some.inj h
        refine .inl ⟨n, by simp [LocalForwarder.noticeAhead, hp, hslow, hn], ?_⟩
        exact emitGap_queues w { f with lost := f.lost ++ [env] } now n
      · rename_i hn
        obtain rfl := Option.some.inj h
        refine .inr ⟨?_, rfl, .inl rfl⟩
        simp [LocalForwarder.noticeAhead, hp, hslow, hn, Oneshot.get?]
  -- the event goes into `out`
  case h_4 env hp =>
    have hnone : f.noticeAhead w.bus = none := by simp [LocalForwarder.noticeAhead, hp]
    split at h
    · rename_i out hout
      obtain rfl := Option.some.inj h
      exact .inr ⟨hnone, rfl, .inr ⟨env, hout⟩⟩
    · obtain rfl := Option.some.inj h
      exact .inr ⟨hnone, rfl, .inl rfl⟩
    · obtain rfl := Option.some.inj h
      exact .inr ⟨hnone, rfl, .inl rfl⟩
  case h_5 hp =>
    obtain rfl := Option.some.inj h
    exact .inr ⟨by simp [LocalForwarder.noticeAhead, hp], rfl, .inl rfl⟩
  case h_6 hp =>
    obtain rfl := Option.some.inj h
    exact .inr ⟨by simp [LocalForwarder.noticeAhead, hp], rfl, .inl rfl⟩
  case h_7 => cases h

end WsConn

namespace Socket

variable {ρ κ : Type} [DecidableEq κ] {ops : SocketOps ρ κ} {s t : Socket ρ}

/-- The dispatcher runs an operation that sends nothing. -/
theorem carries_runOp {now : ℤ} {op : DispatchOp ρ} {rest : List (DispatchOp ρ)} (hi : s.Inv)
    (htodo : s.todo = op :: rest) (hreply : ∀ r, op ≠ .reply r)
    (hfallback : ∀ msg, op ≠ .fallback msg)
    (h : { s with todo := rest }.runOp ops now op = some t) : Carries s (.dispatch now) t := by
  -- the head is no fallback
  have hplain : s.TodoPlain := by
    rcases hi.todo with hplain | ⟨msg, rest', hcons, -⟩
    · exact hplain
    · rw [htodo] at hcons
      exact absurd (List.cons.inj hcons).1 (hfallback msg)
  have hrest : TodoPlain { s with todo := rest } := fun op hop => hplain op (by simp [htodo, hop])
  have hq := quiet_runOp hrest hreply hfallback h
  have ht : t.TodoPlain := by
    rcases hq.todo with hsame | ⟨-, ht⟩
    · intro op hop
      rw [hsame] at hop
      exact hrest op hop
    · exact ht
  have hq' : Quiet s t := ⟨hq.out, hq.terminal, hq.writer, .inr ⟨hplain, ht⟩, hq.peers⟩
  -- the operation owes no message, and does not use the terminal queue
  refine hq'.carries hi ?_ ?_
  · cases op with
    | reply r => exact absurd rfl (hreply r)
    | _ => simp [owed, htodo]
  · cases op with
    | fallback msg => exact absurd rfl (hfallback msg)
    | _ => simp [usesTerminal, htodo]

theorem carries_dispatch {now : ℤ} (hi : s.Inv) (h : s.dispatch ops now = some t) :
    Carries s (.dispatch now) t := by
  unfold dispatch at h
  split at h
  · rename_i op rest htodo
    cases op with
    | reply r => exact carries_reply hi htodo h
    | fallback msg => exact carries_fallback hi htodo h
    | _ => exact carries_runOp hi htodo (fun r => by simp) (fun msg => by simp) h
  · rename_i htodo
    have hq : Quiet s t := by
      split at h
      · obtain rfl := Option.some.inj h
        exact ⟨rfl, rfl, rfl, .inl rfl, id⟩
      · split at h
        · obtain rfl := Option.some.inj h
          exact ⟨rfl, rfl, rfl, .inl rfl, id⟩
        · cases h
      · cases h
    exact hq.carries hi (by simp [owed, htodo]) (by simp [usesTerminal, htodo])

omit [DecidableEq κ] in
theorem carries_pollLocal {k : ℕ} {now : ℤ} (hi : s.Inv) (h : s.pollLocal ops k now = some t) :
    Carries s (.pollLocal k now) t := by
  unfold pollLocal at h
  split at h
  · cases h
  · rename_i f hf
    obtain ⟨w, hw, rfl⟩ := Option.map_eq_some_iff.mp h
    -- a gap is ahead, or the poll sends at most an event
    rcases WsConn.poll_queues hw with ⟨n, hn, hout, hterminal⟩ | ⟨hn, hterminal, hout⟩
    · have hn' : f.noticeAhead s.bus = some n := hn
      have howed : s.owed (.pollLocal k now) = [f.gapFrame now n] := by simp [owed, hf, hn']
      have hrx : w.terminal.rxAlive = s.terminal.rxAlive := by
        rcases hterminal with h | ⟨-, h⟩
        · exact rxAlive_trySend h
        · exact congrArg Mpsc.rxAlive h
      refine .of_terminal hi (hi.keep (congrArg Mpsc.rxAlive hout) hrx rfl rfl hi.peers) rfl
        (f.gapFrame now n) rfl (by simp [howed, LocalForwarder.gapFrame, OutboundMessage.isOwed])
        (by simp [usesTerminal, hf, hn']) hout hterminal ?_
      simp [howed, inHand]
    · have hn' : f.noticeAhead s.bus = none := hn
      have howed : s.owed (.pollLocal k now) = [] := by simp [owed, hf, hn']
      have hfree : s.SlotFree (.pollLocal k now) := by simp [SlotFree, usesTerminal, hf, hn']
      -- nothing is sent, or one event
      rcases hout with hout | ⟨env, hout⟩
      · refine .of_held (hi.keep (congrArg Mpsc.rxAlive hout) (congrArg Mpsc.rxAlive hterminal) rfl
          rfl hi.peers) id 0 (by simp) (by simp [howed]) hfree fun _ => ?_
        simp [held, howed, hout, hterminal, toWsConn, inHand]
      · refine .of_held (hi.keep (rxAlive_trySend hout) (congrArg Mpsc.rxAlive hterminal) rfl rfl
          hi.peers) id {renderEventForWs ops.rfc3339 f.appId env}
          (by simp [renderEventForWs, OutboundMessage.isOwed]) (by simp [howed]) hfree fun _ => ?_
        have hpush := Mpsc.trySend_ok hout
        simp only [held, howed, hpush, hterminal, toWsConn, inHand, Mpsc.enqueued_push,
          ← Multiset.coe_add, Multiset.coe_singleton, Multiset.coe_nil, add_zero]
        ac_rfl

theorem PeersSound.setPeer (h : s.PeersSound) {k : ℕ} {f : PeerForwarder}
    (hf : ∀ msg, f.phase = .send msg → msg.isOwed = false) : (s.setPeer k f).PeersSound := by
  intro g hg
  rcases List.mem_or_eq_of_mem_set hg with hg | rfl
  · exact h g hg
  · exact hf

theorem quiet_setPeer {k : ℕ} {f : PeerForwarder}
    (hf : ∀ msg, f.phase = .send msg → msg.isOwed = false) : Quiet s (s.setPeer k f) :=
  ⟨rfl, rfl, rfl, .inl rfl, fun h => h.setPeer hf⟩

/-- A peer forwarder sends a frame that nobody owes. -/
theorem carries_sendPeer {k : ℕ} {now : ℤ} {f : PeerForwarder} {msg : OutboundMessage Json}
    {out : Mpsc (OutboundMessage Json)} (hi : s.Inv) (howed : s.owed (.pollPeer k now) = [])
    (huses : s.usesTerminal (.pollPeer k now) = false) (hmsg : msg.isOwed = false)
    (hf : ∀ msg, f.phase = .send msg → msg.isOwed = false) (hout : s.out.trySend msg = .ok out) :
    Carries s (.pollPeer k now) ({ s with out }.setPeer k f) := by
  refine .of_held (hi.keep (rxAlive_trySend hout) rfl rfl rfl (hi.peers.setPeer hf)) id {msg}
    (by simpa using hmsg) (by simp [howed]) (by simp [SlotFree, huses]) fun _ => ?_
  have hpush := Mpsc.trySend_ok hout
  simp only [held, howed, hpush, setPeer, inHand, Mpsc.enqueued_push, ← Multiset.coe_add,
    Multiset.coe_singleton, Multiset.coe_nil, add_zero]
  ac_rfl

theorem carries_pollPeer {k : ℕ} {now : ℤ} (hi : s.Inv) (h : s.pollPeer k now = some t) :
    Carries s (.pollPeer k now) t := by
  unfold pollPeer at h
  split at h
  · cases h
  · rename_i f hf
    have hsound := hi.peers f (List.mem_of_getElem? hf)
    -- one case for each phase
    split at h
    · -- the receive
      rename_i hp
      have hq : Quiet s t := by
        split at h
        · obtain rfl := Option.some.inj h
          refine quiet_setPeer fun msg hmsg => ?_
          obtain rfl := PeerForwarderPhase.send.inj hmsg
          rfl
        · obtain rfl := Option.some.inj h
          exact quiet_setPeer fun msg hmsg => by cases hmsg
        · obtain rfl := Option.some.inj h
          exact quiet_setPeer fun msg hmsg => by cases hmsg
        · cases h
      exact hq.carries hi (by simp [owed, hf, hp]) (by simp [usesTerminal, hf, hp])
    · -- the event
      rename_i msg hp
      split at h
      · rename_i out hout
        obtain rfl := Option.some.inj h
        exact carries_sendPeer hi (by simp [owed, hf, hp]) (by simp [usesTerminal, hf, hp])
          (hsound msg hp) (by simp) hout
      · obtain rfl := Option.some.inj h
        exact (quiet_setPeer (by simp)).carries hi (by simp [owed, hf, hp])
          (by simp [usesTerminal, hf, hp])
      · obtain rfl := Option.some.inj h
        exact (quiet_setPeer (by simp)).carries hi (by simp [owed, hf, hp])
          (by simp [usesTerminal, hf, hp])
    · -- the gap
      rename_i reason hp
      have howed : s.owed (.pollPeer k now) = [peerGap now f.appId reason] := by
        simp [owed, hf, hp]
      have huses : s.usesTerminal (.pollPeer k now) = true := by simp [usesTerminal, hf, hp]
      split at h
      · rename_i terminal hok
        obtain rfl := Option.some.inj h
        refine .of_terminal hi (hi.keep rfl (rxAlive_trySend hok) rfl rfl
          (hi.peers.setPeer (by simp))) rfl _ rfl (by simp [howed, peerGap, OutboundMessage.isOwed])
          huses rfl (.inl hok) ?_
        simp [howed, inHand, setPeer]
      · rename_i e he
        obtain rfl := Option.some.inj h
        refine .of_terminal hi (hi.keep rfl rfl rfl rfl (hi.peers.setPeer (by simp))) rfl _ rfl
          (by simp [howed, peerGap, OutboundMessage.isOwed]) huses rfl (.inr ⟨⟨e, he⟩, rfl⟩) ?_
        simp [howed, inHand, setPeer]
    · -- the error of a closed stream
      rename_i hp
      dsimp only at h
      split at h
      · rename_i out hout
        obtain rfl := Option.some.inj h
        exact carries_sendPeer hi (by simp [owed, hf, hp]) (by simp [usesTerminal, hf, hp]) rfl
          (by simp) hout
      · obtain rfl := Option.some.inj h
        exact (quiet_setPeer (by simp)).carries hi (by simp [owed, hf, hp])
          (by simp [usesTerminal, hf, hp])
    · -- the report
      rename_i hp
      obtain rfl := Option.some.inj h
      have hq : Quiet s ({ s with
          fwdEvents := s.fwdEvents ++ [ForwarderEvent.lagTerminated f.appId] }.setPeer k
            { f with phase := .done }) :=
        ⟨rfl, rfl, rfl, .inl rfl, fun h => h.setPeer (by simp)⟩
      exact hq.carries hi (by simp [owed, hf, hp]) (by simp [usesTerminal, hf, hp])
    · cases h

/-! ### The writer -/

/-- A step of the writer that does not end it: what was pushed stays. -/
theorem carries_writer {sent : Bool} (hi : s.Inv) (halive : t.writerAlive = s.writerAlive)
    (hout : t.out.enqueued = s.out.enqueued ∧ t.out.rxAlive = s.out.rxAlive)
    (hterminal : t.terminal.enqueued = s.terminal.enqueued ∧
      t.terminal.rxAlive = s.terminal.rxAlive)
    (htodo : t.todo = s.todo) (hpeers : t.peers = s.peers) : Carries s (.write sent) t := by
  refine .of_held ⟨?_, ?_, ?_, ?_⟩ (fun ht => by rwa [halive] at ht) 0 (by simp) (by simp [owed])
    (by simp [SlotFree, usesTerminal]) fun _ => ?_
  · rw [hout.2, halive, hi.out]
  · rw [hterminal.2, halive, hi.terminal]
  · simpa [TodoPlain, htodo] using hi.todo
  · simpa [PeersSound, hpeers] using hi.peers
  · simp [held, owed, inHand, hout.1, hterminal.1, htodo]

/-- A write moves a frame from the queues to the wire, or ends the writer. -/
theorem carries_write {sent : Bool} (hi : s.Inv) (h : s.write sent = some t) :
    Carries s (.write sent) t := by
  unfold write at h
  -- each write takes a message from a queue, or puts the one in hand on the wire
  split at h
  case h_1 hp =>
    split at h
    · rename_i msg terminal hrecv
      obtain rfl := Option.some.inj h
      exact carries_writer hi (by simp [writerAlive, hp]) ⟨rfl, rfl⟩
        ⟨Mpsc.enqueued_recv hrecv, (Mpsc.recv_some hrecv).2.2⟩ rfl rfl
    · obtain rfl := Option.some.inj h
      exact carries_writer hi (by simp [writerAlive, hp]) ⟨rfl, rfl⟩ ⟨rfl, rfl⟩ rfl rfl
  case h_2 hp =>
    split at h
    · rename_i msg out hrecv
      obtain rfl := Option.some.inj h
      exact carries_writer hi (by simp [writerAlive, hp])
        ⟨Mpsc.enqueued_recv hrecv, (Mpsc.recv_some hrecv).2.2⟩ ⟨rfl, rfl⟩ rfl rfl
    · obtain rfl := Option.some.inj h
      refine carries_writer hi ?_ ⟨rfl, rfl⟩ ⟨rfl, rfl⟩ rfl rfl
      by_cases hsender : s.outSenderAlive = true <;> simp [writerAlive, hp, hsender]
  case h_3 msg hp =>
    split at h <;> obtain rfl := Option.some.inj h
    · exact carries_writer hi (by simp [writerAlive, hp]) ⟨rfl, rfl⟩ ⟨rfl, rfl⟩ rfl rfl
    · exact carries_writer hi (by simp [writerAlive, hp]) ⟨rfl, rfl⟩ ⟨rfl, rfl⟩ rfl rfl
  case h_4 hp =>
    obtain rfl := Option.some.inj h
    refine .of_held ⟨rfl, rfl, hi.todo, hi.peers⟩ (by simp [writerAlive]) 0 (by simp)
      (by simp [owed]) (by simp [SlotFree, usesTerminal]) fun _ => ?_
    simp [held, owed, inHand]
  case h_5 => cases h

/-! ### Runs -/

theorem step_carries {a : SocketAction ρ} (hi : s.Inv) (h : step ops s a = some t) :
    Carries s a t := by
  -- each action is quiet, or is one of the four that send
  cases a with
  | bus a =>
    simp only [step] at h
    split at h
    · obtain ⟨bus, -, rfl⟩ := Option.map_eq_some_iff.mp h
      have hq : Quiet s { s with bus } := ⟨rfl, rfl, rfl, .inl rfl, id⟩
      exact hq.carries hi rfl rfl
    · cases h
  | hub a =>
    obtain ⟨hub, -, rfl⟩ := Option.map_eq_some_iff.mp h
    have hq : Quiet s { s with peerStreams := hub } := ⟨rfl, rfl, rfl, .inl rfl, id⟩
    exact hq.carries hi rfl rfl
  | connected senders =>
    simp only [step] at h
    split at h
    · obtain rfl := Option.some.inj h
      have hq : Quiet s { s with peerSenders := some senders } := ⟨rfl, rfl, rfl, .inl rfl, id⟩
      exact hq.carries hi rfl rfl
    · cases h
  | inbound m =>
    simp only [step] at h
    split at h
    · rename_i hidle
      have hplain : s.TodoPlain := by simp [TodoPlain, List.isEmpty_iff.mp hidle.2]
      have hq : Quiet s t := by
        split at h <;> obtain rfl := Option.some.inj h
        · exact quiet_onText hplain _
        · exact ⟨rfl, rfl, rfl, .inl rfl, id⟩
        · exact ⟨rfl, rfl, rfl, .inl rfl, id⟩
      exact hq.carries hi rfl rfl
    · cases h
  | forwarderEvent =>
    simp only [step] at h
    split at h
    · rename_i hidle
      have hplain : s.TodoPlain := by simp [TodoPlain, List.isEmpty_iff.mp hidle.2]
      have hq : Quiet s t := by
        split at h
        · cases h
        · rename_i ev rest _
          obtain rfl := Option.some.inj h
          refine ⟨?_, ?_, ?_, .inr ⟨hplain, ?_⟩, ?_⟩
          all_goals cases ev <;> simp [onForwarderEvent, TodoPlain, DispatchOp.Plain, PeersSound]
      exact hq.carries hi rfl rfl
    · cases h
  | dispatch now => exact carries_dispatch hi h
  | drain appId =>
    simp only [step, drain] at h
    split at h
    · rename_i hidle
      have hplain : s.TodoPlain := by simp [TodoPlain, List.isEmpty_iff.mp hidle.2]
      have hq : Quiet s t := by
        split at h
        · obtain rfl := Option.some.inj h
          exact quiet_of_todo hplain (by simp [DispatchOp.Plain])
        · split at h
          · obtain rfl := Option.some.inj h
            exact quiet_of_todo hplain (by simp [DispatchOp.Plain])
          · cases h
      exact hq.carries hi rfl rfl
    · cases h
  | pollLocal k now => exact carries_pollLocal hi h
  | pollPeer k now => exact carries_pollPeer hi h
  | cancelPeer k =>
    simp only [step, cancelPeer] at h
    split at h
    · cases h
    · split at h
      · obtain rfl := Option.some.inj h
        exact (quiet_setPeer (by simp)).carries hi rfl rfl
      · cases h
  | write sent => exact carries_write hi h

/-- The connection with the frames it has come to owe so far. -/
def ledger (ops : SocketOps ρ κ) (app : AppState ρ) :
    Machine (Socket ρ × List (OutboundMessage Json)) (SocketAction ρ) :=
  (machine ops app).withHistory [] fun s a frames => frames ++ s.owed a

/-- While the writer is alive, every frame that came to be owed is held, as often as it was owed. -/
def OwedHeld (x : Socket ρ × List (OutboundMessage Json)) : Prop :=
  x.1.writerAlive = true → (x.2 : Multiset (OutboundMessage Json)) ≤ x.1.held

/-- **When a connection holds what it owes**: in all states of a run, exactly when each of its steps
that turns to the terminal channel finds the slot free. -/
theorem owed_held_iff (ops : SocketOps ρ κ) (app : AppState ρ) (as : List (SocketAction ρ)) :
    (ledger ops app).StatesMeet OwedHeld (ledger ops app).init as ↔
      (machine ops app).StepsMeet SlotFree (machine ops app).init as := by
  have hsteps : (ledger ops app).StepsMeet (fun x a => x.1.SlotFree a) (ledger ops app).init as ↔
      (machine ops app).StepsMeet SlotFree (machine ops app).init as :=
    Machine.stepsMeet_withHistory
  rw [← hsteps]
  refine Machine.statesMeet_iff_stepsMeet (A := fun _ => True)
    (I := fun x => x.1.Inv ∧ (x.1.writerAlive = true →
      Owed.Backed OutboundMessage.isOwed ↑x.2 x.1.held)) ?_ ?_ (by simp) ?_ ?_
  · rintro x a y - ⟨hi, hb⟩ hxy
    obtain ⟨hs, hframes⟩ := Machine.step_withHistory.mp hxy
    have hc := step_carries hi hs
    refine ⟨hc.inv, fun halive => ?_⟩
    obtain ⟨lost, hstep, -⟩ := hc.moves (hc.alive halive)
    rw [← hframes, ← Multiset.coe_add]
    exact hstep.backed (hb (hc.alive halive))
  · rintro x a y - ⟨hi, hb⟩ hP hxy
    obtain ⟨hs, hframes⟩ := Machine.step_withHistory.mp hxy
    have hc := step_carries hi hs
    cases hy : y.1.writerAlive with
    | true =>
      have hx := hc.alive hy
      obtain ⟨lost, hstep, hlost⟩ := hc.moves hx
      rw [← hlost, ← hstep.le_iff (hb hx) (hP hx), OwedHeld, ← hframes, ← Multiset.coe_add]
      exact ⟨fun h => h hy, fun h _ => h⟩
    | false =>
      -- once the writer is gone, nothing is asked of the queues
      refine ⟨fun _ => ?_, fun _ halive => by rw [hy] at halive; cases halive⟩
      intro hx
      exact hc.ends hx hy hx
  · refine ⟨inv_init ops app, fun _ => ⟨by simp [ledger, Machine.withHistory], ?_⟩⟩
    simp [ledger, Machine.withHistory, machine, held, inHand, Mpsc.enqueued]
  · intro _
    exact Multiset.zero_le (machine ops app).init.held

/-- The text of a client's ping. -/
def pingText : String := "\x7b\"type\":\"ping\"\x7d"

/-- No topics with regular expressions, and of the client's messages only the ping. -/
def pingOps : SocketOps Empty Unit where
  topics := .plain
  extractKey _ _ := none
  serializedSize _ := 0
  parseInbound text :=
    if text = pingText then .ok (.ping none) else .error "expected value at line 1 column 1"
  rfc3339 _ := none

def loneHub : AppState Empty where
  name := "hub"
  bus := {}
  peerSenders := none
  peerStreams := {}

/-- 66 pings while the writer waits for the socket: 64 pongs fill the normal queue, one takes the
terminal slot, and the last one is gone. -/
def pings : List (SocketAction Empty) :=
  (List.replicate 64 [SocketAction.inbound (.text pingText), .dispatch 0]).flatten ++
    (List.replicate 2 [SocketAction.inbound (.text pingText), .dispatch 0, .dispatch 0]).flatten

/-- With both queues full the pong of a live connection is lost. -/
theorem pong_lost : ∃ x, (ledger pingOps loneHub).Reachable x ∧ x.1.writerAlive = true ∧
    x.1.inHand = [] ∧ ¬ (x.2 : Multiset (OutboundMessage Json)) ≤ x.1.held := by
  have hrun : ((ledger pingOps loneHub).run (ledger pingOps loneHub).init pings).map
      (fun x => (x.1.writerAlive, x.1.inHand.length, x.1.held.card, x.2.length)) =
        some (true, 0, 65, 66) := by decide +kernel
  obtain ⟨x, hx, hcounts⟩ := Option.map_eq_some_iff.mp hrun
  simp only [Prod.mk.injEq] at hcounts
  obtain ⟨halive, hhand, hheld, howed⟩ := hcounts
  refine ⟨x, ⟨pings, hx⟩, halive, List.eq_nil_of_length_eq_zero hhand, fun hle => ?_⟩
  have := Multiset.card_le_card hle
  rw [hheld, Multiset.coe_card, howed] at this
  omega

end Socket

end Boardwalk
