import Boardwalk.Http.PeerSession
import Boardwalk.Http.Spec.Ndjson
import Boardwalk.Http.Spec.PeerForwarder
import Boardwalk.Http.Spec.RunStream

/-!
# What a client sees of a hub's stream

The lines of a hub's event stream go through three tasks of the gateway.  However the body is cut
into frames and however the tasks take turns, the frames of the subscription that have left the
forwarder are those of a prefix of the lines (`Carried`), so that a client whose subscription has
come to rest was sent one frame for each line (`frames_of_drained`).

`render_peer_event` makes an event of every line.  `gap_shown_iff` says for which streams the client
is shown what the hub has sent, and `body_shown_iff` says it of the streams that a hub can send: the
client is shown all of the body unless the hub has reported a gap.
-/

namespace Boardwalk

section Body

variable {toVec : Json → List UInt8} {lines : List (NdjsonLine Json)} {buf incoming : List UInt8}

/-- The texts of the lines have no newlines. -/
def OneLine (toVec : Json → List UInt8) (lines : List (NdjsonLine Json)) : Prop :=
  ∀ line ∈ lines, 10 ∉ toVec line.toJson

/-- The next line in the buffer is the first of those to come. -/
theorem nextLine_ndjsonBody {text rest : List UInt8} (hone : OneLine toVec lines)
    (hbody : buf ++ incoming = ndjsonBody toVec lines)
    (hnext : RunStream.nextLine buf = some (text, rest)) :
    ∃ line lines', lines = line :: lines' ∧ text = toVec line.toJson ∧
      rest ++ incoming = ndjsonBody toVec lines' := by
  obtain ⟨htext, rfl⟩ := RunStream.nextLine_eq_some hnext
  cases lines with
  | nil => simp [ndjsonBody] at hbody
  | cons line lines =>
    refine ⟨line, lines, rfl, ?_⟩
    have hline : 10 ∉ toVec line.toJson := hone line List.mem_cons_self
    have hbody' : text ++ 10 :: (rest ++ incoming) =
        toVec line.toJson ++ 10 :: ndjsonBody toVec lines := by
      simpa [ndjsonBody] using hbody
    -- both sides are cut at their first newline
    have hcut := congrArg RunStream.nextLine hbody'
    rw [RunStream.nextLine_append htext, RunStream.nextLine_append hline] at hcut
    simpa using hcut

theorem eq_nil_of_ndjsonBody (hnone : RunStream.nextLine buf = none)
    (hbody : buf = ndjsonBody toVec lines) : lines = [] := by
  rw [RunStream.nextLine_eq_none, hbody] at hnone
  cases lines with
  | nil => rfl
  | cons line lines => simp [ndjsonBody] at hnone

end Body

/-! ### The frame of a line -/

theorem Json.exists_asI64_i64 (z : ℤ) : ∃ m, (Json.i64 z).asI64 = some m := by
  unfold Json.i64 Number.ofI64
  split
  · exact ⟨_, rfl⟩
  · rename_i hneg
    have hnat : (Int64.ofInt z).toUInt64.toNat < 2 ^ 63 := by
      rw [Int64.toNat_toUInt64_of_le (Int64.not_lt.mp hneg)]
      exact Int64.toNatClampNeg_lt _
    simp only [Json.asI64, Number.asI64, if_pos hnat]
    exact ⟨_, rfl⟩

/-- What a peer forwarder makes of a line. -/
def NdjsonLine.frame (appId : UInt64) (fallbackTopic : String) (line : NdjsonLine Json) :
    OutboundMessage Json :=
  renderPeerEvent 0 appId fallbackTopic line.toJson

/-- Every line has a timestamp, so the clock does not matter. -/
theorem renderPeerEvent_now (now : ℤ) (appId : UInt64) (fallbackTopic : String)
    (line : NdjsonLine Json) :
    renderPeerEvent now appId fallbackTopic line.toJson = line.frame appId fallbackTopic := by
  unfold NdjsonLine.frame
  cases line with
  | event topic timestamp =>
    obtain ⟨m, hm⟩ := Json.exists_asI64_i64 timestamp
    simp [renderPeerEvent, NdjsonLine.toJson, Json.get, Json.lookupKey, hm]
  | streamGap timestamp =>
    obtain ⟨m, hm⟩ := Json.exists_asI64_i64 timestamp
    simp [renderPeerEvent, NdjsonLine.toJson, Json.get, Json.lookupKey, hm]

theorem subscription_frame (appId : UInt64) (fallbackTopic : String) (line : NdjsonLine Json) :
    (line.frame appId fallbackTopic).subscription = some (.single appId) := rfl

namespace PeerSession

variable {ρ : Type} {toVec : Json → List UInt8} {fromSlice : List UInt8 → Option Json} {k j : ℕ}
  {appId : UInt64} {fallbackTopic : String} {base : List Json}
  {lines taken rest : List (NdjsonLine Json)} {s t : PeerSession ρ}

/-- The frame is for the subscription. -/
def mine (appId : UInt64) (msg : OutboundMessage Json) : Bool :=
  decide (msg.subscription = some (.single appId))

/-- What the writer has in hand; `none` after its loop. -/
def inWriter : WriterPhase → Option (List (OutboundMessage Json))
  | .terminal | .out => some []
  | .sending msg => some [msg]
  | .closing | .ended => none

/-- What the forwarder has in hand; `none` after its loop. -/
def inForwarder : PeerForwarderPhase → Option (List (OutboundMessage Json))
  | .recv => some []
  | .send msg => some [msg]
  | .gap _ | .closed | .report | .done => none

/-! ### What has been taken, and what is still to come -/

/-- The lines `rest` are still to come to the task. -/
def Arriving (toVec : Json → List UInt8) (rest : List (NdjsonLine Json)) (incoming : List UInt8) :
    RunStream → Prop
  | .request => incoming = ndjsonBody toVec rest
  | .body buf => buf ++ incoming = ndjsonBody toVec rest
  | .returned => incoming = [] → rest = []

/-- The frames that have left the forwarder `f` are those of a prefix of the lines `taken`. -/
structure Delivers (appId : UInt64) (fallbackTopic : String) (base : List Json)
    (taken : List (NdjsonLine Json)) (s : Socket ρ) (f : PeerForwarder) : Prop where
  flow : ∀ held inHand, inWriter s.writer = some held → inForwarder f.phase = some inHand →
    ∃ n, n ≤ taken.length ∧ f.next = base.length + n ∧
      (s.wire ++ held ++ s.out.buf).filter (mine appId) ++ inHand =
        (taken.take n).map (NdjsonLine.frame appId fallbackTopic)
  terminal : ∀ inHand, inForwarder f.phase = some inHand →
    ∀ msg ∈ s.terminal.buf, mine appId msg = false

/-- The lines `taken` are broadcast after the values `base`, and `rest` is to come. -/
structure Carried (toVec : Json → List UInt8) (k j : ℕ) (appId : UInt64) (fallbackTopic : String)
    (base : List Json) (taken rest : List (NdjsonLine Json)) (s : PeerSession ρ) : Prop where
  upstream : ∃ u : Upstream, s.socket.peerStreams.upstreams[k]? = some u ∧
    u.channel.sent = base ++ taken.map (·.toJson)
  task : ∃ task, s.tasks[k]? = some task ∧ Arriving toVec rest s.incoming task
  forwarder : ∃ f : PeerForwarder, s.socket.peers[j]? = some f ∧ f.appId = appId ∧
    f.fallbackTopic = fallbackTopic ∧ f.upstream = k ∧
    Delivers appId fallbackTopic base taken s.socket f

/-! ### The upstream task -/

/-- What has been read and what is still to come make up the body, after a reply that brings no
bytes. -/
theorem Arriving.resume {incoming : List UInt8} {task task' : RunStream} {reply : PeerReply}
    (h : Arriving toVec rest incoming task) (hr : task.resume reply = some task')
    (hdata : ∀ bytes, reply ≠ .data bytes) : Arriving toVec rest incoming task' := by
  cases task with
  | request =>
    -- a request that fails leaves nothing to come, so there was nothing
    have hreturned : Arriving toVec rest incoming .returned := by
      rintro rfl
      have hbody : [] = ndjsonBody toVec rest := h
      exact eq_nil_of_ndjsonBody rfl hbody
    cases reply with
    | requestFailed =>
      obtain rfl := Option.some.inj hr
      exact hreturned
    | response status =>
      simp only [RunStream.resume] at hr
      split at hr
      · obtain rfl := Option.some.inj hr
        exact h
      · obtain rfl := Option.some.inj hr
        exact hreturned
    | data bytes => cases hr
    | trailers => cases hr
    | bodyError => cases hr
    | endOfBody => cases hr
  | body buf =>
    simp only [RunStream.resume] at hr
    split at hr
    · cases hr
    rename_i hnone
    -- a body that ends without a line left had none to come
    have hreturned : Arriving toVec rest incoming .returned := by
      rintro rfl
      have hbody : buf = ndjsonBody toVec rest := by simpa [Arriving] using h
      exact eq_nil_of_ndjsonBody (by simpa using hnone) hbody
    cases reply with
    | requestFailed => cases hr
    | response status => cases hr
    | data bytes => exact absurd rfl (hdata bytes)
    | trailers =>
      obtain rfl := Option.some.inj hr
      exact h
    | bodyError =>
      obtain rfl := Option.some.inj hr
      exact hreturned
    | endOfBody =>
      obtain rfl := Option.some.inj hr
      exact hreturned
  | returned => cases hr

/-- Bytes that arrive move from what is still to come to what has been read. -/
theorem Arriving.data {incoming : List UInt8} {task task' : RunStream} {n : ℕ}
    (h : Arriving toVec rest incoming task)
    (hr : task.resume (.data (incoming.take n)) = some task') :
    Arriving toVec rest (incoming.drop n) task' := by
  cases task with
  | request => cases hr
  | returned => cases hr
  | body buf =>
    simp only [RunStream.resume] at hr
    split at hr
    · cases hr
    obtain rfl := Option.some.inj hr
    simp only [Arriving, List.append_assoc, List.take_append_drop]
    exact h

/-- A task that goes on leaves what is broadcast. -/
theorem resume_streams {p p' : PeerStreams} {reply : PeerReply}
    (hs : p.step fromSlice (.resume k reply) = some p') : ∃ task task',
    p.tasks[k]? = some task ∧ task.resume reply = some task' ∧ p'.tasks = p.tasks.set k task' ∧
    ∀ u : Upstream, p.hub.upstreams[k]? = some u →
      ∃ u' : Upstream, p'.hub.upstreams[k]? = some u' ∧ u'.channel = u.channel := by
  obtain ⟨task, ht, hs⟩ := Option.bind_eq_some_iff.mp hs
  obtain ⟨task', hr, hs⟩ := Option.bind_eq_some_iff.mp hs
  refine ⟨task, task', ht, hr, ?_⟩
  -- the hub hears only of the end of a task
  cases task' with
  | request =>
    obtain rfl := Option.some.inj hs
    exact ⟨rfl, fun u hu => ⟨u, hu, rfl⟩⟩
  | body buf =>
    obtain rfl := Option.some.inj hs
    exact ⟨rfl, fun u hu => ⟨u, hu, rfl⟩⟩
  | returned =>
    obtain ⟨hub, hhub, rfl⟩ := Option.map_eq_some_iff.mp hs
    refine ⟨rfl, fun u hu => ?_⟩
    simp only [PeerStreamHub.step, hu] at hhub
    split at hhub
    · obtain rfl := Option.some.inj hhub
      refine ⟨{ u with running := false }, ?_, rfl⟩
      exact List.getElem?_set_self (List.getElem?_eq_some_iff.mp hu).1
    · cases hhub

/-- The forwarder does not see the upstream task. -/
theorem Carried.withStreams {p : PeerStreams}
    (h : Carried toVec k j appId fallbackTopic base taken rest s) (incoming : List UInt8)
    (hup : ∀ u : Upstream, s.socket.peerStreams.upstreams[k]? = some u →
      ∃ u' : Upstream, p.hub.upstreams[k]? = some u' ∧ u'.channel = u.channel)
    (htask : ∃ task, p.tasks[k]? = some task ∧ Arriving toVec rest incoming task) :
    Carried toVec k j appId fallbackTopic base taken rest
      { s.withStreams p with incoming } := by
  obtain ⟨u, hu, hsent⟩ := h.upstream
  obtain ⟨u', hu', hch⟩ := hup u hu
  obtain ⟨f, hf, ha, hfb, hk, hd⟩ := h.forwarder
  refine ⟨⟨u', hu', ?_⟩, htask, f, hf, ha, hfb, hk, hd.flow, hd.terminal⟩
  rw [hch]
  exact hsent

theorem Carried.resume {p : PeerStreams} {reply : PeerReply}
    (h : Carried toVec k j appId fallbackTopic base taken rest s)
    (hdata : ∀ bytes, reply ≠ .data bytes)
    (hs : s.streams.step fromSlice (.resume k reply) = some p) :
    Carried toVec k j appId fallbackTopic base taken rest (s.withStreams p) := by
  obtain ⟨task, task', ht, hr, htasks, hup⟩ := resume_streams hs
  obtain ⟨task₀, ht₀, harr⟩ := h.task
  obtain rfl := Option.some.inj (ht.symm.trans ht₀)
  refine h.withStreams s.incoming hup ⟨task', ?_, harr.resume hr hdata⟩
  rw [htasks]
  exact List.getElem?_set_self (List.getElem?_eq_some_iff.mp ht).1

theorem Carried.frame {p : PeerStreams} {n : ℕ}
    (h : Carried toVec k j appId fallbackTopic base taken rest s)
    (hs : s.streams.step fromSlice (.resume k (.data (s.incoming.take n))) = some p) :
    Carried toVec k j appId fallbackTopic base taken rest
      { s.withStreams p with incoming := s.incoming.drop n } := by
  obtain ⟨task, task', ht, hr, htasks, hup⟩ := resume_streams hs
  obtain ⟨task₀, ht₀, harr⟩ := h.task
  obtain rfl := Option.some.inj (ht.symm.trans ht₀)
  refine h.withStreams _ hup ⟨task', ?_, harr.data hr⟩
  rw [htasks]
  exact List.getElem?_set_self (List.getElem?_eq_some_iff.mp ht).1

/-- A new line does not change what has been delivered. -/
theorem Delivers.append {sock : Socket ρ} {f : PeerForwarder} (line : NdjsonLine Json)
    (h : Delivers appId fallbackTopic base taken sock f) :
    Delivers appId fallbackTopic base (taken ++ [line]) sock f := by
  refine ⟨fun held inHand hw hf => ?_, h.terminal⟩
  obtain ⟨n, hn, hnext, hflow⟩ := h.flow held inHand hw hf
  refine ⟨n, by rw [List.length_append]; omega, hnext, ?_⟩
  rw [List.take_append_of_le_length hn]
  exact hflow

/-- A line taken off the body moves from the lines to come to the lines taken. -/
theorem Carried.takeLine {p : PeerStreams}
    (h : Carried toVec k j appId fallbackTopic base taken rest s) (hone : OneLine toVec rest)
    (hserde : ∀ line ∈ rest, fromSlice (toVec line.toJson) = some line.toJson)
    (hs : s.streams.step fromSlice (.takeLine k) = some p) :
    ∃ line rest', rest = line :: rest' ∧
      Carried toVec k j appId fallbackTopic base (taken ++ [line]) rest' (s.withStreams p) := by
  obtain ⟨task, ht, hs⟩ := Option.bind_eq_some_iff.mp hs
  obtain ⟨task₀, ht₀, harr⟩ := h.task
  obtain rfl := Option.some.inj (ht.symm.trans ht₀)
  obtain ⟨⟨value, task'⟩, hl, hs⟩ := Option.bind_eq_some_iff.mp hs
  -- only a task in its body takes lines
  cases task with
  | request => cases hl
  | returned => cases hl
  | body buf =>
    obtain ⟨⟨text, buf'⟩, hnext, heq⟩ := Option.map_eq_some_iff.mp hl
    cases heq
    obtain ⟨line, rest', rfl, rfl, hbody⟩ := nextLine_ndjsonBody hone harr hnext
    refine ⟨line, rest', rfl, ?_⟩
    obtain ⟨u, hu, hsent⟩ := h.upstream
    obtain ⟨f, hf, ha, hfb, hk, hd⟩ := h.forwarder
    -- the line reads back as it was written, so the hub sends it on
    simp only [hserde line List.mem_cons_self] at hs
    obtain ⟨hub, hhub, rfl⟩ := Option.map_eq_some_iff.mp hs
    have hhub' : PeerStreamHub.step none s.socket.peerStreams (.line k line.toJson) = some hub :=
      hhub
    simp only [PeerStreamHub.step, hu] at hhub'
    split at hhub'
    · obtain rfl := Option.some.inj hhub'
      refine ⟨⟨{ u with channel := u.channel.send line.toJson }, ?_, ?_⟩, ⟨.body buf', ?_, hbody⟩,
        f, hf, ha, hfb, hk, (hd.append line).flow, hd.terminal⟩
      · exact List.getElem?_set_self (List.getElem?_eq_some_iff.mp hu).1
      · simp [Broadcast.send, hsent]
      · exact List.getElem?_set_self (List.getElem?_eq_some_iff.mp ht).1
    · cases hhub'

/-! ### The forwarder -/

theorem mine_frame (line : NdjsonLine Json) : mine appId (line.frame appId fallbackTopic) = true :=
  decide_eq_true (subscription_frame appId fallbackTopic line)

/-- A value is received at the position it was sent at. -/
theorem recv_value {hub : PeerStreamHub} {u : Upstream} {next next' : ℕ} {v : Json}
    (hu : hub.upstreams[k]? = some u) (hr : hub.recv k next = (.value v, next')) :
    u.channel.sent[next]? = some v ∧ next' = next + 1 := by
  simp only [PeerStreamHub.recv, hu, Broadcast.recv] at hr
  split at hr
  · cases hr
  · split at hr
    · rename_i x hx
      cases hr
      exact ⟨hx, rfl⟩
    · split at hr <;> cases hr

/-- The forwarder has left its loop. -/
theorem delivers_of_left {sock : Socket ρ} {f : PeerForwarder} (h : inForwarder f.phase = none) :
    Delivers appId fallbackTopic base taken sock f := by
  refine ⟨fun held inHand _ hf => ?_, fun inHand hf => ?_⟩
  · rw [h] at hf
    cases hf
  · rw [h] at hf
    cases hf

/-- A value received is the one after those that have left the forwarder. -/
theorem Delivers.value {sock : Socket ρ} {f : PeerForwarder} {u : Upstream} {v : Json} {next : ℕ}
    {now : ℤ} (h : Delivers appId fallbackTopic base taken sock f) (hrecv : f.phase = .recv)
    (hsent : u.channel.sent = base ++ taken.map (·.toJson))
    (hv : u.channel.sent[f.next]? = some v ∧ next = f.next + 1) :
    Delivers appId fallbackTopic base taken (sock.setPeer j
        { f with next, phase := .send (renderPeerEvent now appId fallbackTopic v) })
      { f with next, phase := .send (renderPeerEvent now appId fallbackTopic v) } := by
  refine ⟨fun held inHand hw hf => ?_, fun inHand _ => h.terminal [] (by rw [hrecv]; rfl)⟩
  obtain ⟨n, hn, hnext, hflow⟩ := h.flow held [] hw (by rw [hrecv]; rfl)
  obtain ⟨hv, rfl⟩ := hv
  rw [hsent, hnext, List.getElem?_append_right (by omega), Nat.add_sub_cancel_left,
    List.getElem?_map] at hv
  obtain ⟨line, hline, rfl⟩ := Option.map_eq_some_iff.mp hv
  obtain rfl := Option.some.inj hf
  have hlt := (List.getElem?_eq_some_iff.mp hline).1
  refine ⟨n + 1, hlt, by simp only [hnext]; omega, ?_⟩
  rw [List.append_nil] at hflow
  rw [List.take_add_one, hline, List.map_append, ← hflow, renderPeerEvent_now]
  rfl

/-- A frame queued has left the forwarder. -/
theorem Delivers.sent {sock : Socket ρ} {f : PeerForwarder} {msg : OutboundMessage Json}
    {out : Mpsc (OutboundMessage Json)} (h : Delivers appId fallbackTopic base taken sock f)
    (hsend : f.phase = .send msg) (hout : sock.out.trySend msg = .ok out) :
    Delivers appId fallbackTopic base taken ({ sock with out }.setPeer j { f with phase := .recv })
      { f with phase := .recv } := by
  refine ⟨fun held inHand hw hf => ?_, fun inHand _ => h.terminal [msg] (by rw [hsend]; rfl)⟩
  obtain ⟨n, hn, hnext, hflow⟩ := h.flow held [msg] hw (by rw [hsend]; rfl)
  refine ⟨n, hn, hnext, ?_⟩
  obtain rfl := Option.some.inj hf
  have hmine : mine appId msg = true := by
    have hmem : msg ∈ (taken.take n).map (NdjsonLine.frame appId fallbackTopic) := by
      rw [← hflow]
      exact List.mem_append_right _ (List.mem_singleton_self msg)
    obtain ⟨line, -, rfl⟩ := List.mem_map.mp hmem
    exact mine_frame line
  rw [List.append_nil, ← hflow]
  simp only [Socket.setPeer, Mpsc.trySend_ok hout, Mpsc.push]
  rw [← List.append_assoc, List.filter_append _ [msg], List.filter_cons_of_pos hmine,
    List.filter_nil]

theorem Carried.poll {now : ℤ} {sock : Socket ρ}
    (h : Carried toVec k j appId fallbackTopic base taken rest s)
    (hs : s.socket.pollPeer j now = some sock) :
    Carried toVec k j appId fallbackTopic base taken rest { s with socket := sock } := by
  obtain ⟨u, hu, hsent⟩ := h.upstream
  obtain ⟨f, hf, rfl, rfl, rfl, hd⟩ := h.forwarder
  obtain ⟨f', hf', hpoll⟩ := Socket.peerPolled_of_pollPeer hs
  obtain rfl := Option.some.inj (hf.symm.trans hf')
  -- the forwarder stays where it is, and the channel is not touched
  have hset : ∀ g, (s.socket.peers.set j g)[j]? = some g :=
    fun g => List.getElem?_set_self (List.getElem?_eq_some_iff.mp hf).1
  cases hpoll with
  | value v next hrecv hr heq =>
    subst heq
    have hv := recv_value hu hr
    exact ⟨⟨u, hu, hsent⟩, h.task, _, hset _, rfl, rfl, rfl, hd.value hrecv hsent hv⟩
  | lagged skipped next hrecv hr heq =>
    subst heq
    exact ⟨⟨u, hu, hsent⟩, h.task, _, hset _, rfl, rfl, rfl, delivers_of_left rfl⟩
  | closed hrecv heq =>
    subst heq
    exact ⟨⟨u, hu, hsent⟩, h.task, _, hset _, rfl, rfl, rfl, delivers_of_left rfl⟩
  | sent msg out hsend hout heq =>
    subst heq
    exact ⟨⟨u, hu, hsent⟩, h.task, _, hset _, rfl, rfl, rfl, hd.sent hsend hout⟩
  | full msg hsend hfull heq =>
    subst heq
    exact ⟨⟨u, hu, hsent⟩, h.task, _, hset _, rfl, rfl, rfl, delivers_of_left rfl⟩
  | hangup msg hsend hclosed heq =>
    -- from here on the forwarder is past its queue, and promises nothing more
    subst heq
    exact ⟨⟨u, hu, hsent⟩, h.task, _, hset _, rfl, rfl, rfl, delivers_of_left rfl⟩
  | gap reason terminal hgap heq =>
    subst heq
    exact ⟨⟨u, hu, hsent⟩, h.task, _, hset _, rfl, rfl, rfl, delivers_of_left rfl⟩
  | error out hclosed heq =>
    subst heq
    exact ⟨⟨u, hu, hsent⟩, h.task, _, hset _, rfl, rfl, rfl, delivers_of_left rfl⟩
  | report hreport heq =>
    subst heq
    exact ⟨⟨u, hu, hsent⟩, h.task, _, hset _, rfl, rfl, rfl, delivers_of_left rfl⟩

/-! ### The other tasks and the writer -/

/-- The connection goes on and delivers the same frames. -/
theorem Carried.keep {sock : Socket ρ}
    (h : Carried toVec k j appId fallbackTopic base taken rest s)
    (hup : sock.peerStreams = s.socket.peerStreams) (hpeers : sock.peers = s.socket.peers)
    (hflow : ∀ held, inWriter sock.writer = some held → ∃ held',
      inWriter s.socket.writer = some held' ∧
      ((∀ msg ∈ s.socket.terminal.buf, mine appId msg = false) →
        (sock.wire ++ held ++ sock.out.buf).filter (mine appId) =
          (s.socket.wire ++ held' ++ s.socket.out.buf).filter (mine appId)))
    (hterminal : ∀ msg ∈ sock.terminal.buf, msg ∈ s.socket.terminal.buf ∨ mine appId msg = false) :
    Carried toVec k j appId fallbackTopic base taken rest { s with socket := sock } := by
  obtain ⟨u, hu, hsent⟩ := h.upstream
  obtain ⟨f, hf, ha, hfb, hk, hd⟩ := h.forwarder
  refine ⟨⟨u, by rw [hup]; exact hu, hsent⟩, h.task, f, by rw [hpeers]; exact hf, ha, hfb, hk, ?_,
    ?_⟩
  · -- what is written and what waits are as before, as far as `appId` is concerned
    intro held inHand hw hfw
    obtain ⟨held', hw', heq⟩ := hflow held hw
    obtain ⟨n, hn, hnext, hpre⟩ := hd.flow held' inHand hw' hfw
    refine ⟨n, hn, hnext, ?_⟩
    rw [heq (hd.terminal inHand hfw)]
    exact hpre
  · intro inHand hfw msg hmem
    rcases hterminal msg hmem with hold | hother
    · exact hd.terminal inHand hfw msg hold
    · exact hother

/-- Frames of other subscriptions leave the lines in order. -/
theorem Carried.other {terminal : Bool} {msg : OutboundMessage Json}
    (h : Carried toVec k j appId fallbackTopic base taken rest s)
    (hmsg : msg.subscription ≠ some (.single appId)) :
    Carried toVec k j appId fallbackTopic base taken rest
      { s with socket := push s.socket terminal msg } := by
  -- the message is for another subscription
  have hother : mine appId msg = false := decide_eq_false hmsg
  unfold push
  split
  · split
    · rename_i q hq
      refine h.keep rfl rfl (fun held hw => ⟨held, hw, fun _ => rfl⟩) fun m hm => ?_
      rw [Mpsc.trySend_ok hq] at hm
      rcases List.mem_append.mp hm with hm | hm
      · exact .inl hm
      · exact .inr (List.mem_singleton.mp hm ▸ hother)
    · exact h
  · split
    · rename_i q hq
      refine h.keep rfl rfl (fun held hw => ⟨held, hw, fun _ => ?_⟩) fun m hm => .inl hm
      rw [Mpsc.trySend_ok hq]
      simp only [Mpsc.push]
      have hnil : [msg].filter (mine appId) = [] := List.filter_cons_of_neg (by simp [hother])
      rw [← List.append_assoc, List.filter_append _ [msg], hnil, List.append_nil]
    · exact h

theorem Carried.write {sent : Bool} {sock : Socket ρ}
    (h : Carried toVec k j appId fallbackTopic base taken rest s)
    (hs : s.socket.write sent = some sock) :
    Carried toVec k j appId fallbackTopic base taken rest { s with socket := sock } := by
  unfold Socket.write at hs
  split at hs
  · -- the terminal queue: none of its messages is for `appId`
    rename_i hw
    split at hs
    · rename_i msg q hq
      obtain rfl := Option.some.inj hs
      obtain ⟨hbuf, -, -⟩ := Mpsc.recv_some hq
      refine h.keep rfl rfl (fun held hheld => ⟨[], by rw [hw]; rfl, fun hterm => ?_⟩)
        fun m hm => ?_
      · obtain rfl := Option.some.inj hheld
        have hmsg : mine appId msg = false := hterm msg (by rw [hbuf]; exact List.mem_cons_self)
        simp [hmsg]
      · exact .inl (by rw [hbuf]; exact List.mem_cons_of_mem _ hm)
    · obtain rfl := Option.some.inj hs
      exact h.keep rfl rfl (fun held hheld => ⟨held, by rw [hw]; exact hheld, fun _ => rfl⟩)
        fun m hm => .inl hm
  · -- the out queue: what was in it is now in hand
    rename_i hw
    split at hs
    · rename_i msg q hq
      obtain rfl := Option.some.inj hs
      obtain ⟨hbuf, -, -⟩ := Mpsc.recv_some hq
      refine h.keep rfl rfl (fun held hheld => ⟨[], by rw [hw]; rfl, fun _ => ?_⟩)
        fun m hm => .inl hm
      obtain rfl := Option.some.inj hheld
      simp [hbuf]
    · obtain rfl := Option.some.inj hs
      refine h.keep rfl rfl (fun held hheld => ⟨[], by rw [hw]; rfl, fun _ => ?_⟩)
        fun m hm => .inl hm
      simp only at hheld
      split at hheld
      · obtain rfl := Option.some.inj hheld
        rfl
      · cases hheld
  · -- the message in hand goes on the wire
    rename_i msg hw
    split at hs
    · obtain rfl := Option.some.inj hs
      refine h.keep rfl rfl (fun held hheld => ⟨[msg], by rw [hw]; rfl, fun _ => ?_⟩)
        fun m hm => .inl hm
      obtain rfl := Option.some.inj hheld
      simp
    · obtain rfl := Option.some.inj hs
      exact h.keep rfl rfl (fun held hheld => by cases hheld) fun m hm => .inl hm
  · obtain rfl := Option.some.inj hs
    exact h.keep rfl rfl (fun held hheld => by cases hheld) fun m hm => .inl hm
  · cases hs

/-! ### Runs -/

theorem Carried.step {a : PeerSessionAction} (hone : OneLine toVec rest)
    (hserde : ∀ line ∈ rest, fromSlice (toVec line.toJson) = some line.toJson)
    (h : Carried toVec k j appId fallbackTopic base taken rest s)
    (hs : s.step fromSlice k j appId a = some t) :
    ∃ taken' rest', taken' ++ rest' = taken ++ rest ∧
      Carried toVec k j appId fallbackTopic base taken' rest' t := by
  -- lines are taken by `takeLine` only; the rest keeps them apart
  cases a with
  | resume reply =>
    refine ⟨taken, rest, rfl, ?_⟩
    simp only [PeerSession.step] at hs
    split at hs
    · cases hs
    · split at hs
      · obtain ⟨p, hp, rfl⟩ := Option.map_eq_some_iff.mp hs
        exact h.resume (by simp) hp
      · cases hs
    · rename_i hdata _
      obtain ⟨p, hp, rfl⟩ := Option.map_eq_some_iff.mp hs
      exact h.resume hdata hp
  | frame n =>
    obtain ⟨p, hp, rfl⟩ := Option.map_eq_some_iff.mp hs
    exact ⟨taken, rest, rfl, h.frame hp⟩
  | takeLine =>
    obtain ⟨p, hp, rfl⟩ := Option.map_eq_some_iff.mp hs
    obtain ⟨line, rest', rfl, h'⟩ := h.takeLine hone hserde hp
    exact ⟨taken ++ [line], rest', by simp, h'⟩
  | poll now =>
    obtain ⟨sock, hsock, rfl⟩ := Option.map_eq_some_iff.mp hs
    exact ⟨taken, rest, rfl, h.poll hsock⟩
  | other terminal msg =>
    simp only [PeerSession.step] at hs
    split at hs
    · cases hs
    · rename_i hmsg
      obtain rfl := Option.some.inj hs
      exact ⟨taken, rest, rfl, h.other hmsg⟩
  | write sent =>
    obtain ⟨sock, hsock, rfl⟩ := Option.map_eq_some_iff.mp hs
    exact ⟨taken, rest, rfl, h.write hsock⟩

theorem Carried.run {as : List PeerSessionAction} {init : PeerSession ρ}
    (hone : OneLine toVec lines)
    (hserde : ∀ line ∈ lines, fromSlice (toVec line.toJson) = some line.toJson) :
    ∀ {s t : PeerSession ρ} {taken rest : List (NdjsonLine Json)}, taken ++ rest = lines →
      Carried toVec k j appId fallbackTopic base taken rest s →
      (machine fromSlice k j appId init).run s as = some t →
      ∃ taken' rest', taken' ++ rest' = lines ∧
        Carried toVec k j appId fallbackTopic base taken' rest' t := by
  induction as with
  | nil =>
    intro s t taken rest hl h hr
    obtain rfl : s = t := by simpa [Machine.run] using hr
    exact ⟨taken, rest, hl, h⟩
  | cons a as ih =>
    intro s t taken rest hl h hr
    obtain ⟨s', hs, hr⟩ := Machine.run_cons.mp hr
    have hrest : ∀ line ∈ rest, line ∈ lines := fun line hmem => hl ▸ List.mem_append_right _ hmem
    obtain ⟨taken', rest', hl', h'⟩ := h.step (fun line hmem => hone line (hrest line hmem))
      (fun line hmem => hserde line (hrest line hmem)) hs
    exact ih (hl'.trans hl) h' hr

/-- All bytes have arrived and are cut into lines, and the lines have gone through the forwarder,
the queue and the writer.  The forwarder is at its receive, where it does not come back to after a
lag or a full queue. -/
structure Drained (k j : ℕ) (s : PeerSession ρ) : Prop where
  arrived : s.incoming = []
  cut : ∀ buf, s.tasks[k]? = some (.body buf) → RunStream.nextLine buf = none
  received : ∃ (u : Upstream) (f : PeerForwarder), s.socket.peerStreams.upstreams[k]? = some u ∧
    s.socket.peers[j]? = some f ∧ f.phase = .recv ∧ f.next = u.channel.sent.length
  written : s.socket.out.buf = [] ∧ inWriter s.socket.writer = some []

/-- The frames of the subscription that the client was sent. -/
def frames (appId : UInt64) (s : PeerSession ρ) : List (OutboundMessage Json) :=
  s.socket.wire.filter (mine appId)

/-- A subscription at rest has sent one frame for each line. -/
theorem Carried.frames_of_drained (h : Carried toVec k j appId fallbackTopic base taken rest s)
    (hd : s.Drained k j) :
    rest = [] ∧ s.frames appId = taken.map (NdjsonLine.frame appId fallbackTopic) := by
  obtain ⟨task, ht, harr⟩ := h.task
  obtain ⟨u, hu, hsent⟩ := h.upstream
  obtain ⟨f, hf, -, -, -, hdel⟩ := h.forwarder
  obtain ⟨u', f', hu', hf', hphase, hnext⟩ := hd.received
  obtain rfl := Option.some.inj (hu.symm.trans hu')
  obtain rfl := Option.some.inj (hf.symm.trans hf')
  constructor
  · -- the body has arrived and nothing of it is left, so no line is
    rw [hd.arrived] at harr
    cases task with
    | request => exact eq_nil_of_ndjsonBody rfl harr
    | body buf =>
      have hbody : buf = ndjsonBody toVec rest := by simpa [Arriving] using harr
      exact eq_nil_of_ndjsonBody (hd.cut buf ht) hbody
    | returned => exact harr rfl
  · obtain ⟨n, hn, hpos, hflow⟩ := hdel.flow [] [] hd.written.2 (by rw [hphase]; rfl)
    -- the forwarder has read the channel to its end
    have hall : n = taken.length := by
      rw [hsent, List.length_append, List.length_map] at hnext
      omega
    rw [hall, List.take_length, hd.written.1] at hflow
    simpa [frames] using hflow

/-! ### A run that comes to rest -/

/-- The writer has emptied the queues, and nothing else has changed. -/
structure Flushed (s t : Socket ρ) : Prop where
  writer : t.writer = .terminal
  out : t.out.buf = []
  terminal : t.terminal.buf = []
  capacity : t.out.capacity = s.out.capacity
  reserved : t.out.reserved = s.out.reserved
  rxAlive : t.out.rxAlive = s.out.rxAlive
  peers : t.peers = s.peers
  streams : t.peerStreams = s.peerStreams

theorem Flushed.of_eq {s s' t : Socket ρ} (h : Flushed s' t)
    (hcap : s'.out.capacity = s.out.capacity) (hres : s'.out.reserved = s.out.reserved)
    (hrx : s'.out.rxAlive = s.out.rxAlive) (hpeers : s'.peers = s.peers)
    (hstreams : s'.peerStreams = s.peerStreams) : Flushed s t :=
  ⟨h.writer, h.out, h.terminal, h.capacity.trans hcap, h.reserved.trans hres, h.rxAlive.trans hrx,
    h.peers.trans hpeers, h.streams.trans hstreams⟩

/-- The writer sends what it has, and takes the next message. -/
def Writes (s t : Socket ρ) : Prop := Relation.ReflTransGen (fun s t => s.write true = some t) s t

/-- A writer that drains the terminal queue first can flush both queues. -/
theorem exists_flushed_of_terminal {n : ℕ} : ∀ {s : Socket ρ}, s.writer = .terminal →
    s.terminal.buf.length + s.out.buf.length = n → ∃ t, Writes s t ∧ Flushed s t := by
  -- on what is queued: the terminal queue first, then `out`
  induction n with
  | zero =>
    intro s hw hlen
    have hterm : s.terminal.buf = [] := List.eq_nil_of_length_eq_zero (by omega)
    have hout : s.out.buf = [] := List.eq_nil_of_length_eq_zero (by omega)
    exact ⟨s, .refl, hw, hout, hterm, rfl, rfl, rfl, rfl, rfl⟩
  | succ n ih =>
    intro s hw hlen
    cases hterm : s.terminal.buf with
    | cons msg rest =>
      let terminal := { s.terminal with buf := rest, received := s.terminal.received ++ [msg] }
      -- one message takes two writes
      let s₁ : Socket ρ := { s with terminal, writer := .sending msg }
      let s₂ : Socket ρ := { s₁ with writer := .terminal, wire := s.wire ++ [msg] }
      have h₁ : s.write true = some s₁ := by simp [Socket.write, hw, Mpsc.recv, hterm, s₁, terminal]
      have h₂ : s₁.write true = some s₂ := by simp [Socket.write, s₁, s₂]
      have hlen₂ : s₂.terminal.buf.length + s₂.out.buf.length = n := by
        rw [hterm, List.length_cons] at hlen
        show rest.length + s.out.buf.length = n
        omega
      obtain ⟨t, ht, hf⟩ := ih (s := s₂) rfl hlen₂
      exact ⟨t, .head h₁ (.head h₂ ht), hf.of_eq rfl rfl rfl rfl rfl⟩
    | nil =>
      cases hout : s.out.buf with
      | nil => simp [hterm, hout] at hlen
      | cons msg rest =>
        let out := { s.out with buf := rest, received := s.out.received ++ [msg] }
        -- an empty terminal queue hands over to `out`, so it takes three
        let s₁ : Socket ρ := { s with writer := .out }
        let s₂ : Socket ρ := { s₁ with out, writer := .sending msg }
        let s₃ : Socket ρ := { s₂ with writer := .terminal, wire := s.wire ++ [msg] }
        have h₁ : s.write true = some s₁ := by simp [Socket.write, hw, Mpsc.recv, hterm, s₁]
        have h₂ : s₁.write true = some s₂ := by simp [Socket.write, Mpsc.recv, hout, s₁, s₂, out]
        have h₃ : s₂.write true = some s₃ := by simp [Socket.write, s₁, s₂, s₃]
        have hlen₃ : s₃.terminal.buf.length + s₃.out.buf.length = n := by
          rw [hterm, hout, List.length_nil, List.length_cons] at hlen
          show s.terminal.buf.length + rest.length = n
          rw [hterm, List.length_nil]
          omega
        obtain ⟨t, ht, hf⟩ := ih (s := s₃) rfl hlen₃
        exact ⟨t, .head h₁ (.head h₂ (.head h₃ ht)), hf.of_eq rfl rfl rfl rfl rfl⟩

/-- With the forwarder waiting, everything queued can be written. -/
theorem exists_flushed {s : Socket ρ} {held : List (OutboundMessage Json)} {f : PeerForwarder}
    (hw : inWriter s.writer = some held) (hf : s.peers[j]? = some f)
    (hphase : f.phase = .recv) : ∃ t, Writes s t ∧ Flushed s t := by
  cases hwriter : s.writer with
  | terminal => exact exists_flushed_of_terminal hwriter rfl
  | out =>
    cases hout : s.out.buf with
    | cons msg rest =>
      let out := { s.out with buf := rest, received := s.out.received ++ [msg] }
      let s₁ : Socket ρ := { s with out, writer := .sending msg }
      let s₂ : Socket ρ := { s₁ with writer := .terminal, wire := s.wire ++ [msg] }
      have h₁ : s.write true = some s₁ := by simp [Socket.write, hwriter, Mpsc.recv, hout, s₁, out]
      have h₂ : s₁.write true = some s₂ := by simp [Socket.write, s₁, s₂]
      obtain ⟨t, ht, hfl⟩ := exists_flushed_of_terminal (s := s₂) rfl rfl
      exact ⟨t, .head h₁ (.head h₂ ht), hfl.of_eq rfl rfl rfl rfl rfl⟩
    | nil =>
      -- the forwarder still holds a sender, so the writer goes on
      have halive : s.outSenderAlive = true := by
        simp only [Socket.outSenderAlive, Bool.or_eq_true, List.any_eq_true]
        exact .inr ⟨f, List.mem_of_getElem? hf, by rw [hphase]⟩
      let s₁ : Socket ρ := { s with writer := .terminal }
      have h₁ : s.write true = some s₁ := by
        simp [Socket.write, hwriter, Mpsc.recv, hout, halive, s₁]
      obtain ⟨t, ht, hfl⟩ := exists_flushed_of_terminal (s := s₁) rfl rfl
      exact ⟨t, .head h₁ ht, hfl.of_eq rfl rfl rfl rfl rfl⟩
  | sending msg =>
    let s₁ : Socket ρ := { s with writer := .terminal, wire := s.wire ++ [msg] }
    have h₁ : s.write true = some s₁ := by simp [Socket.write, hwriter, s₁]
    obtain ⟨t, ht, hfl⟩ := exists_flushed_of_terminal (s := s₁) rfl rfl
    exact ⟨t, .head h₁ ht, hfl.of_eq rfl rfl rfl rfl rfl⟩
  | closing =>
    rw [hwriter] at hw
    cases hw
  | ended =>
    rw [hwriter] at hw
    cases hw

theorem leads_step {init : PeerSession ρ} {a : PeerSessionAction}
    (h : s.step fromSlice k j appId a = some t) : (machine fromSlice k j appId init).Leads s t :=
  Machine.Leads.single (a := a) h

theorem leads_of_writes {init : PeerSession ρ} {sock : Socket ρ} (h : Writes s.socket sock) :
    (machine fromSlice k j appId init).Leads s { s with socket := sock } := by
  induction h with
  | refl => exact .refl s
  | tail _ hstep ih =>
    refine ih.trans (leads_step (a := .write true) ?_)
    simp [step, hstep]

/-- Everything but the hub's body is at rest. -/
structure Ready (k j : ℕ) (s : PeerSession ρ) : Prop where
  task : s.tasks[k]? = some (.body [])
  received : ∃ (u : Upstream) (f : PeerForwarder), s.socket.peerStreams.upstreams[k]? = some u ∧
    u.running = true ∧ 0 < u.channel.capacity ∧ s.socket.peers[j]? = some f ∧ f.phase = .recv ∧
    f.upstream = k ∧ f.next = u.channel.sent.length
  room : 0 < s.socket.out.capacity ∧ s.socket.out.reserved = 0 ∧ s.socket.out.rxAlive = true
  writer : s.socket.writer = .terminal
  queues : s.socket.out.buf = [] ∧ s.socket.terminal.buf = []

theorem Ready.drained (h : s.Ready k j) (hin : s.incoming = []) : s.Drained k j := by
  obtain ⟨u, f, hu, -, -, hf, hphase, -, hnext⟩ := h.received
  refine ⟨hin, fun buf hbuf => ?_, ⟨u, f, hu, hf, hphase, hnext⟩, h.queues.1, by rw [h.writer]; rfl⟩
  rw [h.task] at hbuf
  cases hbuf
  rfl

/-- The task takes a line off the body and broadcasts it. -/
theorem Ready.broadcast {line : NdjsonLine Json} {bytes : List UInt8} (h : s.Ready k j)
    (appId : UInt64) (init : PeerSession ρ) (hline : 10 ∉ toVec line.toJson)
    (hserde : fromSlice (toVec line.toJson) = some line.toJson)
    (hin : s.incoming = toVec line.toJson ++ 10 :: bytes) {u : Upstream}
    (hu : s.socket.peerStreams.upstreams[k]? = some u) (hrun : u.running = true) :
    ∃ t : PeerSession ρ, (machine fromSlice k j appId init).Leads s t ∧
      t.incoming = bytes ∧ t.tasks[k]? = some (.body []) ∧
      t.socket = { s.socket with
        peerStreams := { s.socket.peerStreams with
          upstreams := s.socket.peerStreams.upstreams.set k
            { u with channel := u.channel.send line.toJson } } } := by
  have hlt := (List.getElem?_eq_some_iff.mp h.task).1
  let text := toVec line.toJson ++ [10]
  -- the frame is exactly one line
  have htake : s.incoming.take text.length = text := by
    rw [hin, show toVec line.toJson ++ 10 :: bytes = text ++ bytes by simp [text]]
    exact List.take_left
  have hdrop : s.incoming.drop text.length = bytes := by
    rw [hin, show toVec line.toJson ++ 10 :: bytes = text ++ bytes by simp [text]]
    exact List.drop_left
  let s₁ : PeerSession ρ := { s with tasks := s.tasks.set k (.body text), incoming := bytes }
  have h₁ : s.step fromSlice k j appId (.frame text.length) = some s₁ := by
    simp [step, htake, hdrop, streams, PeerStreams.step, h.task, RunStream.resume,
      RunStream.nextLine, PeerStreams.setTask, withStreams, s₁]
  have htask₁ : s₁.tasks[k]? = some (.body text) := List.getElem?_set_self hlt
  -- the buffer gives the line back
  have hnext : RunStream.nextLine text = some (toVec line.toJson, []) :=
    RunStream.nextLine_append hline
  let hub : PeerStreamHub := { s.socket.peerStreams with
    upstreams := s.socket.peerStreams.upstreams.set k
      { u with channel := u.channel.send line.toJson } }
  let s₂ : PeerSession ρ := s₁.withStreams ⟨hub, s₁.tasks.set k (.body [])⟩
  have hhub : PeerStreamHub.step none s₁.socket.peerStreams (.line k line.toJson) = some hub := by
    simp only [PeerStreamHub.step, s₁, hu, hrun, if_true, hub]
  have h₂ : s₁.step fromSlice k j appId .takeLine = some s₂ := by
    simp [step, streams, PeerStreams.step, htask₁, RunStream.takeLine, hnext, hserde, hhub, s₂]
  refine ⟨s₂, (leads_step h₁).trans (leads_step h₂), rfl, ?_, rfl⟩
  exact List.getElem?_set_self (by rw [List.length_set]; exact hlt)

/-- The forwarder renders the value it is behind, and the writer sends it. -/
theorem exists_forwarded {u : Upstream} {f : PeerForwarder} {v : Json}
    (fromSlice : List UInt8 → Option Json) (appId : UInt64) (init : PeerSession ρ)
    (hu : s.socket.peerStreams.upstreams[k]? = some u) (hcap : 0 < u.channel.capacity)
    (hf : s.socket.peers[j]? = some f) (hphase : f.phase = .recv) (hk : f.upstream = k)
    (hv : u.channel.sent[f.next]? = some v) (hlast : u.channel.sent.length = f.next + 1)
    (hroom : 0 < s.socket.out.capacity ∧ s.socket.out.reserved = 0 ∧ s.socket.out.rxAlive = true)
    (hw : s.socket.writer = .terminal) (hout : s.socket.out.buf = []) :
    ∃ t : PeerSession ρ, (machine fromSlice k j appId init).Leads s t ∧
      t.incoming = s.incoming ∧ t.tasks = s.tasks ∧
      t.socket.peerStreams = s.socket.peerStreams ∧
      t.socket.peers = s.socket.peers.set j { f with next := f.next + 1 } ∧
      t.socket.out.capacity = s.socket.out.capacity ∧ t.socket.out.reserved = 0 ∧
      t.socket.out.rxAlive = true ∧ t.socket.writer = .terminal ∧ t.socket.out.buf = [] ∧
      t.socket.terminal.buf = [] := by
  -- received, sent, and then written out
  have hlt := (List.getElem?_eq_some_iff.mp hf).1
  let msg := renderPeerEvent 0 f.appId f.fallbackTopic v
  let f₁ : PeerForwarder := { f with next := f.next + 1, phase := .send msg }
  let sock₁ : Socket ρ := s.socket.setPeer j f₁
  have hrecv : s.socket.peerStreams.recv f.upstream f.next = (.value v, f.next + 1) := by
    have hlag : ¬ f.next < u.channel.sent.length - u.channel.capacity := by omega
    simp only [PeerStreamHub.recv, hk, hu, Broadcast.recv, if_neg hlag, hv]
  have h₁ : s.step fromSlice k j appId (.poll 0) = some { s with socket := sock₁ } := by
    simp only [step, Socket.pollPeer, hf, hphase, hrecv, Option.map_some]
    rfl
  have hf₁ : sock₁.peers[j]? = some f₁ := List.getElem?_set_self hlt
  have hsend : sock₁.out.trySend msg = .ok (s.socket.out.push msg) := by
    have hhas : s.socket.out.hasRoom = true := by
      simp [Mpsc.hasRoom, hout, hroom.1, hroom.2.1]
    -- the forwarder is not behind the channel
    show s.socket.out.trySend msg = _
    rw [Mpsc.trySend_of_rxAlive hroom.2.2, if_pos hhas]
  let f₂ : PeerForwarder := { f with next := f.next + 1 }
  let sock₂ : Socket ρ := { sock₁ with out := s.socket.out.push msg }.setPeer j f₂
  have h₂ : PeerSession.step fromSlice k j appId { s with socket := sock₁ } (.poll 0) =
      some { s with socket := sock₂ } := by
    simp only [step, Socket.pollPeer, hf₁, hsend, Option.map_some, f₁]
    rw [← hphase]
  have hpeers : sock₂.peers = s.socket.peers.set j f₂ := List.set_set ..
  have hf₂ : sock₂.peers[j]? = some f₂ := by
    rw [hpeers]
    exact List.getElem?_set_self hlt
  have hheld : inWriter sock₂.writer = some [] := by
    show inWriter s.socket.writer = _
    rw [hw]
    rfl
  -- the writer empties both queues
  obtain ⟨sock, hwrites, hfl⟩ := exists_flushed hheld hf₂ hphase
  have h₃ : (machine fromSlice k j appId init).Leads { s with socket := sock₂ }
      { s with socket := sock } := leads_of_writes hwrites
  exact ⟨_, ((leads_step h₁).trans (leads_step h₂)).trans h₃, rfl, rfl, hfl.streams,
    hfl.peers.trans hpeers, hfl.capacity, hfl.reserved.trans hroom.2.1,
    hfl.rxAlive.trans hroom.2.2, hfl.writer, hfl.out, hfl.terminal⟩

/-- One line goes all the way. -/
theorem Ready.line {line : NdjsonLine Json} {bytes : List UInt8} (h : s.Ready k j)
    (appId : UInt64) (init : PeerSession ρ) (hline : 10 ∉ toVec line.toJson)
    (hserde : fromSlice (toVec line.toJson) = some line.toJson)
    (hin : s.incoming = toVec line.toJson ++ 10 :: bytes) :
    ∃ t : PeerSession ρ, (machine fromSlice k j appId init).Leads s t ∧ t.Ready k j ∧
      t.incoming = bytes := by
  obtain ⟨u, f, hu, hrun, hcap, hf, hphase, hk, hnext⟩ := h.received
  obtain ⟨s₁, hleads₁, hin₁, htask₁, hsock₁⟩ :=
    h.broadcast appId init hline hserde hin hu hrun
  let u₁ : Upstream := { u with channel := u.channel.send line.toJson }
  have hu₁ : s₁.socket.peerStreams.upstreams[k]? = some u₁ := by
    rw [hsock₁]
    exact List.getElem?_set_self (List.getElem?_eq_some_iff.mp hu).1
  -- the broadcast left the forwarder one value behind
  have hf₁ : s₁.socket.peers[j]? = some f := by rw [hsock₁]; exact hf
  have hv₁ : u₁.channel.sent[f.next]? = some line.toJson := by
    rw [hnext]
    exact List.getElem?_concat_length
  have hlast₁ : u₁.channel.sent.length = f.next + 1 := by
    rw [hnext]
    exact List.length_append
  have hroom₁ : 0 < s₁.socket.out.capacity ∧ s₁.socket.out.reserved = 0 ∧
      s₁.socket.out.rxAlive = true := by rw [hsock₁]; exact h.room
  obtain ⟨t, hleads₂, hin₂, htasks, hstreams, hpeers, hcap₂, hres₂, hrx₂, hw₂, hout₂, hterm₂⟩ :=
    exists_forwarded fromSlice appId init hu₁ hcap hf₁ hphase hk hv₁ hlast₁ hroom₁
      (by rw [hsock₁]; exact h.writer) (by rw [hsock₁]; exact h.queues.1)
  refine ⟨t, hleads₁.trans hleads₂, ?_, hin₂.trans hin₁⟩
  refine ⟨by rw [htasks]; exact htask₁, ?_, ⟨hcap₂ ▸ hroom₁.1, hres₂, hrx₂⟩, hw₂, hout₂, hterm₂⟩
  refine ⟨u₁, { f with next := f.next + 1 }, by rw [hstreams]; exact hu₁, hrun, hcap, ?_, hphase,
    hk, ?_⟩
  · rw [hpeers]
    exact List.getElem?_set_self (List.getElem?_eq_some_iff.mp hf₁).1
  · simp [u₁, Broadcast.send, hnext]

/-- From every state ready to read, the session can be driven to its end. -/
theorem exists_drained (appId : UInt64) (init : PeerSession ρ) (hone : OneLine toVec lines)
    (hserde : ∀ line ∈ lines, fromSlice (toVec line.toJson) = some line.toJson) :
    ∀ {s : PeerSession ρ}, s.Ready k j → s.incoming = ndjsonBody toVec lines →
      ∃ t : PeerSession ρ, (machine fromSlice k j appId init).Leads s t ∧ t.Drained k j := by
  induction lines with
  | nil =>
    intro s h hin
    exact ⟨s, .refl s, h.drained hin⟩
  | cons line lines ih =>
    intro s h hin
    obtain ⟨t, hleads, ht, hin'⟩ := h.line appId init
      (hone line List.mem_cons_self) (hserde line List.mem_cons_self)
      (show s.incoming = _ ++ 10 :: ndjsonBody toVec lines by rw [hin]; simp [ndjsonBody])
    obtain ⟨t', hleads', hd⟩ := ih (fun l hl => hone l (List.mem_cons_of_mem _ hl))
      (fun l hl => hserde l (List.mem_cons_of_mem _ hl)) ht hin'
    exact ⟨t', hleads.trans hleads', hd⟩

/-! ### What the client is shown -/

/-- A subscription that has just joined its upstream, whose response is awaited: none of its frames
is on its way, and the connection works. -/
structure Joined (k j : ℕ) (appId : UInt64) (fallbackTopic : String) (s : PeerSession ρ) :
    Prop where
  task : s.tasks[k]? = some .request
  received : ∃ (u : Upstream) (f : PeerForwarder), s.socket.peerStreams.upstreams[k]? = some u ∧
    u.running = true ∧ 0 < u.channel.capacity ∧ s.socket.peers[j]? = some f ∧ f.phase = .recv ∧
    f.appId = appId ∧ f.fallbackTopic = fallbackTopic ∧ f.upstream = k ∧
    f.next = u.channel.sent.length
  room : 0 < s.socket.out.capacity ∧ s.socket.out.reserved = 0 ∧ s.socket.out.rxAlive = true
  writer : ∃ held, inWriter s.socket.writer = some held ∧
    ∀ msg ∈ s.socket.wire ++ held ++ s.socket.out.buf ++ s.socket.terminal.buf,
      mine appId msg = false

/-- A subscription just joined has all the lines still to come. -/
theorem Joined.carried (h : s.Joined k j appId fallbackTopic)
    (hin : s.incoming = ndjsonBody toVec lines) :
    ∃ base, Carried toVec k j appId fallbackTopic base [] lines s := by
  obtain ⟨u, f, hu, -, -, hf, hphase, ha, hfb, hk, hnext⟩ := h.received
  obtain ⟨held, hheld, hother⟩ := h.writer
  refine ⟨u.channel.sent, ⟨u, hu, by simp⟩, ⟨.request, h.task, hin⟩, f, hf, ha, hfb, hk, ?_, ?_⟩
  · intro held' inHand hw hfw
    obtain rfl := Option.some.inj (hheld.symm.trans hw)
    rw [hphase] at hfw
    obtain rfl := Option.some.inj hfw
    refine ⟨0, le_rfl, hnext, ?_⟩
    rw [List.append_nil, List.take_nil, List.map_nil, List.filter_eq_nil_iff]
    intro msg hmsg
    rw [hother msg (List.mem_append_left _ hmsg)]
    exact Bool.false_ne_true
  · intro inHand _ msg hmsg
    exact hother msg (List.mem_append_right _ hmsg)

/-- The writer empties the queues, and the response comes. -/
theorem Joined.exists_ready (h : s.Joined k j appId fallbackTopic)
    (fromSlice : List UInt8 → Option Json) (init : PeerSession ρ) : ∃ t : PeerSession ρ,
    (machine fromSlice k j appId init).Leads s t ∧ t.Ready k j ∧ t.incoming = s.incoming := by
  obtain ⟨u, f, hu, hrun, hcap, hf, hphase, -, -, hk, hnext⟩ := h.received
  obtain ⟨held, hheld, -⟩ := h.writer
  obtain ⟨sock, hwrites, hfl⟩ := exists_flushed hheld hf hphase
  let s₁ : PeerSession ρ := { s with socket := sock }
  let s₂ : PeerSession ρ := { s₁ with tasks := s.tasks.set k (.body []) }
  -- the response opens the body
  have h₂ : s₁.step fromSlice k j appId (.resume (.response 200)) = some s₂ := by
    simp [step, streams, PeerStreams.step, s₁, h.task, RunStream.resume, PeerStreams.setTask,
      withStreams, s₂]
  refine ⟨s₂, (leads_of_writes hwrites).trans (leads_step h₂), ?_, rfl⟩
  refine ⟨List.getElem?_set_self (List.getElem?_eq_some_iff.mp h.task).1,
    ⟨u, f, ?_, hrun, hcap, ?_, hphase, hk, hnext⟩, ⟨?_, ?_, ?_⟩, hfl.writer, hfl.out, hfl.terminal⟩
  · show sock.peerStreams.upstreams[k]? = some u
    rw [hfl.streams]
    exact hu
  · show sock.peers[j]? = some f
    rw [hfl.peers]
    exact hf
  · exact hfl.capacity ▸ h.room.1
  · exact hfl.reserved.trans h.room.2.1
  · exact hfl.rxAlive.trans h.room.2.2

/-- The frame says what the line says. -/
def Shows (appId : UInt64) : NdjsonLine Json → OutboundMessage Json → Prop
  | .event topic timestamp data eventId streamId sequence nodeId resourceId resourceKind payloadKind
      payloadVersion envelopeVersion isoTimestamp stream, frame =>
    frame = .event topic (.single appId) timestamp data (some ⟨eventId⟩) (some ⟨streamId⟩)
      (some stream) (some sequence) (some ⟨nodeId⟩) (some resourceId) (some resourceKind)
      (some payloadKind) (some payloadVersion) (some envelopeVersion) isoTimestamp
  | .streamGap _ _ lastDeliveredSequence reason _, frame => ∃ timestamp streamId terminated,
    frame = .streamGap timestamp appId streamId lastDeliveredSequence reason terminated

def isGap : NdjsonLine Json → Bool
  | .event .. => false
  | .streamGap .. => true

/-- The frame of an event line shows it. -/
theorem shows_frame_event {rfc3339 : OffsetDateTime → Option String} {e : EventEnvelope Json}
    {line : NdjsonLine Json} (hline : ndjsonEventLine rfc3339 e = some line)
    (hrep : e.timestamp.Representable) : Shows appId line (line.frame appId fallbackTopic) := by
  unfold NdjsonLine.frame
  rw [renderPeerEvent_toJson hline hrep]
  obtain rfl := Option.some.inj hline
  rfl

/-- The frame of a `stream-gap` line is an event. -/
theorem not_shows_frame_gap {line : NdjsonLine Json} (hgap : isGap line = true) :
    ¬ Shows appId line (line.frame appId fallbackTopic) := by
  cases line with
  | event => cases hgap
  | streamGap =>
    rintro ⟨timestamp, streamId, terminated, heq⟩
    cases heq

/-- The frame of an emitted line shows it exactly when the line is not a gap. -/
theorem shows_frame_iff {rfc3339 : OffsetDateTime → Option String}
    {evs : List (EventEnvelope Json)} (hem : Emitted rfc3339 evs lines)
    (hrep : ∀ e ∈ evs, e.timestamp.Representable) {line : NdjsonLine Json} (hmem : line ∈ lines) :
    Shows appId line (line.frame appId fallbackTopic) ↔ isGap line = false := by
  cases hgap : isGap line with
  | true => exact iff_of_false (not_shows_frame_gap hgap) (by simp)
  | false =>
    refine iff_of_true ?_ rfl
    obtain ⟨gap, rfl⟩ := hem
    rcases List.mem_append.mp hmem with hev | hlast
    · obtain ⟨e, he, hline⟩ := List.mem_filterMap.mp hev
      exact shows_frame_event hline (hrep e he)
    · obtain ⟨⟨now, n⟩, -, rfl⟩ := Option.map_eq_some_iff.mp (Option.mem_toList.mp hlast)
      cases hgap

/-- A subscription that has come to rest was sent one frame for each line of the body. -/
theorem Joined.frames_of_drained {s t : PeerSession ρ} (h : s.Joined k j appId fallbackTopic)
    (hin : s.incoming = ndjsonBody toVec lines) (hone : OneLine toVec lines)
    (hserde : ∀ line ∈ lines, fromSlice (toVec line.toJson) = some line.toJson)
    (hleads : (machine fromSlice k j appId s).Leads s t) (hd : t.Drained k j) :
    t.frames appId = lines.map fun line => line.frame appId fallbackTopic := by
  obtain ⟨as, hrun⟩ := hleads
  obtain ⟨base, hcarried⟩ := h.carried hin
  obtain ⟨taken, rest, hl, ht⟩ := hcarried.run hone hserde rfl hrun
  obtain ⟨rfl, hframes⟩ := ht.frames_of_drained hd
  obtain rfl : taken = lines := by simpa using hl
  exact hframes

/-- **For which streams the client is shown what the hub has sent.**  The lines of a stream always
come to the client, one frame each; the frames say what the lines say exactly when there is no
`stream-gap` among them. -/
theorem gap_shown_iff (toVec : Json → List UInt8) (fromSlice : List UInt8 → Option Json)
    (rfc3339 : OffsetDateTime → Option String) (evs : List (EventEnvelope Json))
    (lines : List (NdjsonLine Json)) (hem : Emitted rfc3339 evs lines)
    (hrep : ∀ e ∈ evs, e.timestamp.Representable) (hone : OneLine toVec lines)
    (hserde : ∀ line ∈ lines, fromSlice (toVec line.toJson) = some line.toJson)
    (k j : ℕ) (appId : UInt64) (fallbackTopic : String) (s : PeerSession ρ)
    (hjoin : s.Joined k j appId fallbackTopic) (hin : s.incoming = ndjsonBody toVec lines) :
    (∃ t, (machine fromSlice k j appId s).Leads s t ∧ t.Drained k j) ∧
    ∀ t, (machine fromSlice k j appId s).Leads s t → t.Drained k j →
      (List.Forall₂ (Shows appId) lines (t.frames appId) ↔ ∀ line ∈ lines, isGap line = false) := by
  constructor
  · obtain ⟨s₁, hleads, hready, hin₁⟩ := hjoin.exists_ready fromSlice s
    obtain ⟨t, hleads', hd⟩ := exists_drained appId s hone hserde hready (hin₁.trans hin)
    exact ⟨t, hleads.trans hleads', hd⟩
  · intro t hleads hd
    rw [hjoin.frames_of_drained hin hone hserde hleads hd, List.forall₂_map_right_iff,
      List.forall₂_same]
    exact forall₂_congr fun line hmem => shows_frame_iff hem hrep hmem

/-! ### The body of a hub's stream -/

section Hub

variable {τ κ : Type} [DecidableEq κ] {ops : BusOps Json τ κ}
  {rfc3339 : OffsetDateTime → Option String} {hub hub' : EventsStream Json τ}

theorem isGap_append_event {ev : EventEnvelope Json} {line : NdjsonLine Json}
    (hline : ndjsonEventLine rfc3339 ev = some line) :
    (∀ l ∈ hub.body ++ [line], isGap l = false) ↔ ∀ l ∈ hub.body, isGap l = false := by
  obtain rfl := Option.some.inj hline
  simp only [List.mem_append, List.mem_singleton]
  exact ⟨fun h l hl => h l (.inl hl), fun h l hl => hl.elim (h l) fun heq => heq ▸ rfl⟩

/-- A poll adds the line of a gap when it reports one. -/
theorem isGap_body_poll {now : ℤ} (h : (∀ line ∈ hub.body, isGap line = false) ↔ hub.gap = none)
    (hs : hub.poll ops rfc3339 now = some hub') :
    (∀ line ∈ hub'.body, isGap line = false) ↔ hub'.gap = none := by
  cases EventsStream.polled_of_poll hs with
  | replay ev rest line _ hline next =>
    subst next
    exact (isGap_append_event hline).trans h
  | yield ev bus line _ _ _ hline next =>
    subst next
    exact (isGap_append_event hline).trans h
  | gap n _ _ next =>
    subst next
    refine iff_of_false (fun hall => ?_) (by simp [EventsStream.yieldGap])
    cases hall _ (List.mem_append_right _ List.mem_cons_self)
  | read _ _ next | replayed _ next | quiet _ _ next | gone _ _ next | skip _ _ _ _ _ next
  | empty _ _ next | ended _ _ next | unsubscribe _ _ _ next | dropRx _ next =>
    subst next
    exact h

/-- A `stream-gap` is among the lines of a stream exactly when it has reported one. -/
theorem isGap_body_iff {replayCapacity : ℕ}
    (h : (EventsStream.machine ops rfc3339 replayCapacity).Reachable hub) :
    (∀ line ∈ hub.body, isGap line = false) ↔ hub.gap = none := by
  refine Machine.Reachable.inv (I := fun hub : EventsStream Json τ =>
    (∀ line ∈ hub.body, isGap line = false) ↔ hub.gap = none) ?_ (fun s a s' hs hstep => ?_) h
  · exact iff_of_true (by simp [EventsStream.machine]) rfl
  have hstep : EventsStream.step ops rfc3339 s a = some s' := hstep
  cases a with
  | bus a =>
    obtain ⟨-, bus, -, rfl⟩ := EventsStream.step_bus hstep
    exact hs
  | subscribe topic capacity policy replayStreamId =>
    obtain ⟨-, opts, bus, -, -, ⟨-, rfl⟩ | rfl⟩ := EventsStream.step_subscribe hstep <;> exact hs
  | poll now => exact isGap_body_poll hs hstep
  | disconnect =>
    obtain ⟨-, -, -, phase, -, rfl⟩ := EventsStream.step_disconnect hstep
    exact hs

/-- **A hub's stream is shown whole as long as it reports no gap.**  The body is what an
`EventsStream` has yielded in any reachable state. -/
theorem body_shown_iff {replayCapacity : ℕ}
    (hhub : (EventsStream.machine ops rfc3339 replayCapacity).Reachable hub)
    (hrep : ∀ e ∈ hub.handed, e.timestamp.Representable) (hone : OneLine toVec hub.body)
    (hserde : ∀ line ∈ hub.body, fromSlice (toVec line.toJson) = some line.toJson)
    {s t : PeerSession ρ} (hjoin : s.Joined k j appId fallbackTopic)
    (hin : s.incoming = ndjsonBody toVec hub.body)
    (hleads : (machine fromSlice k j appId s).Leads s t) (hd : t.Drained k j) :
    List.Forall₂ (Shows appId) hub.body (t.frames appId) ↔ hub.gap = none := by
  have hem := EventsStream.emitted_of_reachable hhub
  rw [hjoin.frames_of_drained hin hone hserde hleads hd, List.forall₂_map_right_iff,
    List.forall₂_same, ← isGap_body_iff hhub]
  exact forall₂_congr fun line hmem => shows_frame_iff hem hrep hmem

end Hub

/-! ### A lamp whose subscriber was too slow -/

/-- The bus reports that the event after the first did not fit. -/
def lampNotice : SlowConsumerNotice where
  streamId := some ⟨"bw://hub/resources/r1/streams/state"⟩
  lastDeliveredSequence := some 1
  reason := REASON_SLOW_CONSUMER

/-- The gap comes before the queue is read, so it is the only line. -/
def lampLines : List (NdjsonLine Json) := [.ofNotice 5 lampNotice]

def lampGapText : String :=
  "\x7b\"lastDeliveredSequence\":1,\"reason\":\"slow_consumer\"," ++
  "\"streamId\":\"bw://hub/resources/r1/streams/state\",\"terminated\":true," ++
  "\"timestamp\":5,\"type\":\"stream-gap\"\x7d"

def lampVec (_ : Json) : List UInt8 := lampGapText.toUTF8.data.toList

def lampSlice (bytes : List UInt8) : Option Json :=
  if bytes = lampGapText.toUTF8.data.toList then some (NdjsonLine.ofNotice 5 lampNotice).toJson
  else none

/-- A gateway with one connection, which has subscribed to the lamp. -/
def lampSession (incoming : List UInt8) : PeerSession Empty where
  socket :=
    { name := "gateway", bus := {}, peerSenders := some PeerStreams.onePeer
      peerStreams :=
        { inner := Table.empty.insert ("hub", "hub/led/r1/state") { task := 0, refcount := 1 }
          upstreams := [{ peer := "hub", topic := "hub/led/r1/state", sender := 1 }] }
      peers := [{ appId := 1, fallbackTopic := "hub/led/r1/state", upstream := 0, next := 0 }] }
  tasks := [.request]
  incoming := incoming

theorem joined_lampSession (incoming : List UInt8) :
    (lampSession incoming).Joined 0 0 1 "hub/led/r1/state" where
  task := rfl
  received := ⟨_, _, rfl, rfl, by decide, rfl, rfl, rfl, rfl, rfl, rfl⟩
  room := ⟨Nat.zero_lt_succ _, rfl, rfl⟩
  writer := ⟨[], rfl, by simp [lampSession]⟩

theorem oneLine_lampLines : OneLine lampVec lampLines := by
  intro line _
  show (10 : UInt8) ∉ lampGapText.toUTF8.data.toList
  decide

theorem serde_lampLines :
    ∀ line ∈ lampLines, lampSlice (lampVec line.toJson) = some line.toJson := by
  intro line hmem
  obtain rfl := List.mem_singleton.mp hmem
  exact if_pos rfl

/-- **A hub's gap is shown as an event.** -/
theorem gap_shown_as_event :
    let s := lampSession (ndjsonBody lampVec lampLines)
    ∃ t, (machine lampSlice 0 0 1 s).Leads s t ∧ t.Drained 0 0 ∧
      ¬ List.Forall₂ (Shows 1) lampLines (t.frames 1) ∧
      t.frames 1 = [.event "hub/led/r1/state" (.single 1) 5 .null none
        (some ⟨"bw://hub/resources/r1/streams/state"⟩) none none none none none none none none
        none] := by
  intro s
  have hjoin := joined_lampSession (ndjsonBody lampVec lampLines)
  obtain ⟨s₁, hleads, hready, hin₁⟩ := hjoin.exists_ready lampSlice s
  obtain ⟨t, hleads', hd⟩ :=
    exists_drained 1 s oneLine_lampLines serde_lampLines hready (hin₁.trans rfl)
  refine ⟨t, hleads.trans hleads', hd, ?_⟩
  obtain ⟨as, hrun⟩ := hleads.trans hleads'
  obtain ⟨base, hcarried⟩ := hjoin.carried rfl
  obtain ⟨taken, rest, hl, ht⟩ := hcarried.run oneLine_lampLines serde_lampLines rfl hrun
  obtain ⟨rfl, hframes⟩ := ht.frames_of_drained hd
  obtain rfl : taken = lampLines := by simpa using hl
  -- the run carried the line that was written, and it is a gap
  rw [hframes]
  refine ⟨fun hshows => ?_, ?_⟩
  · obtain ⟨hfirst, -⟩ := List.forall₂_cons.mp hshows
    exact not_shows_frame_gap rfl hfirst
  · simp [lampLines, NdjsonLine.ofNotice, lampNotice, NdjsonLine.frame, renderPeerEvent,
      NdjsonLine.toJson, Json.get, Json.lookupKey, Json.option, Json.asI64_i64]

/-- The lamp's stream with one event and no gap. -/
theorem gap_shown_lampOn :
    let rfc3339 := fun _ => some "1970-01-01T00:00:00Z"
    let lines := [lampOn].filterMap (ndjsonEventLine rfc3339)
    let toVec : Json → List UInt8 := fun _ => lampOnText.toUTF8.data.toList
    let fromSlice := fun bytes =>
      if bytes = lampOnText.toUTF8.data.toList then (ndjsonEventLine rfc3339 lampOn).map (·.toJson)
      else none
    let s := lampSession (ndjsonBody toVec lines)
    (∃ t, (machine fromSlice 0 0 1 s).Leads s t ∧ t.Drained 0 0) ∧
    ∀ t, (machine fromSlice 0 0 1 s).Leads s t → t.Drained 0 0 →
      (List.Forall₂ (Shows 1) lines (t.frames 1) ↔ ∀ line ∈ lines, isGap line = false) := by
  intro rfc3339 lines toVec fromSlice s
  -- the one line reads back, and has no line feed inside
  have hrep : lampOn.timestamp.Representable := ⟨by decide, by decide, by decide⟩
  have hone : OneLine toVec lines := by
    intro line _
    show (10 : UInt8) ∉ lampOnText.toUTF8.data.toList
    decide
  refine gap_shown_iff toVec fromSlice rfc3339 [lampOn] lines ⟨none, rfl⟩ ?_ hone ?_ 0 0 1
    "hub/led/r1/state" s (joined_lampSession _) rfl
  · intro e he
    obtain rfl := List.mem_singleton.mp he
    exact hrep
  · intro line hmem
    obtain rfl := List.mem_singleton.mp hmem
    exact if_pos rfl

end PeerSession

end Boardwalk
