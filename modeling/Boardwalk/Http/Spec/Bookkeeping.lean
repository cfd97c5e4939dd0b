import Boardwalk.Http.Spec.Limit

/-!
# The bookkeeping of a WebSocket connection

The dispatcher enters every subscription under the id of its ack, in one of two maps.  A message
that asks for a removal, of the client or of a forwarder, may name any id, also one that is gone.

`bookkeeping_of_noWrap` says what the maps look like in every run in which the counter of ids does
not wrap around, and what a removal leaves alone.
-/

namespace Boardwalk

/-- The id that the operation acknowledges. -/
def DispatchOp.ackId {ρ : Type} : DispatchOp ρ → Option UInt64
  | .reply (.subscribeAck _ id) => some id
  | _ => none

/-- The subscription that a forwarder reports as ended. -/
def ForwarderEvent.appId : ForwarderEvent → UInt64
  | lagTerminated appId => appId
  | localTerminated appId => appId

/-- What happened on a connection. -/
structure Books where
  /-- The ids that were acknowledged. -/
  acked : List UInt64 := []
  /-- The id that is to be removed for the message that was taken last. -/
  removing : Option UInt64 := none
  /-- The forwarded subscription that was taken out and is not yet released at the hub. -/
  held : Option FwdSub := none

/-- The operation belongs to the removal under way, or only replies. -/
def DispatchOp.Removes {ρ : Type} (b : Books) : DispatchOp ρ → Prop
  | .reply r => (DispatchOp.reply r : DispatchOp ρ).ackId = none
  | .fallback _ => True
  | .removeLocal id | .removeFwd id => b.removing = some id
  | .unsubscribePeer peer topic => b.held.map FwdSub.key = some (peer, topic)
  | _ => False

namespace Socket

variable {ρ κ : Type} [DecidableEq κ] (ops : SocketOps ρ κ)

/-- The id that is to be removed for what the dispatcher takes next: an `Unsubscribe` message, a
message of a forwarder, or an entry to drain. -/
def removal (s : Socket ρ) : SocketAction ρ → Option UInt64
  | .inbound (.text text) =>
    match ops.parseInbound text with
    | .ok (.unsubscribe id) => some id
    | _ => none
  | .forwarderEvent => s.fwdEvents.head?.map ForwarderEvent.appId
  | .drain appId => some appId
  | _ => none

omit [DecidableEq κ] in
/-- The books after an operation of the dispatcher. -/
def bookOp (s : Socket ρ) (b : Books) (op : DispatchOp ρ) : Books :=
  match op with
  | .removeFwd _ => { b with held := b.removing.bind s.conn.fwdSubs.lookup }
  | .unsubscribePeer _ _ => { b with held := none }
  | op => { b with acked := b.acked ++ op.ackId.toList }

def book (s : Socket ρ) (a : SocketAction ρ) (b : Books) : Books :=
  match a with
  | .dispatch _ => s.todo.head?.elim b (s.bookOp b)
  | .inbound _ | .forwarderEvent | .drain _ => { b with removing := s.removal ops a, held := none }
  | _ => b

/-- A connection and its books. -/
def bookkeeping (app : AppState ρ) : Machine (Socket ρ × Books) (SocketAction ρ) :=
  (machine ops app).withHistory {} (book ops)

/-- The id that is removed in a step. -/
def handles (x : Socket ρ × Books) : SocketAction ρ → Option UInt64
  | .dispatch _ => x.2.removing
  | a => x.1.removal ops a

/-- The maps of a connection: disjoint, with acknowledged ids below the counter and no id twice, at
most as many as the cap, and no two for the same source. -/
structure Booked (x : Socket ρ × Books) : Prop where
  disjoint : ∀ id ∈ x.1.conn.localSubs, id ∉ x.1.conn.fwdSubs
  below : ∀ id, id ∈ x.1.conn.localSubs ∨ id ∈ x.1.conn.fwdSubs → id < x.1.conn.nextAppId
  acked : ∀ id, id ∈ x.1.conn.localSubs ∨ id ∈ x.1.conn.fwdSubs → id ∈ x.2.acked
  once : x.2.acked.Nodup
  cap : x.1.conn.subscriptions ≤ WS_MAX_SUBSCRIPTIONS_PER_CONN
  buses : ∀ id id' i, x.1.conn.localSubs.lookup id = some i →
    x.1.conn.localSubs.lookup id' = some i → id = id'
  aborts : ∀ id id' f f', x.1.conn.fwdSubs.lookup id = some f →
    x.1.conn.fwdSubs.lookup id' = some f' → f.abort = f'.abort → id = id'

/-- A step for the removal of `id`: the other entries stay, and so do the subscriptions of the bus
other than that of `id`, the forwarders other than that of `id`, and the hub, except that it may lose
one reference of the entry that was taken out. -/
structure RemovesOnly (s t : Socket ρ) (id : UInt64) (held : Option FwdSub) : Prop where
  locals : ∀ id' ≠ id, t.conn.localSubs.lookup id' = s.conn.localSubs.lookup id'
  fwds : ∀ id' ≠ id, t.conn.fwdSubs.lookup id' = s.conn.fwdSubs.lookup id'
  own : (t.conn.localSubs.lookup id = none ∨
      t.conn.localSubs.lookup id = s.conn.localSubs.lookup id) ∧
    (t.conn.fwdSubs.lookup id = none ∨ t.conn.fwdSubs.lookup id = s.conn.fwdSubs.lookup id)
  bus : ∀ i, s.conn.localSubs.lookup id ≠ some i → Bus.Frame i s.bus t.bus
  peers : ∀ k, (∀ f, s.conn.fwdSubs.lookup id = some f → f.abort ≠ k) → t.peers[k]? = s.peers[k]?
  hub : ∀ peer topic, (t.peerStreams.refcount peer topic).getD 0 =
      (s.peerStreams.refcount peer topic).getD 0 ∨
    (held.map FwdSub.key = some (peer, topic) ∧ (t.peerStreams.refcount peer topic).getD 0 =
      (s.peerStreams.refcount peer topic).getD 0 - 1)

variable {ops}
variable {s t : Socket ρ} {b : Books}

/-! ### What the dispatcher is doing -/

/-- The id has been handed out and not entered, and there is room for it. -/
structure Unused (s : Socket ρ) (id : UInt64) : Prop where
  below : id < s.conn.nextAppId
  locals : id ∉ s.conn.localSubs
  fwds : id ∉ s.conn.fwdSubs
  room : s.conn.subscriptions < WS_MAX_SUBSCRIPTIONS_PER_CONN

/-- The operations ahead: replies and a removal, or the rest of a `Subscribe` message. -/
inductive Underway (s : Socket ρ) (b : Books) : Prop where
  | removing (todo : ∀ op ∈ s.todo, op.Removes b) (once : ∀ op ∈ s.todo.tail, op.releases? = none)
  | context (idle : b.removing = none) (r : Subscribing ρ) (todo : s.todo = [.peerContext r])
      (room : s.conn.subscriptions < WS_MAX_SUBSCRIPTIONS_PER_CONN)
  | ack (idle : b.removing = none) (topic : String) (id : UInt64) (op : DispatchOp ρ)
      (todo : s.todo = [.reply (.subscribeAck topic id), op]) (opens : op.newId = some id)
      (unused : s.Unused id) (unacked : id ∉ b.acked)
  | source (idle : b.removing = none) (id : UInt64) (op : DispatchOp ρ)
      (todo : s.todo = [op] ∨ ∃ msg, s.todo = [.fallback msg, op]) (opens : op.newId = some id)
      (unused : s.Unused id) (acked : id ∈ b.acked)

/-- What holds of a connection whose counter of ids has not wrapped around. -/
structure BookInv (s : Socket ρ) (b : Books) : Prop where
  booked : Booked (s, b)
  underway : Underway s b
  acked : ∀ id ∈ b.acked, id < s.conn.nextAppId
  buses : ∀ id i, s.conn.localSubs.lookup id = some i → i < s.bus.nextId
  aborts : ∀ id f, s.conn.fwdSubs.lookup id = some f → f.abort < s.peers.length

omit [DecidableEq κ] in
/-- The books are right on a connection just opened. -/
theorem bookInv_init (app : AppState ρ) : BookInv ({ app with } : Socket ρ) {} where
  booked :=
    { disjoint := fun _ h => absurd h List.not_mem_nil
      below := fun _ h => h.elim (absurd · List.not_mem_nil) (absurd · List.not_mem_nil)
      acked := fun _ h => h.elim (absurd · List.not_mem_nil) (absurd · List.not_mem_nil)
      once := List.nodup_nil
      cap := Nat.zero_le _
      buses := fun _ _ _ h => by cases h
      aborts := fun _ _ _ _ h => by cases h }
  underway := .removing (fun _ h => absurd h List.not_mem_nil) fun _ h => absurd h List.not_mem_nil
  acked _ h := absurd h List.not_mem_nil
  buses _ _ h := by cases h
  aborts _ _ h := by cases h

/-! ### The entries of a map -/

section Entries

variable {β : Type} {m : AList fun _ : UInt64 => β} {id id' : UInt64} {v w : β} {g : β → ℕ}

theorem lookup_of_erase (h : (m.erase id).lookup id' = some w) : m.lookup id' = some w := by
  by_cases hid : id' = id
  · rw [hid, AList.lookup_erase] at h
    cases h
  · rwa [AList.lookup_erase_ne hid] at h

theorem lookup_insert_cases (h : (m.insert id v).lookup id' = some w) :
    id' = id ∧ w = v ∨ m.lookup id' = some w := by
  by_cases hid : id' = id
  · subst hid
    rw [AList.lookup_insert] at h
    exact .inl ⟨rfl, (Option.some.inj h).symm⟩
  · rw [AList.lookup_insert_ne hid] at h
    exact .inr h

/-- A new entry has a number of its own, so no two entries have the same one. -/
theorem eq_of_lookup_insert (hnew : ∀ id w, m.lookup id = some w → g w < g v)
    (hinj : ∀ id id' w w', m.lookup id = some w → m.lookup id' = some w' → g w = g w' → id = id') :
    ∀ id₁ id₂ w₁ w₂, (m.insert id v).lookup id₁ = some w₁ → (m.insert id v).lookup id₂ = some w₂ →
      g w₁ = g w₂ → id₁ = id₂ := by
  intro id₁ id₂ w₁ w₂ h₁ h₂ hsame
  rcases lookup_insert_cases h₁ with ⟨rfl, rfl⟩ | hold₁ <;>
    rcases lookup_insert_cases h₂ with ⟨rfl, rfl⟩ | hold₂
  · rfl
  · exact absurd hsame (hnew id₂ w₂ hold₂).ne'
  · exact absurd hsame (hnew id₁ w₁ hold₁).ne
  · exact hinj id₁ id₂ w₁ w₂ hold₁ hold₂ hsame

end Entries

/-! ### The maps lose entries, or stay -/

omit [DecidableEq κ] in
/-- What is left in the maps was there before. -/
theorem BookInv.shrink {b' : Books} (h : BookInv s b)
    (hlocal : ∀ id i, t.conn.localSubs.lookup id = some i → s.conn.localSubs.lookup id = some i)
    (hfwd : ∀ id f, t.conn.fwdSubs.lookup id = some f → s.conn.fwdSubs.lookup id = some f)
    (hcount : t.conn.subscriptions ≤ s.conn.subscriptions)
    (hnext : t.conn.nextAppId = s.conn.nextAppId) (hacked : b'.acked = b.acked)
    (hbus : s.bus.nextId ≤ t.bus.nextId) (hpeers : s.peers.length ≤ t.peers.length)
    (hunder : Underway t b') : BookInv t b' := by
  -- what is left in the two tables was there before
  have hlocals : ∀ id ∈ t.conn.localSubs, id ∈ s.conn.localSubs := by
    intro id hid
    obtain ⟨i, hi⟩ := Option.isSome_iff_exists.mp (AList.lookup_isSome.mpr hid)
    exact AList.lookup_isSome.mp (by rw [hlocal id i hi]; rfl)
  have hfwds : ∀ id ∈ t.conn.fwdSubs, id ∈ s.conn.fwdSubs := by
    intro id hid
    obtain ⟨f, hf⟩ := Option.isSome_iff_exists.mp (AList.lookup_isSome.mpr hid)
    exact AList.lookup_isSome.mp (by rw [hfwd id f hf]; rfl)
  refine ⟨⟨fun id hid hid' => h.booked.disjoint id (hlocals id hid) (hfwds id hid'), ?_, ?_, ?_,
    hcount.trans h.booked.cap, ?_, ?_⟩, hunder, ?_, fun id i hi => ?_, fun id f hf => ?_⟩
  · -- ids below the counter, acknowledged ids, each bus and each upstream once, and the bounds
    intro id hid
    rw [hnext]
    exact h.booked.below id (hid.imp (hlocals id) (hfwds id))
  · intro id hid
    rw [hacked]
    exact h.booked.acked id (hid.imp (hlocals id) (hfwds id))
  · rw [hacked]
    exact h.booked.once
  · exact fun id id' i hi hi' => h.booked.buses id id' i (hlocal id i hi) (hlocal id' i hi')
  · exact fun id id' f f' hf hf' => h.booked.aborts id id' f f' (hfwd id f hf) (hfwd id' f' hf')
  · rw [hacked, hnext]
    exact h.acked
  · exact (h.buses id i (hlocal id i hi)).trans_le hbus
  · exact (h.aborts id f (hfwd id f hf)).trans_le hpeers

omit [DecidableEq κ] in
/-- The maps, the counter and the acks stay as they are. -/
theorem BookInv.keep {b' : Books} (h : BookInv s b) (hconn : t.conn = s.conn)
    (hacked : b'.acked = b.acked) (hbus : s.bus.nextId ≤ t.bus.nextId)
    (hpeers : s.peers.length ≤ t.peers.length) (hunder : Underway t b') : BookInv t b' := by
  refine h.shrink ?_ ?_ ?_ ?_ hacked hbus hpeers hunder <;> rw [hconn]
  · exact fun _ _ hi => hi
  · exact fun _ _ hf => hf

omit [DecidableEq κ] in
theorem Unused.keep {id : UInt64} (h : s.Unused id) (hconn : t.conn = s.conn) : t.Unused id := by
  obtain ⟨hbelow, hlocals, hfwds, hroom⟩ := h
  constructor <;> rw [hconn] <;> assumption

omit [DecidableEq κ] in
theorem Underway.keep (h : Underway s b) (hconn : t.conn = s.conn) (htodo : t.todo = s.todo) :
    Underway t b := by
  cases h with
  | removing todo once => exact .removing (by rwa [htodo]) (by rwa [htodo])
  | context idle r todo room => exact .context idle r (by rwa [htodo]) (by rwa [hconn])
  | ack idle topic id op todo opens unused unacked =>
    exact .ack idle topic id op (by rwa [htodo]) opens (unused.keep hconn) unacked
  | source idle id op todo opens unused acked =>
    exact .source idle id op (by rwa [htodo]) opens (unused.keep hconn) acked

omit [DecidableEq κ] in
/-- A step of another task. -/
theorem BookInv.other (h : BookInv s b) (hconn : t.conn = s.conn) (htodo : t.todo = s.todo)
    (hbus : s.bus.nextId ≤ t.bus.nextId) (hpeers : s.peers.length ≤ t.peers.length) :
    BookInv t b :=
  h.keep hconn rfl hbus hpeers (h.underway.keep hconn htodo)

theorem nextId_le_of_step {bus bus' : Bus Json (TopicPattern ρ)}
    {act : BusAction Json (TopicPattern ρ)} (h : bus.step ops.bus act = some bus') :
    bus.nextId ≤ bus'.nextId := by
  rcases Bus.nextId_of_step h with heq | ⟨topic, opts, -, rfl⟩
  · exact le_of_eq heq.symm
  · rw [Bus.nextId_subscribe]
    exact Nat.le_succ _

/-! ### A subscription is accepted -/

omit [DecidableEq κ] in
/-- The id is a new one. -/
theorem BookInv.accept (h : BookInv s b) (hwrap : s.NoWrap) (htodo : s.todo = [])
    (hidle : b.removing = none) (hroom : s.conn.subscriptions < WS_MAX_SUBSCRIPTIONS_PER_CONN)
    (r : Subscribing ρ) : BookInv (s.accept r) b := by
  have hlt := lt_succ_of_noWrap hwrap
  have hnew : ∀ {P : UInt64 → Prop}, (∀ id, P id → id < s.conn.nextAppId) →
      ¬ P s.conn.nextAppId := fun hP hmem => UInt64.lt_irrefl _ (hP _ hmem)
  refine ⟨⟨h.booked.disjoint, fun id hid => UInt64.lt_trans (h.booked.below id hid) hlt,
    h.booked.acked, h.booked.once, h.booked.cap, h.booked.buses, h.booked.aborts⟩, ?_,
    fun id hid => UInt64.lt_trans (h.acked id hid) hlt, h.buses, h.aborts⟩
  refine .ack hidle r.topic s.conn.nextAppId
    (if r.isPeerTopic then .subscribePeer s.conn.nextAppId r
      else .subscribeLocal s.conn.nextAppId r) ?_ ?_ ⟨hlt, ?_, ?_, hroom⟩ (hnew h.acked)
  · simp [Socket.accept, htodo]
  · split <;> rfl
  · exact hnew fun id hid => h.booked.below id (.inl hid)
  · exact hnew fun id hid => h.booked.below id (.inr hid)

/-! ### The dispatcher takes a message -/

omit [DecidableEq κ] in
/-- A message that is answered, or that asks for a removal. -/
theorem BookInv.take (h : BookInv s b) {b' : Books} (hacked : b'.acked = b.acked)
    {todo : List (DispatchOp ρ)} (hremoves : ∀ op ∈ todo, op.Removes b')
    (honce : ∀ op ∈ todo.tail, op.releases? = none) : BookInv { s with todo } b' :=
  h.keep rfl hacked (Nat.le_refl _) (Nat.le_refl _) (.removing hremoves honce)

omit [DecidableEq κ] in
/-- A text frame keeps the books right, entering the removal it asks for. -/
theorem BookInv.onText (h : BookInv s b) (hwrap : s.NoWrap) (htodo : s.todo = []) (text : String) :
    BookInv (s.onText ops text)
      { b with removing := s.removal ops (.inbound (.text text)), held := none } := by
  have hreply : ∀ {b' : Books} {r : Reply}, b'.acked = b.acked →
      (DispatchOp.reply r : DispatchOp ρ).ackId = none → BookInv { s with todo := [.reply r] } b' :=
    fun hacked hr => h.take hacked (by simpa [DispatchOp.Removes] using hr) (by simp)
  unfold Socket.onText removal
  split
  · rename_i topic limit outboundCapacity hparsed
    simp only [hparsed]
    -- no subscription is removed for a `Subscribe` message
    have hquiet : BookInv s { b with removing := none, held := none } :=
      h.keep rfl rfl (Nat.le_refl _) (Nat.le_refl _)
        (.removing (by simp [htodo]) (by simp [htodo]))
    unfold onSubscribe
    split
    · exact hreply rfl rfl
    · rename_i hroom
      have hroom := Nat.lt_of_not_le hroom
      dsimp only
      split
      · exact hreply rfl rfl
      · split
        · exact hquiet.keep rfl rfl (Nat.le_refl _) (Nat.le_refl _)
            (.context rfl _ rfl hroom)
        · exact hquiet.accept hwrap htodo rfl hroom _
  · rename_i id hparsed
    simp only [hparsed]
    refine h.take ?_ ?_ ?_
    · rfl
    · simp [DispatchOp.Removes, DispatchOp.ackId]
    · simp [DispatchOp.releases?]
  · rename_i data hparsed
    simp only [hparsed]
    exact hreply rfl rfl
  · rename_i e hparsed
    simp only [hparsed]
    exact hreply rfl rfl

/-! ### The operations of a removal -/

omit [DecidableEq κ] in
theorem RemovesOnly.refl {id : UInt64} {held : Option FwdSub}
    (hlocal : t.conn.localSubs = s.conn.localSubs) (hfwd : t.conn.fwdSubs = s.conn.fwdSubs)
    (hbus : t.bus = s.bus) (hpeers : t.peers = s.peers) (hhub : t.peerStreams = s.peerStreams) :
    RemovesOnly s t id held where
  locals _ _ := by rw [hlocal]
  fwds _ _ := by rw [hfwd]
  own := ⟨.inr (by rw [hlocal]), .inr (by rw [hfwd])⟩
  bus i _ := by rw [hbus]; exact Bus.Frame.refl i s.bus
  peers _ _ := by rw [hpeers]
  hub _ _ := .inl (by rw [hhub])

/-- What the hub counts after a release. -/
theorem getD_refcount_unsubscribe (hub : PeerStreamHub) (peer topic p q : String) :
    ((hub.unsubscribe peer topic).refcount p q).getD 0 =
      (hub.refcount p q).getD 0 - if (p, q) = (peer, topic) then 1 else 0 := by
  unfold PeerStreamHub.unsubscribe PeerStreamHub.refcount
  -- no entry, and nothing to count down
  split
  · rename_i hnone
    split
    · rename_i heq
      rw [heq, hnone]
      rfl
    · rfl
  · rename_i entry hentry
    -- its own entry goes with the last subscriber
    by_cases heq : (p, q) = (peer, topic)
    · rw [if_pos heq, heq, hentry]
      split
      · rename_i hone
        simp [PeerStreamHub.abort, hone]
      · simp
    · rw [if_neg heq]
      split
      · simp [PeerStreamHub.abort, Table.get?_remove_ne heq]
      · simp [Table.get?_insert_ne heq]

omit [DecidableEq κ] in
/-- The books of an operation that is not about the hub and acknowledges nothing. -/
theorem bookOp_of_ackId {op : DispatchOp ρ} (hfwd : ∀ id, op ≠ .removeFwd id)
    (hrel : op.releases? = none) (hack : op.ackId = none) : s.bookOp b op = b := by
  have hbook : s.bookOp b op = { b with acked := b.acked ++ op.ackId.toList } := by
    cases op with
    | removeFwd id => exact absurd rfl (hfwd id)
    | unsubscribePeer peer topic => cases hrel
    | _ => rfl
  rw [hbook, hack, Option.toList_none, List.append_nil]

omit [DecidableEq κ] in
/-- What is held matters to a release only. -/
theorem Removes.of_held {b' : Books} {op : DispatchOp ρ} (h : op.Removes b)
    (hrel : op.releases? = none) (hid : b'.removing = b.removing) : op.Removes b' := by
  cases op with
  | reply r => exact h
  | fallback msg => exact h
  | removeLocal id => exact hid.trans h
  | removeFwd id => exact hid.trans h
  | unsubscribePeer peer topic => cases hrel
  | peerContext r => exact h
  | subscribePeer appId r => exact h
  | subscribeLocal appId r => exact h

/-- Nothing is removed. -/
theorem removesOnly_of_none {r : Option UInt64} {held : Option FwdSub} (hr : r = none) :
    ∀ id ∈ r, RemovesOnly s t id held := by
  intro id hid
  rw [hr] at hid
  cases hid

omit [DecidableEq κ] in
/-- An operation that changes no map; the one ahead of the others is a reply that did not fit. -/
theorem BookInv.quiet {new rest : List (DispatchOp ρ)} (h : BookInv s b)
    (hrest : ∀ o ∈ rest, o.Removes b) (honce : ∀ o ∈ rest, o.releases? = none)
    (hconn : t.conn = s.conn) (hbus : t.bus = s.bus) (hpeers : t.peers = s.peers)
    (hhub : t.peerStreams = s.peerStreams) (htodo : t.todo = new ++ rest)
    (hnew : new = [] ∨ ∃ msg, new = [.fallback msg]) :
    BookInv t b ∧ ∀ id ∈ b.removing, RemovesOnly s t id b.held := by
  refine ⟨h.keep hconn rfl (by rw [hbus]) (by rw [hpeers]) (.removing ?_ ?_),
    fun id _ => .refl (by rw [hconn]) (by rw [hconn]) hbus hpeers hhub⟩
  · rw [htodo]
    rcases hnew with rfl | ⟨msg, rfl⟩
    · exact hrest
    · intro o ho
      rcases List.mem_cons.mp ho with rfl | ho
      · exact True.intro
      · exact hrest o ho
  · rw [htodo]
    rcases hnew with rfl | ⟨msg, rfl⟩
    · exact fun o ho => honce o (List.mem_of_mem_tail ho)
    · exact honce

/-- A local entry leaves its map. -/
theorem BookInv.dropLocal {now : ℤ} {appId : UInt64} {rest : List (DispatchOp ρ)}
    (h : BookInv s b) (hid : b.removing = some appId) (hrest : ∀ o ∈ rest, o.Removes b)
    (honce : ∀ o ∈ rest, o.releases? = none)
    (hr : { s with todo := rest }.runOp ops now (.removeLocal appId) = some t) :
    BookInv t b ∧ ∀ id ∈ b.removing, RemovesOnly s t id b.held := by
  simp only [Socket.runOp] at hr
  split at hr
  · -- not registered, and nothing happens
    obtain rfl := Option.some.inj hr
    exact h.quiet hrest honce rfl rfl rfl rfl rfl (.inl rfl)
  · rename_i i hi
    obtain ⟨bus, hbus, rfl⟩ := Option.map_eq_some_iff.mp hr
    -- the entry of the bus goes with the id
    obtain rfl := Bus.step_unsubscribe hbus
    refine ⟨?_, fun id hmem => ?_⟩
    · refine h.shrink (fun id j hj => ?_) (fun _ _ hf => hf) ?_ rfl rfl ?_ (Nat.le_refl _) ?_
      · exact lookup_of_erase hj
      · exact Nat.add_le_add_right (List.kerase_sublist appId _).length_le _
      · rw [Bus.nextId_reap]
      · exact .removing hrest fun o ho => honce o (List.mem_of_mem_tail ho)
    · obtain rfl := Option.some.inj (hid.symm.trans hmem)
      exact
        { locals := fun id' hne => AList.lookup_erase_ne hne
          fwds := fun _ _ => rfl
          own := ⟨.inl (AList.lookup_erase _ _), .inr rfl⟩
          bus := fun j hj => Bus.frame_reap _ fun heq => hj (by rw [hi, heq])
          peers := fun _ _ => rfl
          hub := fun _ _ => .inl rfl }

/-- A forwarded entry leaves its map, and what it holds is noted. -/
theorem BookInv.dropFwd {now : ℤ} {appId : UInt64} {rest : List (DispatchOp ρ)}
    (h : BookInv s b) (hid : b.removing = some appId) (hrest : ∀ o ∈ rest, o.Removes b)
    (honce : ∀ o ∈ rest, o.releases? = none)
    (hr : { s with todo := rest }.runOp ops now (.removeFwd appId) = some t) :
    BookInv t (s.bookOp b (.removeFwd appId)) ∧
      ∀ id ∈ b.removing, RemovesOnly s t id b.held := by
  have hothers : ∀ o ∈ rest, o.Removes (s.bookOp b (.removeFwd appId)) := fun o ho =>
    Removes.of_held (hrest o ho) (honce o ho) rfl
  simp only [Socket.runOp] at hr
  -- not registered as a peer's
  split at hr
  · obtain rfl := Option.some.inj hr
    refine ⟨h.keep rfl rfl (Nat.le_refl _) (Nat.le_refl _) (.removing hothers ?_), fun id _ =>
      .refl rfl rfl rfl rfl rfl⟩
    exact fun o ho => honce o (List.mem_of_mem_tail ho)
  · -- the handle is aborted, and the release of the upstream is next
    rename_i f hf
    obtain rfl := Option.some.inj hr
    refine ⟨?_, fun id hmem => ?_⟩
    · refine h.shrink (fun _ _ hi => hi) (fun id g hg => ?_) ?_ rfl rfl (Nat.le_refl _) ?_ ?_
      · exact lookup_of_erase hg
      · exact Nat.add_le_add_left (List.kerase_sublist appId _).length_le _
      · simp [abortPeer]
      · refine .removing (fun o ho => ?_) honce
        rcases List.mem_cons.mp ho with rfl | ho
        · simp [DispatchOp.Removes, bookOp, hid, hf, FwdSub.key]
        · exact hothers o ho
    · obtain rfl := Option.some.inj (hid.symm.trans hmem)
      exact
        { locals := fun _ _ => rfl
          fwds := fun id' hne => AList.lookup_erase_ne hne
          own := ⟨.inr rfl, .inl (AList.lookup_erase _ _)⟩
          bus := fun j _ => Bus.Frame.refl j s.bus
          peers := fun k hk => by simp [abortPeer, hk f hf]
          hub := fun _ _ => .inl rfl }

/-- What the entry held is released at the hub. -/
theorem BookInv.release {now : ℤ} {peer topic : String} {rest : List (DispatchOp ρ)}
    (h : BookInv s b) (hheld : b.held.map FwdSub.key = some (peer, topic))
    (hrest : ∀ o ∈ rest, o.Removes b) (honce : ∀ o ∈ rest, o.releases? = none)
    (hr : { s with todo := rest }.runOp ops now (.unsubscribePeer peer topic) = some t) :
    BookInv t (s.bookOp b (.unsubscribePeer peer topic)) ∧
      ∀ id ∈ b.removing, RemovesOnly s t id b.held := by
  obtain rfl := Option.some.inj hr
  refine ⟨h.keep rfl rfl (Nat.le_refl _) (Nat.le_refl _) (.removing ?_ ?_), fun id _ => ?_⟩
  · exact fun o ho => Removes.of_held (hrest o ho) (honce o ho) rfl
  · exact fun o ho => honce o (List.mem_of_mem_tail ho)
  · refine
      { locals := fun _ _ => rfl
        fwds := fun _ _ => rfl
        own := ⟨.inr rfl, .inr rfl⟩
        bus := fun j _ => Bus.Frame.refl j s.bus
        peers := fun _ _ => rfl
        hub := fun p q => ?_ }
    have hcount := getD_refcount_unsubscribe s.peerStreams peer topic p q
    -- the entry that was held is counted down
    split at hcount
    · rename_i heq
      exact .inr ⟨by rw [hheld, heq], hcount⟩
    · exact .inl hcount

/-- An operation of a removal: the entry leaves its map, and nobody else loses anything. -/
theorem BookInv.removeOp {now : ℤ} {op : DispatchOp ρ} {rest : List (DispatchOp ρ)}
    (h : BookInv s b) (hop : op.Removes b)
    (hrest : ∀ o ∈ rest, o.Removes b) (honce : ∀ o ∈ rest, o.releases? = none)
    (hr : { s with todo := rest }.runOp ops now op = some t) :
    BookInv t (s.bookOp b op) ∧ ∀ id ∈ b.removing, RemovesOnly s t id b.held := by
  -- the operations of a removal; the others belong to a subscribe
  cases op with
  | reply r =>
    have hack : (DispatchOp.reply r : DispatchOp ρ).ackId = none := hop
    rw [bookOp_of_ackId (by simp) rfl hack]
    simp only [Socket.runOp] at hr
    split at hr <;> obtain rfl := Option.some.inj hr
    · exact h.quiet hrest honce rfl rfl rfl rfl rfl (.inl rfl)
    · exact h.quiet hrest honce rfl rfl rfl rfl rfl (.inr ⟨_, rfl⟩)
    · exact h.quiet hrest honce rfl rfl rfl rfl rfl (.inl rfl)
  | fallback msg =>
    rw [bookOp_of_ackId (by simp) rfl rfl]
    simp only [Socket.runOp] at hr
    split at hr <;> obtain rfl := Option.some.inj hr <;>
      exact h.quiet hrest honce rfl rfl rfl rfl rfl (.inl rfl)
  | peerContext r => exact hop.elim
  | subscribePeer appId r => exact hop.elim
  | subscribeLocal appId r => exact hop.elim
  | removeLocal appId =>
    rw [bookOp_of_ackId (by simp) rfl rfl]
    exact h.dropLocal hop hrest honce hr
  | removeFwd appId => exact h.dropFwd hop hrest honce hr
  | unsubscribePeer peer topic => exact h.release hop hrest honce hr

/-! ### The operations of a `Subscribe` message -/

omit [DecidableEq κ] in
/-- The ack is made. -/
theorem BookInv.makeAck (h : BookInv s b) (hidle : b.removing = none) {id : UInt64}
    {op : DispatchOp ρ} (hopens : op.newId = some id) (hunused : s.Unused id)
    (hunacked : id ∉ b.acked) (hconn : t.conn = s.conn) (hbus : t.bus = s.bus)
    (hpeers : t.peers = s.peers)
    (htodo : t.todo = [op] ∨ ∃ msg, t.todo = [.fallback msg, op]) :
    BookInv t { b with acked := b.acked ++ [id] } := by
  have hsub : ∀ id' ∈ b.acked, id' ∈ b.acked ++ [id] := fun _ hid => List.mem_append_left _ hid
  have hself : id ∈ b.acked ++ [id] := List.mem_append_right _ List.mem_cons_self
  -- the tables are as they were, and one id more is acknowledged
  refine ⟨⟨?_, ?_, ?_, ?_, ?_, ?_, ?_⟩, ?_, ?_, ?_, ?_⟩ <;> try simp only [hconn]
  · exact h.booked.disjoint
  · exact h.booked.below
  · exact fun id' hid' => hsub id' (h.booked.acked id' hid')
  · exact List.nodup_append.mpr ⟨h.booked.once, List.nodup_singleton id, fun x hx y hy heq =>
      hunacked (by rw [← List.mem_singleton.mp hy, ← heq]; exact hx)⟩
  · exact h.booked.cap
  · exact h.booked.buses
  · exact h.booked.aborts
  · exact .source hidle id op htodo hopens (hunused.keep hconn) hself
  · -- the new id is below the counter, too
    intro id' hid'
    rcases List.mem_append.mp hid' with hid' | hid'
    · exact h.acked id' hid'
    · rw [List.mem_singleton.mp hid']
      exact hunused.below
  · rw [hbus]
    exact h.buses
  · rw [hpeers]
    exact h.aborts

omit [DecidableEq κ] in
/-- The maps after a local subscription is entered. -/
theorem BookInv.enterLocal (h : BookInv s b) {id : UInt64} {i : SubscriptionId}
    (hunused : s.Unused id) (hacked : id ∈ b.acked) (hi : s.bus.nextId ≤ i)
    (hconn : t.conn = { s.conn with localSubs := s.conn.localSubs.insert id i })
    (hbus : i < t.bus.nextId) (hpeers : s.peers.length ≤ t.peers.length) (htodo : t.todo = []) :
    BookInv t b := by
  have hmem : ∀ {id'}, id' ∈ s.conn.localSubs.insert id i ↔ id' = id ∨ id' ∈ s.conn.localSubs :=
    AList.mem_insert _
  -- the bus has not handed out the new source before
  have hfresh : ∀ id' j, s.conn.localSubs.lookup id' = some j → j < i := fun id' j hj =>
    (h.buses id' j hj).trans_le hi
  refine ⟨⟨?_, ?_, ?_, h.booked.once, ?_, ?_, ?_⟩, ?_, ?_, ?_, ?_⟩ <;> try simp only [hconn]
  · intro id' hid'
    rcases hmem.mp hid' with rfl | hid'
    · exact hunused.fwds
    · exact h.booked.disjoint id' hid'
  · rintro id' (hid' | hid')
    · rcases hmem.mp hid' with rfl | hid'
      · exact hunused.below
      · exact h.booked.below id' (.inl hid')
    · exact h.booked.below id' (.inr hid')
  · rintro id' (hid' | hid')
    · rcases hmem.mp hid' with rfl | hid'
      · exact hacked
      · exact h.booked.acked id' (.inl hid')
    · exact h.booked.acked id' (.inr hid')
  · have hroom := hunused.room
    simp only [ConnState.subscriptions] at hroom ⊢
    rw [AList.entries_insert_of_notMem hunused.locals, List.length_cons]
    omega
  · intro id' id'' j hj hj'
    refine eq_of_lookup_insert (g := fun j => j) hfresh ?_ id' id'' j j hj hj' rfl
    rintro k k' j _ hk hk' rfl
    exact h.booked.buses k k' j hk hk'
  · exact h.booked.aborts
  · exact .removing (by simp [htodo]) (by simp [htodo])
  · exact h.acked
  · intro id' j hj
    rcases lookup_insert_cases hj with ⟨-, rfl⟩ | hj
    · exact hbus
    · exact (hfresh id' j hj).trans hbus
  · exact fun id' f hf => (h.aborts id' f hf).trans_le hpeers

omit [DecidableEq κ] in
/-- The maps after a forwarded subscription is entered. -/
theorem BookInv.enterFwd (h : BookInv s b) {id : UInt64} {f : FwdSub} (hunused : s.Unused id)
    (hacked : id ∈ b.acked) (hf : s.peers.length ≤ f.abort)
    (hconn : t.conn = { s.conn with fwdSubs := s.conn.fwdSubs.insert id f })
    (hbus : s.bus.nextId ≤ t.bus.nextId) (hpeers : f.abort < t.peers.length) (htodo : t.todo = []) :
    BookInv t b := by
  have hmem : ∀ {id'}, id' ∈ s.conn.fwdSubs.insert id f ↔ id' = id ∨ id' ∈ s.conn.fwdSubs :=
    AList.mem_insert _
  -- the new forwarder has a number of its own
  have hfresh : ∀ id' g, s.conn.fwdSubs.lookup id' = some g → g.abort < f.abort := fun id' g hg =>
    (h.aborts id' g hg).trans_le hf
  refine ⟨⟨?_, ?_, ?_, h.booked.once, ?_, ?_, ?_⟩, ?_, ?_, ?_, ?_⟩ <;> try simp only [hconn]
  · intro id' hid' hid''
    rcases hmem.mp hid'' with rfl | hid''
    · exact hunused.locals hid'
    · exact h.booked.disjoint id' hid' hid''
  · rintro id' (hid' | hid')
    · exact h.booked.below id' (.inl hid')
    · rcases hmem.mp hid' with rfl | hid'
      · exact hunused.below
      · exact h.booked.below id' (.inr hid')
  · rintro id' (hid' | hid')
    · exact h.booked.acked id' (.inl hid')
    · rcases hmem.mp hid' with rfl | hid'
      · exact hacked
      · exact h.booked.acked id' (.inr hid')
  · have hroom := hunused.room
    simp only [ConnState.subscriptions] at hroom ⊢
    rw [AList.entries_insert_of_notMem hunused.fwds, List.length_cons]
    omega
  · exact h.booked.buses
  · exact eq_of_lookup_insert (g := FwdSub.abort) hfresh h.booked.aborts
  · exact .removing (by simp [htodo]) (by simp [htodo])
  · exact h.acked
  · exact fun id' i hi => (h.buses id' i hi).trans_le hbus
  · intro id' g hg
    rcases lookup_insert_cases hg with ⟨-, rfl⟩ | hg
    · exact hpeers
    · exact (hfresh id' g hg).trans hpeers

/-- The dispatcher opens the source of what it has acknowledged. -/
theorem BookInv.openOp {now : ℤ} {id : UInt64} {op : DispatchOp ρ} (h : BookInv s b)
    (hopens : op.newId = some id) (hunused : s.Unused id)
    (hacked : id ∈ b.acked) (hr : { s with todo := [] }.runOp ops now op = some t) :
    BookInv t (s.bookOp b op) := by
  -- opening acknowledges nothing
  have hbook : s.bookOp b op = b := by
    cases op with
    | subscribePeer appId r => simp [bookOp, DispatchOp.ackId]
    | subscribeLocal appId r => simp [bookOp, DispatchOp.ackId]
    | _ => cases hopens
  rw [hbook]
  cases op with
  | subscribePeer appId r =>
    obtain rfl := Option.some.inj hopens
    simp only [Socket.runOp] at hr
    -- the peer went in between: an error follows
    split at hr
    · obtain rfl := Option.some.inj hr
      exact h.keep rfl rfl (Nat.le_refl _) (Nat.le_refl _)
        (.removing (by simp [DispatchOp.Removes, DispatchOp.ackId]) (by simp))
    · rename_i upstream next hub hsub
      obtain rfl := Option.some.inj hr
      refine h.enterFwd hunused hacked ?_ rfl (Nat.le_refl _) ?_ rfl
      · exact Nat.le_refl _
      · simp
  | subscribeLocal appId r =>
    obtain rfl := Option.some.inj hopens
    -- the bus hands out the next id, whether or not the entry could be made
    obtain ⟨bus, hbus, rfl⟩ := Option.map_eq_some_iff.mp hr
    have hnext : bus.nextId = s.bus.nextId + 1 := by
      rw [Bus.step_subscribe hbus, Bus.nextId_subscribe]
    split
    · refine h.enterLocal hunused hacked (Nat.le_refl _) rfl ?_ (Nat.le_refl _) rfl
      exact Nat.lt_of_lt_of_eq (Nat.lt_succ_self _) hnext.symm
    · refine h.keep rfl rfl ?_ (Nat.le_refl _) (.removing (by simp) (by simp))
      exact Nat.le_of_lt (Nat.lt_of_lt_of_eq (Nat.lt_succ_self _) hnext.symm)
  | _ => cases hopens

/-- The context of the peer has been looked up. -/
theorem BookInv.contextOp {now : ℤ} {r : Subscribing ρ} (h : BookInv s b) (hwrap : s.NoWrap)
    (hidle : b.removing = none) (hroom : s.conn.subscriptions < WS_MAX_SUBSCRIPTIONS_PER_CONN)
    (hr : { s with todo := [] }.runOp ops now (.peerContext r) = some t) :
    BookInv t (s.bookOp b (.peerContext r)) := by
  have hempty : BookInv { s with todo := [] } b :=
    h.keep rfl rfl (Nat.le_refl _) (Nat.le_refl _) (.removing (by simp) (by simp))
  rw [bookOp_of_ackId (by simp) rfl rfl]
  simp only [Socket.runOp] at hr
  split at hr
  · split at hr <;> obtain rfl := Option.some.inj hr
    · exact hempty.accept hwrap rfl hidle hroom r
    · exact h.keep rfl rfl (Nat.le_refl _) (Nat.le_refl _)
        (.removing (by simp [DispatchOp.Removes, DispatchOp.ackId]) (by simp))
  · obtain rfl := Option.some.inj hr
    exact hempty.accept hwrap rfl hidle hroom r

/-- The ack goes out, or is kept for later. -/
theorem BookInv.ackOp {now : ℤ} {topic : String} {id : UInt64} {op : DispatchOp ρ}
    (h : BookInv s b) (hidle : b.removing = none) (hopens : op.newId = some id)
    (hunused : s.Unused id) (hunacked : id ∉ b.acked)
    (hr : { s with todo := [op] }.runOp ops now (.reply (.subscribeAck topic id)) = some t) :
    BookInv t (s.bookOp b (.reply (.subscribeAck topic id))) := by
  have hmade : s.bookOp b (.reply (.subscribeAck topic id)) =
      { b with acked := b.acked ++ [id] } := rfl
  rw [hmade]
  simp only [Socket.runOp] at hr
  split at hr <;> obtain rfl := Option.some.inj hr
  · exact h.makeAck hidle hopens hunused hunacked rfl rfl rfl (.inl rfl)
  · exact h.makeAck hidle hopens hunused hunacked rfl rfl rfl (.inr ⟨_, rfl⟩)
  · exact h.makeAck hidle hopens hunused hunacked rfl rfl rfl (.inl rfl)

/-- An operation of the dispatcher. -/
theorem BookInv.runOp {now : ℤ} {op : DispatchOp ρ} {rest : List (DispatchOp ρ)} (h : BookInv s b)
    (hwrap : s.NoWrap) (htodo : s.todo = op :: rest)
    (hs : { s with todo := rest }.runOp ops now op = some t) :
    BookInv t (s.bookOp b op) ∧ ∀ id ∈ b.removing, RemovesOnly s t id b.held := by
  -- where the dispatcher stands: in a removal, or in one of the three parts of a subscribe
  cases h.underway with
  | removing todo once =>
    rw [htodo] at todo once
    exact h.removeOp (todo op List.mem_cons_self)
      (fun o ho => todo o (List.mem_cons_of_mem _ ho)) once hs
  | context idle r todo room =>
    rw [htodo] at todo
    obtain ⟨rfl, rfl⟩ := List.cons.inj todo
    exact ⟨h.contextOp hwrap idle room hs, removesOnly_of_none idle⟩
  | ack idle topic id op' todo opens unused unacked =>
    rw [htodo] at todo
    obtain ⟨rfl, rfl⟩ := List.cons.inj todo
    exact ⟨h.ackOp idle opens unused unacked hs, removesOnly_of_none idle⟩
  | source idle id op' todo opens unused acked =>
    refine ⟨?_, removesOnly_of_none idle⟩
    rw [htodo] at todo
    rcases todo with todo | ⟨msg, todo⟩
    · obtain ⟨rfl, rfl⟩ := List.cons.inj todo
      exact h.openOp opens unused acked hs
    · -- the ack did not fit into the queue
      obtain ⟨rfl, rfl⟩ := List.cons.inj todo
      rw [bookOp_of_ackId (by simp) rfl rfl]
      simp only [Socket.runOp] at hs
      split at hs <;> obtain rfl := Option.some.inj hs <;>
        exact h.keep rfl rfl (Nat.le_refl _) (Nat.le_refl _)
          (.source idle id op' (.inl rfl) opens (unused.keep rfl) acked)

/-- The dispatcher does its next operation, or goes on where none is left. -/
theorem BookInv.dispatch {now : ℤ} (h : BookInv s b) (hwrap : s.NoWrap)
    (hs : s.dispatch ops now = some t) :
    BookInv t (s.book ops (.dispatch now) b) ∧ ∀ id ∈ b.removing, RemovesOnly s t id b.held := by
  unfold Socket.dispatch at hs
  split at hs
  · rename_i op rest htodo
    have hbook : s.book ops (.dispatch now) b = s.bookOp b op := by simp [book, htodo]
    rw [hbook]
    exact h.runOp hwrap htodo hs
  · -- nothing to do: the end of the connection moves on
    rename_i htodo
    have hbook : s.book ops (.dispatch now) b = b := by simp [book, htodo]
    rw [hbook]
    have hstage : ∀ stage, BookInv { s with stage } b ∧
        ∀ id ∈ b.removing, RemovesOnly s { s with stage } id b.held := fun stage =>
      ⟨h.other rfl rfl (Nat.le_refl _) (Nat.le_refl _), fun _ _ => .refl rfl rfl rfl rfl rfl⟩
    split at hs
    · obtain rfl := Option.some.inj hs
      exact hstage _
    · split at hs
      · obtain rfl := Option.some.inj hs
        exact hstage _
      · cases hs
    · cases hs

/-! ### Steps and runs -/

/-- The client sends something. -/
theorem BookInv.inbound {m : ClientMessage} (h : BookInv s b) (hwrap : s.NoWrap)
    (hs : Socket.step ops s (.inbound m) = some t) :
    BookInv t (s.book ops (.inbound m) b) ∧
      ∀ id ∈ s.removal ops (.inbound m), RemovesOnly s t id b.held := by
  simp only [Socket.step] at hs
  split at hs
  · rename_i hcond
    have htodo := List.isEmpty_iff.mp hcond.2
    -- such a message leaves the dispatcher without an operation
    have hnone : ∀ {stage : DispatchStage},
        BookInv { s with stage } { b with removing := none, held := none } :=
      h.keep rfl rfl (Nat.le_refl _) (Nat.le_refl _)
        (.removing (by simp [htodo]) (by simp [htodo]))
    split at hs <;> obtain rfl := Option.some.inj hs
    · rename_i text
      refine ⟨h.onText hwrap htodo text, fun id hid => ?_⟩
      simp only [removal] at hid
      split at hid
      · rename_i hparsed
        simp only [Socket.onText, hparsed]
        exact .refl rfl rfl rfl rfl rfl
      · cases hid
    · exact ⟨hnone, removesOnly_of_none rfl⟩
    · exact ⟨hnone, removesOnly_of_none rfl⟩
  · cases hs

/-- A forwarder has reported its end. -/
theorem BookInv.forwarderEvent (h : BookInv s b)
    (hs : Socket.step ops s .forwarderEvent = some t) :
    BookInv t (s.book ops .forwarderEvent b) ∧
      ∀ id ∈ s.removal ops .forwarderEvent, RemovesOnly s t id b.held := by
  simp only [Socket.step] at hs
  split at hs
  · split at hs
    · cases hs
    · rename_i ev rest hev
      obtain rfl := Option.some.inj hs
      have hid : s.removal ops .forwarderEvent = some ev.appId := by simp [removal, hev]
      refine ⟨?_, fun id _ => ?_⟩
      · rw [book, hid]
        cases ev <;> exact h.keep rfl rfl (Nat.le_refl _) (Nat.le_refl _)
          (.removing (by simp [onForwarderEvent, DispatchOp.Removes, ForwarderEvent.appId])
            (by simp [onForwarderEvent]))
      · cases ev <;> exact .refl rfl rfl rfl rfl rfl
  · cases hs

/-- An entry is drained at the end of the connection. -/
theorem BookInv.drain {appId : UInt64} (h : BookInv s b)
    (hs : Socket.step ops s (.drain appId) = some t) :
    BookInv t (s.book ops (.drain appId) b) ∧
      ∀ id ∈ s.removal ops (.drain appId), RemovesOnly s t id b.held := by
  have hdrain : ∀ {op : DispatchOp ρ},
      op.Removes { b with removing := some appId, held := none } →
      BookInv { s with todo := [op] } { b with removing := some appId, held := none } :=
    fun hop => h.keep rfl rfl (Nat.le_refl _) (Nat.le_refl _)
      (.removing (by simpa using hop) (by simp))
  simp only [Socket.step, Socket.drain] at hs
  split at hs
  · split at hs
    · obtain rfl := Option.some.inj hs
      exact ⟨hdrain rfl, fun _ _ => .refl rfl rfl rfl rfl rfl⟩
    · split at hs
      · obtain rfl := Option.some.inj hs
        exact ⟨hdrain rfl, fun _ _ => .refl rfl rfl rfl rfl rfl⟩
      · cases hs
  · cases hs

/-- **One step keeps the books**, and a removal is nobody else's loss. -/
theorem BookInv.step {a : SocketAction ρ} (h : BookInv s b) (hwrap : s.NoWrap)
    (hs : Socket.step ops s a = some t) :
    BookInv t (s.book ops a b) ∧ ∀ id ∈ handles ops (s, b) a, RemovesOnly s t id b.held := by
  -- only the dispatcher writes the books; the rest has to leave its tables alone
  cases a with
  | bus act =>
    simp only [Socket.step] at hs
    split at hs
    · obtain ⟨bus, hbus, rfl⟩ := Option.map_eq_some_iff.mp hs
      exact ⟨h.other rfl rfl (nextId_le_of_step hbus) (Nat.le_refl _), removesOnly_of_none rfl⟩
    · cases hs
  | hub act =>
    obtain ⟨hub, -, rfl⟩ := Option.map_eq_some_iff.mp hs
    exact ⟨h.other rfl rfl (Nat.le_refl _) (Nat.le_refl _), removesOnly_of_none rfl⟩
  | connected senders =>
    simp only [Socket.step] at hs
    split at hs
    · obtain rfl := Option.some.inj hs
      exact ⟨h.other rfl rfl (Nat.le_refl _) (Nat.le_refl _), removesOnly_of_none rfl⟩
    · cases hs
  | inbound m => exact h.inbound hwrap hs
  | forwarderEvent => exact h.forwarderEvent hs
  | dispatch now => exact h.dispatch hwrap hs
  | drain appId => exact h.drain hs
  | pollLocal k now =>
    obtain ⟨hconn, -, htodo, -, hpeers, -⟩ := frame_pollLocal hs
    refine ⟨h.other hconn htodo ?_ (by rw [hpeers]), removesOnly_of_none rfl⟩
    -- a forwarder takes from its queue or unsubscribes
    rcases (moves_pollLocal hs).bus with hbus | ⟨act, hbus⟩
    · rw [hbus]
    · exact nextId_le_of_step hbus
  | pollPeer k now =>
    obtain ⟨hconn, -, htodo, -, -, hbus⟩ := frame_pollPeer hs
    obtain ⟨f, f', hm⟩ := peerMoved_of_pollPeer hs
    refine ⟨h.other hconn htodo (by rw [hbus]) ?_, removesOnly_of_none rfl⟩
    rw [hm.peers, List.length_set]
  | cancelPeer k =>
    obtain ⟨f, -, -, rfl⟩ := cancelPeer_cases hs
    exact ⟨h.other rfl rfl (Nat.le_refl _) (by simp [setPeer]), removesOnly_of_none rfl⟩
  | write sent =>
    obtain ⟨happ, hconn, -, htodo, -, hpeers⟩ := frame_write hs
    exact ⟨h.other hconn htodo (by rw [happ]) (by rw [hpeers]), removesOnly_of_none rfl⟩

/-- **A connection's books are in order** in every run in which the counter of ids does not wrap
around: the maps are as `Booked` says, and a removal takes nothing from another subscription. -/
theorem bookkeeping_of_noWrap (ops : SocketOps ρ κ) (app : AppState ρ) (as : List (SocketAction ρ))
    (hsteps : (bookkeeping ops app).StepsMeet (fun x _ => x.1.NoWrap) (bookkeeping ops app).init as) :
    (bookkeeping ops app).StatesMeet Booked (bookkeeping ops app).init as ∧
      (bookkeeping ops app).StepsMeet (fun x a => ∀ y, (bookkeeping ops app).step x a = some y →
        ∀ id ∈ handles ops x a, RemovesOnly x.1 y.1 id x.2.held) (bookkeeping ops app).init as := by
  have hall : (bookkeeping ops app).StatesMeet (fun x => BookInv x.1 x.2)
      (bookkeeping ops app).init as := by
    refine Machine.statesMeet_of_stepsMeet ?_ (bookInv_init app) hsteps
    rintro ⟨s, b⟩ a ⟨t, b'⟩ hx hwrap hxy
    obtain ⟨hs, rfl⟩ := Machine.step_withHistory.mp hxy
    exact (BookInv.step hx hwrap hs).1
  refine ⟨hall.mono fun x hx => hx.booked, ?_⟩
  have hboth := (hall.stepsMeet (G := fun x _ => BookInv x.1 x.2) fun _ _ hx => hx).and hsteps
  refine hboth.imp fun x a hx y hxy => ?_
  exact (BookInv.step hx.1 hx.2 (Machine.step_withHistory.mp hxy).1).2

/-- A client that subscribes to the topic of a peer, and unsubscribes twice. -/
def leavesTwice : List (SocketAction Empty) :=
  Sockets.rejoins ++ [.inbound (.text unsubscribeText)] ++ List.replicate 4 (.dispatch 0) ++
    [.inbound (.text unsubscribeText)] ++ List.replicate 3 (.dispatch 0) ++ Sockets.rejoins

/-- Where one id is left twice, only the later subscription is still forwarded. -/
theorem bookkeeping_leavesTwice :
    (∃ x, (bookkeeping Sockets.sharedOps Sockets.withPeer).run
      (bookkeeping Sockets.sharedOps Sockets.withPeer).init leavesTwice = some x ∧
        x.2.acked = [1, 2] ∧ x.1.conn.fwdSubs.keys = [2]) ∧
    (bookkeeping Sockets.sharedOps Sockets.withPeer).StatesMeet Booked
      (bookkeeping Sockets.sharedOps Sockets.withPeer).init leavesTwice := by
  have hrun : ((bookkeeping Sockets.sharedOps Sockets.withPeer).run
      (bookkeeping Sockets.sharedOps Sockets.withPeer).init leavesTwice).any (fun x =>
        decide (x.2.acked = [1, 2] ∧ x.1.conn.fwdSubs.keys = [2])) = true := by decide
  have hsteps : (bookkeeping Sockets.sharedOps Sockets.withPeer).StepsMeet (fun x _ => x.1.NoWrap)
      (bookkeeping Sockets.sharedOps Sockets.withPeer).init leavesTwice := by decide
  obtain ⟨x, hx, hcheck⟩ := (Option.any_eq_true _ _).mp hrun
  exact ⟨⟨x, hx, of_decide_eq_true hcheck⟩,
    (bookkeeping_of_noWrap Sockets.sharedOps Sockets.withPeer leavesTwice hsteps).1⟩

/-! ### The counter of ids wraps around -/

/-- What a run acknowledges does not depend on the books. -/
theorem exists_acks {app : AppState ρ} {as : List (SocketAction ρ)}
    (h : (machine ops app).run s as = some t) : ∃ acks, ∀ b, ∃ b',
      (bookkeeping ops app).run (s, b) as = some (t, b') ∧ b'.acked = b.acked ++ acks := by
  -- induction on the run, for any books that it starts with
  induction as generalizing s with
  | nil =>
    obtain rfl := Option.some.inj h
    exact ⟨[], fun b => ⟨b, rfl, by simp⟩⟩
  | cons a as ih =>
    obtain ⟨u, hu, hrun⟩ := Machine.run_cons.mp h
    obtain ⟨acks, hacks⟩ := ih hrun
    -- what a step acknowledges does not depend on the books
    have hbook : ∃ new, ∀ b, (s.book ops a b).acked = b.acked ++ new := by
      cases a with
      | dispatch now =>
        cases htodo : s.todo with
        | nil => exact ⟨[], fun b => by simp [book, htodo]⟩
        | cons op rest =>
          refine ⟨op.ackId.toList, fun b => ?_⟩
          cases op <;> simp [book, htodo, bookOp, DispatchOp.ackId]
      | _ => exact ⟨[], fun b => by simp [book]⟩
    obtain ⟨new, hnew⟩ := hbook
    refine ⟨new ++ acks, fun b => ?_⟩
    obtain ⟨b', hb', hacked⟩ := hacks (s.book ops a b)
    refine ⟨b', Machine.run_cons.mpr ⟨(u, s.book ops a b), ?_, hb'⟩, ?_⟩
    · exact Machine.step_withHistory.mpr ⟨hu, rfl⟩
    · rw [hacked, hnew, List.append_assoc]

/-- **An id is acknowledged twice** when the ids wrap around: after `2 ^ 64 - 1` subscriptions to an
unknown peer the client is given the id `1` again, which it still has. -/
theorem acked_twice : ∃ x, (bookkeeping Sockets.sharedOps Sockets.withPeer).Reachable x ∧
    x.1.stage = .loop ∧ ¬ x.2.acked.Nodup ∧ ¬ Booked x := by
  have hacked : ((bookkeeping Sockets.sharedOps Sockets.withPeer).run
      (bookkeeping Sockets.sharedOps Sockets.withPeer).init Sockets.deafened).any (fun x =>
        decide (x.2.acked = [1])) = true := by decide
  have hagain : ((machine Sockets.sharedOps Sockets.withPeer).run
      (machine Sockets.sharedOps Sockets.withPeer).init Sockets.deafened).any (fun c =>
        ((bookkeeping Sockets.sharedOps Sockets.withPeer).run (c.renumber 1, {})
          Sockets.rejoins).any fun x => decide (x.1.stage = .loop ∧ x.2.acked = [1])) = true := by
    decide
  obtain ⟨c, as, hc, hwaste, -, hrejoin⟩ := Sockets.exists_wrap hagain
  obtain ⟨y, hy, hcheck⟩ := (Option.any_eq_true _ _).mp hrejoin
  obtain ⟨hstage, hlast⟩ := of_decide_eq_true hcheck
  -- the acks of the three parts of the run
  obtain ⟨acks₁, h₁⟩ := exists_acks hc
  obtain ⟨acks₂, h₂⟩ := exists_acks hwaste
  obtain ⟨acks₃, h₃⟩ := exists_acks (Machine.run_of_withHistory hy)
  have hone : acks₁ = [1] := by
    obtain ⟨z, hz, hfirst⟩ := (Option.any_eq_true _ _).mp hacked
    obtain ⟨b, hb, hsame⟩ := h₁ {}
    obtain rfl := Option.some.inj (hz.symm.trans hb)
    exact hsame.symm.trans (of_decide_eq_true hfirst)
  have hthree : acks₃ = [1] := by
    obtain ⟨b, hb, hsame⟩ := h₃ {}
    have hbooks : y.2 = b := congrArg Prod.snd (Option.some.inj (hy.symm.trans hb))
    rw [hbooks] at hlast
    exact hsame.symm.trans hlast
  obtain ⟨b₁, hb₁, hacked₁⟩ := h₁ {}
  obtain ⟨b₂, hb₂, hacked₂⟩ := h₂ b₁
  obtain ⟨b₃, hb₃, hacked₃⟩ := h₃ b₂
  have htwice : ¬ b₃.acked.Nodup := by
    rw [hacked₃, hacked₂, hacked₁, hone, hthree]
    intro hnodup
    exact List.disjoint_of_nodup_append hnodup (by simp) List.mem_cons_self
  refine ⟨(y.1, b₃), ⟨Sockets.deafened ++ (as ++ Sockets.rejoins), ?_⟩, hstage, htwice,
    fun hbooked => htwice hbooked.once⟩
  exact (Machine.run_append hb₁ _).trans ((Machine.run_append hb₂ _).trans hb₃)

end Socket

end Boardwalk
