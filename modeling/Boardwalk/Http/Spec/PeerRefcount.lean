import Mathlib.Algebra.Order.BigOperators.Group.List
import Mathlib.Algebra.Order.Monoid.NatCast
import Mathlib.Algebra.Order.Ring.Nat
import Boardwalk.Http.Sockets
import Boardwalk.Http.Spec.Teardown
import Boardwalk.Lib.Ledger

/-!
# The reference counts of peer streams

The hub counts, for each topic of a peer, the entries of `fwd_subs` over all connections.  A
dispatcher takes an entry out of its map before it releases it, so in between the hub counts one
more; in every state the count is the number of entries and of releases under way
(`PeerStreamHub.Counts`).  A step of a connection leaves the hub alone, or joins, or leaves
(`Socket.HubMove`), and what the connection holds goes with it (`Socket.Tidy.step`); so one step of
any of the connections keeps the counts (`Sockets.RefcountInv.step`), and they are exact in every
state (`Sockets.countsExact_of_noWrap`).

The ids of a connection's subscriptions are handed out by a counter of 64 bits, and a connection
that uses them all up takes an id that it still holds: its entry is replaced and never released
(`Sockets.refcount_drifts`).
-/

namespace Boardwalk

/-! ### The hub and its subscribers -/

namespace PeerStreamHub

variable {hub hub' : PeerStreamHub} {n m : String × String → ℕ}

/-- The hub counts `n key` subscribers of each key, and has no entry for a key without any. -/
structure Counts (hub : PeerStreamHub) (n : String × String → ℕ) : Prop where
  sound : hub.Sound
  refcount : ∀ peer topic, hub.refcount peer topic =
    if n (peer, topic) = 0 then none else some (n (peer, topic))

theorem counts_empty : Counts {} fun _ => 0 where
  sound := sound_empty
  refcount _ _ := rfl

theorem Counts.congr (h : hub.Counts n) (heq : ∀ key, m key = n key) : hub.Counts m := by
  obtain rfl : m = n := funext heq
  exact h

/-- One more of `key`. -/
def addOne (key : String × String) (n : String × String → ℕ) (key' : String × String) : ℕ :=
  n key' + if key' = key then 1 else 0

theorem addOne_self (key : String × String) (n : String × String → ℕ) :
    addOne key n key = n key + 1 := by simp [addOne]

theorem addOne_of_ne {key key' : String × String} (h : key' ≠ key) (n : String × String → ℕ) :
    addOne key n key' = n key' := by simp [addOne, h]

/-- The entry of a key changes, and no other. -/
theorem Counts.of_inner {key : String × String} {count : ℕ} (h : hub.Counts n) (hs : hub'.Sound)
    (hother : ∀ key', key' ≠ key → hub'.inner.get? key' = hub.inner.get? key' ∧ m key' = n key')
    (hself : hub'.refcount key.1 key.2 = if count = 0 then none else some count)
    (hcount : m key = count) : hub'.Counts m where
  sound := hs
  refcount peer topic := by
    by_cases hkey : (peer, topic) = key
    · subst hkey
      rw [hself, hcount]
    · obtain ⟨hget, hm⟩ := hother (peer, topic) hkey
      rw [PeerStreamHub.refcount, hget, hm]
      exact h.refcount peer topic

/-- A subscribe at the hub counts one more for its topic. -/
theorem Counts.subscribe (h : hub.Counts n) {peer topic : String} {senders : PeerSenders}
    {rx : ℕ × ℕ} (hs : hub.subscribe peer topic senders = some (rx, hub')) :
    hub'.Counts (addOne (peer, topic) n) := by
  -- the stream was open already and counts one more, or it is new
  have hcount := h.refcount peer topic
  unfold PeerStreamHub.refcount at hcount
  rcases subscribe_cases hs with ⟨e, he, -, hinner, -⟩ | ⟨-, hnone, -, hinner, -⟩
  · refine h.of_inner (h.sound.subscribe hs) (fun key' hkey => ⟨?_, addOne_of_ne hkey n⟩) ?_
      (addOne_self _ n)
    · rw [hinner, Table.get?_insert_ne hkey]
    · rw [he] at hcount
      split at hcount
      · -- an open stream has a count
        cases hcount
      · simp only [Option.map_some, Option.some.injEq] at hcount
        simp [PeerStreamHub.refcount, hinner, hcount]
  · refine h.of_inner (h.sound.subscribe hs) (fun key' hkey => ⟨?_, addOne_of_ne hkey n⟩) ?_
      (addOne_self _ n)
    · rw [hinner, Table.get?_insert_ne hkey]
    · rw [hnone] at hcount
      split at hcount
      · rename_i hzero
        simp [PeerStreamHub.refcount, hinner, hzero]
      · cases hcount

/-- A release takes one off the count, and the entry with the last. -/
theorem Counts.unsubscribe {peer topic : String} (h : hub.Counts (addOne (peer, topic) n)) :
    (hub.unsubscribe peer topic).Counts n := by
  have hcount := h.refcount peer topic
  rw [addOne_self, if_neg (by omega)] at hcount
  obtain ⟨e, he, hrefs⟩ := Option.map_eq_some_iff.mp hcount
  have hsound := h.sound.unsubscribe peer topic
  rcases hub.unsubscribe_cases peer topic with ⟨hnone, -⟩ |
    ⟨e', he', ⟨hone, hinner, -⟩ | ⟨hone, hinner, -⟩⟩
  · rw [hnone] at he
    cases he
  · obtain rfl : e = e' := Option.some.inj (he.symm.trans he')
    refine h.of_inner hsound (fun key' hkey => ⟨?_, (addOne_of_ne hkey n).symm⟩) ?_ rfl
    · rw [hinner, Table.get?_remove_ne hkey]
    · have hzero : n (peer, topic) = 0 := by omega
      simp [PeerStreamHub.refcount, hinner, hzero]
  · obtain rfl : e = e' := Option.some.inj (he.symm.trans he')
    refine h.of_inner hsound (fun key' hkey => ⟨?_, (addOne_of_ne hkey n).symm⟩) ?_ rfl
    · rw [hinner, Table.get?_insert_ne hkey]
    · have hpos : n (peer, topic) ≠ 0 := by omega
      have hpred : e.refcount - 1 = n (peer, topic) := by omega
      simp [PeerStreamHub.refcount, hinner, hpos, hpred]

theorem Counts.of_inner_eq (h : hub.Counts n) (hs : hub'.Sound) (hinner : hub'.inner = hub.inner) :
    hub'.Counts n where
  sound := hs
  refcount peer topic := by
    rw [PeerStreamHub.refcount, hinner]
    exact h.refcount peer topic

theorem inner_line {k : ℕ} {v : Json} {senders : Option PeerSenders}
    (hs : hub.step senders (.line k v) = some hub') : hub'.inner = hub.inner := by
  simp only [step] at hs
  split at hs
  · split at hs
    · obtain rfl := Option.some.inj hs
      rfl
    · cases hs
  · cases hs

theorem inner_ended {k : ℕ} {senders : Option PeerSenders}
    (hs : hub.step senders (.ended k) = some hub') : hub'.inner = hub.inner := by
  simp only [step] at hs
  split at hs
  · split at hs
    · obtain rfl := Option.some.inj hs
      rfl
    · cases hs
  · cases hs

end PeerStreamHub

/-! ### What a connection holds -/

def FwdSub.key (f : FwdSub) : String × String := (f.peer, f.topic)

namespace DispatchOp

variable {ρ : Type}

/-- The key that the operation releases. -/
def releases? : DispatchOp ρ → Option (String × String)
  | unsubscribePeer peer topic => some (peer, topic)
  | _ => none

/-- The operation is on the way to a new subscription. -/
def opens : DispatchOp ρ → Bool
  | peerContext _ | subscribePeer _ _ | subscribeLocal _ _ => true
  | _ => false

/-- Such an operation is the last one for its message. -/
def OpensLast : List (DispatchOp ρ) → Prop
  | [] => True
  | op :: rest => (op.opens = true → rest = []) ∧ OpensLast rest

end DispatchOp

namespace Socket

variable {ρ κ : Type} [DecidableEq κ] {ops : SocketOps ρ κ} {s t : Socket ρ}

/-- The entries of `fwd_subs` for a key. -/
def forwarded (s : Socket ρ) (key : String × String) : ℕ :=
  s.conn.fwdSubs.entries.countP fun e => e.2.key = key

/-- The releases of a key that the dispatcher has still to make. -/
def releasing (s : Socket ρ) (key : String × String) : ℕ :=
  s.todo.countP fun op => op.releases? = some key

/-- What the hub counts for the connection. -/
def claims (s : Socket ρ) (key : String × String) : ℕ := s.forwarded key + s.releasing key

/-- What holds of a connection whose counter of ids has not wrapped around. -/
structure Tidy (s : Socket ρ) : Prop where
  opensLast : DispatchOp.OpensLast s.todo
  fresh : ∀ appId r, .subscribePeer appId r ∈ s.todo →
    appId < s.conn.nextAppId ∧ appId ∉ s.conn.fwdSubs
  ids : ∀ appId ∈ s.conn.fwdSubs, appId < s.conn.nextAppId
  ended : s.stage = .ended → s.todo = [] ∧ s.conn.fwdSubs.entries = []

omit [DecidableEq κ] in
theorem tidy_new (app : AppState ρ) : Tidy ({ app with } : Socket ρ) where
  opensLast := trivial
  fresh _ _ h := absurd h List.not_mem_nil
  ids _ h := absurd h List.not_mem_nil
  ended h := by cases h

omit [DecidableEq κ] in
/-- What the connections share is no part of it. -/
theorem Tidy.withApp (h : s.Tidy) (app : AppState ρ) : { s with toAppState := app }.Tidy :=
  ⟨h.opensLast, h.fresh, h.ids, h.ended⟩

/-- What a step of a connection does to the hub, and to what the connection holds. -/
inductive HubMove (s t : Socket ρ) : Prop
  | keep (hub : t.peerStreams = s.peerStreams) (claims : ∀ key, t.claims key = s.claims key)
  | join (peer topic : String) (senders : PeerSenders) (rx : ℕ × ℕ)
      (hub : s.peerStreams.subscribe peer topic senders = some (rx, t.peerStreams))
      (claims : ∀ key, t.claims key = PeerStreamHub.addOne (peer, topic) s.claims key)
  | leave (peer topic : String) (hub : t.peerStreams = s.peerStreams.unsubscribe peer topic)
      (claims : ∀ key, s.claims key = PeerStreamHub.addOne (peer, topic) t.claims key)

omit [DecidableEq κ] in
/-- The maps, the counter and the releases stay as they are. -/
theorem Tidy.keep (h : s.Tidy) (hfwd : t.conn.fwdSubs = s.conn.fwdSubs)
    (hnext : t.conn.nextAppId = s.conn.nextAppId) (hhub : t.peerStreams = s.peerStreams)
    (hlast : DispatchOp.OpensLast t.todo) (hrel : ∀ key, t.releasing key = s.releasing key)
    (hsub : ∀ appId r, .subscribePeer appId r ∈ t.todo → .subscribePeer appId r ∈ s.todo)
    (hended : t.stage = .ended → t.todo = [] ∧ t.conn.fwdSubs.entries = []) :
    t.Tidy ∧ HubMove s t := by
  refine ⟨⟨hlast, fun appId r hop => ?_, fun appId hmem => ?_, hended⟩, .keep hhub fun key => ?_⟩
  · rw [hnext, hfwd]
    exact h.fresh appId r (hsub appId r hop)
  · rw [hfwd] at hmem
    rw [hnext]
    exact h.ids appId hmem
  · rw [claims, claims, forwarded, forwarded, hfwd, hrel]

theorem lt_succ_of_noWrap {x : UInt64} (h : x.toNat + 1 < 2 ^ 64) : x < x + 1 := by
  rw [UInt64.lt_iff_toNat_lt, UInt64.toNat_add, UInt64.toNat_one]
  omega

omit [DecidableEq κ] in
/-- A subscription is accepted: its id is a new one. -/
theorem Tidy.accept (h : s.Tidy) (hnext : s.conn.nextAppId.toNat + 1 < 2 ^ 64)
    (hstage : s.stage ≠ .ended) (hrel : ∀ key, s.releasing key = 0) (r : Subscribing ρ) :
    ({ s with todo := [] }.accept r).Tidy ∧ HubMove s ({ s with todo := [] }.accept r) := by
  have hlt := lt_succ_of_noWrap hnext
  refine ⟨⟨?_, fun appId r' hop => ?_, fun appId hmem => ?_, fun he => absurd he hstage⟩,
    .keep rfl fun key => ?_⟩
  · simp [Socket.accept, DispatchOp.OpensLast, DispatchOp.opens]
  · have hid : appId = s.conn.nextAppId := by
      simp only [Socket.accept, List.mem_cons] at hop
      split at hop <;> simp_all
    subst hid
    exact ⟨hlt, fun hmem => UInt64.lt_irrefl _ (h.ids _ hmem)⟩
  · exact UInt64.lt_trans (h.ids appId hmem) hlt
  · rw [claims, claims, hrel key]
    simp only [Socket.accept, releasing]
    split <;> simp [DispatchOp.releases?, forwarded]

omit [DecidableEq κ] in
/-- An entry under a new id. -/
theorem forwarded_insert {conn : ConnState} {appId : UInt64} {fwd : FwdSub}
    (hnew : appId ∉ conn.fwdSubs) (key : String × String) :
    (conn.fwdSubs.insert appId fwd).entries.countP (fun e => e.2.key = key) =
      conn.fwdSubs.entries.countP (fun e => e.2.key = key) + if key = fwd.key then 1 else 0 := by
  rw [AList.entries_insert_of_notMem hnew, List.countP_cons]
  simp only [decide_eq_true_eq, eq_comm (a := fwd.key)]

omit [DecidableEq κ] in
/-- The entry of an id is taken out. -/
theorem forwarded_erase {conn : ConnState} {appId : UInt64} {fwd : FwdSub}
    (hfwd : conn.fwdSubs.lookup appId = some fwd) (key : String × String) :
    conn.fwdSubs.entries.countP (fun e => e.2.key = key) =
      (conn.fwdSubs.erase appId).entries.countP (fun e => e.2.key = key) +
        if key = fwd.key then 1 else 0 := by
  have hmem : appId ∈ conn.fwdSubs.entries.keys :=
    AList.mem_keys.mp (AList.lookup_isSome.mp (by rw [hfwd]; rfl))
  obtain ⟨b, l₁, l₂, -, hsplit, herase⟩ := List.exists_of_kerase hmem
  have hb : b = fwd := by
    have hin : (⟨appId, b⟩ : Sigma fun _ : UInt64 => FwdSub) ∈ conn.fwdSubs.entries := by
      rw [hsplit]
      exact List.mem_append_right _ List.mem_cons_self
    have hlook := AList.mem_lookup_iff.mpr hin
    rw [hfwd] at hlook
    exact (Option.some.inj hlook).symm
  subst hb
  show List.countP _ _ = List.countP _ (List.kerase appId conn.fwdSubs.entries) + _
  rw [herase, hsplit, List.countP_append, List.countP_append, List.countP_cons]
  simp only [decide_eq_true_eq, eq_comm (a := b.key)]
  omega

omit [DecidableEq κ] in
/-- What comes after the operation, and what is known of it. -/
theorem Tidy.tail {op : DispatchOp ρ} {rest : List (DispatchOp ρ)} (h : s.Tidy)
    (htodo : s.todo = op :: rest) :
    ((op.opens = true → rest = []) ∧ DispatchOp.OpensLast rest) ∧
      ∀ appId r, .subscribePeer appId r ∈ rest → .subscribePeer appId r ∈ s.todo := by
  refine ⟨?_, fun appId r hop => ?_⟩
  · have hlast := h.opensLast
    rwa [htodo] at hlast
  · rw [htodo]
    exact List.mem_cons_of_mem _ hop

omit [DecidableEq κ] in
/-- An operation that is no release is replaced by others that are none. -/
theorem Tidy.replace {op : DispatchOp ρ} {rest : List (DispatchOp ρ)} (h : s.Tidy)
    (htodo : s.todo = op :: rest) (hop : op.releases? = none)
    (hended : t.stage = .ended → t.todo = [] ∧ t.conn.fwdSubs.entries = [])
    (hfwd : t.conn.fwdSubs = s.conn.fwdSubs) (hsame : t.conn.nextAppId = s.conn.nextAppId)
    (hhub : t.peerStreams = s.peerStreams)
    (hnew : t.todo = rest ∨
      ∃ new, t.todo = new :: rest ∧ new.releases? = none ∧ new.opens = false) :
    t.Tidy ∧ HubMove s t := by
  obtain ⟨⟨-, hlast⟩, hrest⟩ := h.tail htodo
  rcases hnew with hnew | ⟨new, hnew, hreleases, hopens⟩
  · refine h.keep hfwd hsame hhub (by rw [hnew]; exact hlast) (fun key => ?_)
      (fun appId r hmem => hrest appId r (by rwa [hnew] at hmem)) hended
    simp [releasing, hnew, htodo, hop]
  · refine h.keep hfwd hsame hhub ?_ (fun key => ?_) (fun appId r hmem => ?_) hended
    · rw [hnew]
      exact ⟨by simp [hopens], hlast⟩
    · simp [releasing, hnew, htodo, hop, hreleases]
    · rw [hnew] at hmem
      rcases List.mem_cons.mp hmem with rfl | hmem
      · cases hopens
      · exact hrest appId r hmem

/-- A subscription to a peer is opened, or refused. -/
theorem Tidy.enterFwd {now : ℤ} {appId : UInt64} {r : Subscribing ρ} (h : s.Tidy)
    (htodo : s.todo = [.subscribePeer appId r])
    (hended : t.stage = .ended → t.todo = [] ∧ t.conn.fwdSubs.entries = [])
    (hr : { s with todo := [] }.runOp ops now (.subscribePeer appId r) = some t) :
    t.Tidy ∧ HubMove s t := by
  obtain ⟨hid, hnew⟩ := h.fresh appId r (by rw [htodo]; exact List.mem_cons_self)
  simp only [Socket.runOp] at hr
  split at hr
  · obtain rfl := Option.some.inj hr
    exact h.replace htodo rfl hended rfl rfl rfl (.inr ⟨_, rfl, rfl, rfl⟩)
  · rename_i upstream next hub hsub
    obtain rfl := Option.some.inj hr
    obtain ⟨senders, -, hsub⟩ := Option.bind_eq_some_iff.mp hsub
    refine ⟨⟨trivial, by simp, fun appId' hmem => ?_, hended⟩,
      .join r.first r.topic senders (upstream, next) hsub fun key => ?_⟩
    · rcases (AList.mem_insert _).mp hmem with rfl | hmem
      · exact hid
      · exact h.ids appId' hmem
    · have hcount := @forwarded_insert s.conn appId ⟨r.first, r.topic, s.peers.length⟩ hnew key
      simp only [claims, forwarded, releasing, PeerStreamHub.addOne, htodo, hcount]
      by_cases hkey : key = (r.first, r.topic) <;> simp [DispatchOp.releases?, FwdSub.key, hkey]

/-- The entry of an id is taken out, and its release is now under way. -/
theorem Tidy.dropFwd {now : ℤ} {appId : UInt64} {rest : List (DispatchOp ρ)} (h : s.Tidy)
    (htodo : s.todo = .removeFwd appId :: rest)
    (hended : t.stage = .ended → t.todo = [] ∧ t.conn.fwdSubs.entries = [])
    (hr : { s with todo := rest }.runOp ops now (.removeFwd appId) = some t) :
    t.Tidy ∧ HubMove s t := by
  obtain ⟨⟨-, hlast⟩, hrest⟩ := h.tail htodo
  simp only [Socket.runOp] at hr
  split at hr
  · obtain rfl := Option.some.inj hr
    -- the socket's own entry goes, and with it the streams it holds
    exact h.replace htodo rfl hended rfl rfl rfl (.inl rfl)
  · rename_i fwd hfwd
    obtain rfl := Option.some.inj hr
    refine ⟨⟨⟨by simp [DispatchOp.opens], hlast⟩, fun appId' r hmem => ?_,
      fun appId' hmem => h.ids appId' (AList.mem_erase.mp hmem).2, hended⟩, .keep rfl fun key => ?_⟩
    · rcases List.mem_cons.mp hmem with heq | hmem
      · cases heq
      · obtain ⟨hid, hnot⟩ := h.fresh appId' r (hrest appId' r hmem)
        exact ⟨hid, fun hmem => hnot (AList.mem_erase.mp hmem).2⟩
    · have hcount : s.forwarded key = _ := forwarded_erase hfwd key
      rw [claims, claims, hcount, releasing, releasing, htodo]
      -- the entry counted for the key it had, and its release is still to be done
      by_cases hkey : key = fwd.key
      · subst hkey
        simp [forwarded, abortPeer, DispatchOp.releases?, FwdSub.key]
        omega
      · have hne : (fwd.peer, fwd.topic) ≠ key := Ne.symm hkey
        simp [forwarded, abortPeer, DispatchOp.releases?, hkey, hne]

/-- An operation of the dispatcher keeps the connection tidy and moves the hub with it. -/
theorem Tidy.runOp {now : ℤ} {op : DispatchOp ρ} {rest : List (DispatchOp ρ)} (h : s.Tidy)
    (hnext : s.conn.nextAppId.toNat + 1 < 2 ^ 64) (htodo : s.todo = op :: rest)
    (hr : { s with todo := rest }.runOp ops now op = some t) : t.Tidy ∧ HubMove s t := by
  -- an ended socket has nothing left to run
  have hstage : s.stage ≠ .ended := fun he => by
    have hnil := (h.ended he).1
    rw [htodo] at hnil
    cases hnil
  have hended : t.stage = .ended → t.todo = [] ∧ t.conn.fwdSubs.entries = [] := fun he => by
    rcases stage_runOp hr with heq | heq <;> rw [heq] at he
    · exact absurd he hstage
    · cases he
  obtain ⟨⟨hlast, hlastRest⟩, hrest⟩ := h.tail htodo
  -- only a new entry joins the hub, and only `unsubscribe_peer` leaves it
  cases op with
  | reply r =>
    simp only [Socket.runOp] at hr
    split at hr <;> obtain rfl := Option.some.inj hr
    · exact h.replace htodo rfl hended rfl rfl rfl (.inl rfl)
    · exact h.replace htodo rfl hended rfl rfl rfl (.inr ⟨_, rfl, rfl, rfl⟩)
    · exact h.replace htodo rfl hended rfl rfl rfl (.inl rfl)
  | fallback msg =>
    simp only [Socket.runOp] at hr
    split at hr <;> obtain rfl := Option.some.inj hr <;>
      exact h.replace htodo rfl hended rfl rfl rfl (.inl rfl)
  | peerContext r =>
    -- a peer context opens last, so nothing waits behind it
    obtain rfl := hlast rfl
    have hrel : ∀ key, s.releasing key = 0 := by simp [releasing, htodo, DispatchOp.releases?]
    simp only [Socket.runOp] at hr
    split at hr
    · split at hr <;> obtain rfl := Option.some.inj hr
      · exact h.accept hnext hstage hrel r
      · exact h.replace htodo rfl hended rfl rfl rfl (.inr ⟨_, rfl, rfl, rfl⟩)
    · obtain rfl := Option.some.inj hr
      exact h.accept hnext hstage hrel r
  | subscribePeer appId r =>
    obtain rfl := hlast rfl
    exact h.enterFwd htodo hended hr
  | subscribeLocal appId r =>
    obtain rfl := hlast rfl
    obtain ⟨bus, -, ht⟩ := Option.map_eq_some_iff.mp hr
    split at ht <;> subst ht <;> exact h.replace htodo rfl hended rfl rfl rfl (.inl rfl)
  | removeLocal appId =>
    simp only [Socket.runOp] at hr
    split at hr
    · obtain rfl := Option.some.inj hr
      exact h.replace htodo rfl hended rfl rfl rfl (.inl rfl)
    · obtain ⟨bus, -, rfl⟩ := Option.map_eq_some_iff.mp hr
      exact h.replace htodo rfl hended rfl rfl rfl (.inl rfl)
  | removeFwd appId => exact h.dropFwd htodo hended hr
  | unsubscribePeer peer topic =>
    obtain rfl := Option.some.inj hr
    refine ⟨⟨hlastRest, fun appId r hmem => h.fresh appId r (hrest appId r hmem), h.ids, hended⟩,
      .leave peer topic rfl fun key => ?_⟩
    simp [claims, forwarded, releasing, htodo, List.countP_cons, DispatchOp.releases?,
      PeerStreamHub.addOne, eq_comm, Nat.add_assoc]

omit [DecidableEq κ] in
/-- The dispatcher takes a message, or an entry to drain: it neither releases nor subscribes yet. -/
theorem Tidy.take (h : s.Tidy) (htodo : s.todo = []) (hconn : t.conn = s.conn)
    (hhub : t.peerStreams = s.peerStreams) (hstage : t.stage ≠ .ended)
    (hlast : DispatchOp.OpensLast t.todo)
    (hnew : ∀ op ∈ t.todo, op.releases? = none ∧ ∀ appId r, op ≠ .subscribePeer appId r) :
    t.Tidy ∧ HubMove s t := by
  refine h.keep (by rw [hconn]) (by rw [hconn]) hhub hlast (fun key => ?_)
    (fun appId r hop => absurd rfl ((hnew _ hop).2 appId r)) fun he => absurd he hstage
  have hzero : t.releasing key = 0 := by
    rw [releasing, List.countP_eq_zero]
    intro op hop
    simp [(hnew op hop).1]
  rw [hzero, releasing, htodo, List.countP_nil]

omit [DecidableEq κ] in
/-- A text frame keeps the connection tidy and moves the hub with it. -/
theorem Tidy.onText (h : s.Tidy) (htodo : s.todo = []) (hstage : s.stage = .loop)
    (hnext : s.conn.nextAppId.toNat + 1 < 2 ^ 64) (text : String) :
    (s.onText ops text).Tidy ∧ HubMove s (s.onText ops text) := by
  -- the list that a message leaves to be done releases nothing
  have htake : ∀ {todo : List (DispatchOp ρ)}, DispatchOp.OpensLast todo →
      (∀ op ∈ todo, op.releases? = none ∧ ∀ appId r, op ≠ .subscribePeer appId r) →
      { s with todo }.Tidy ∧ HubMove s { s with todo } :=
    fun hlast hnew => h.take htodo rfl rfl (by rw [hstage]; simp) hlast hnew
  unfold Socket.onText
  split
  · rename_i topic limit outboundCapacity _
    unfold onSubscribe
    split
    · exact htake (by simp [DispatchOp.OpensLast]) (by simp [DispatchOp.releases?])
    · dsimp only
      split
      · exact htake (by simp [DispatchOp.OpensLast]) (by simp [DispatchOp.releases?])
      · split
        · exact htake (by simp [DispatchOp.OpensLast]) (by simp [DispatchOp.releases?])
        · -- a subscription to a peer is accepted on the spot
          have hrel : ∀ key, s.releasing key = 0 := by simp [releasing, htodo]
          have hsame : { s with todo := [] } = s := by rw [← htodo]
          have hacc := h.accept hnext (by rw [hstage]; simp) hrel
          rw [hsame] at hacc
          exact hacc _
  · exact htake (by simp [DispatchOp.OpensLast, DispatchOp.opens]) (by simp [DispatchOp.releases?])
  · exact htake (by simp [DispatchOp.OpensLast]) (by simp [DispatchOp.releases?])
  · exact htake (by simp [DispatchOp.OpensLast]) (by simp [DispatchOp.releases?])

/-- **What a step of a connection does to the hub.** -/
theorem Tidy.step {a : SocketAction ρ} (h : s.Tidy) (hown : a.own = true)
    (hnext : s.conn.nextAppId.toNat + 1 < 2 ^ 64) (hs : Socket.step ops s a = some t) :
    t.Tidy ∧ HubMove s t := by
  -- the tasks beside the dispatcher touch none of this
  have hsame : t.conn = s.conn → t.stage = s.stage → t.todo = s.todo →
      t.peerStreams = s.peerStreams → t.Tidy ∧ HubMove s t := by
    intro hconn hstage htodo hhub
    refine h.keep (by rw [hconn]) (by rw [hconn]) hhub (by rw [htodo]; exact h.opensLast)
      (fun key => by rw [releasing, releasing, htodo]) (fun _ _ hop => by rwa [htodo] at hop) ?_
    rw [hstage, htodo, hconn]
    exact h.ended
  cases a with
  | bus a => cases hown
  | hub a => cases hown
  | connected senders => cases hown
  | inbound m =>
    simp only [Socket.step] at hs
    split at hs
    · rename_i hidle
      have htodo := List.isEmpty_iff.mp hidle.2
      split at hs <;> obtain rfl := Option.some.inj hs
      · exact h.onText htodo hidle.1 hnext _
      · exact hsame rfl rfl rfl rfl
      · exact h.keep rfl rfl rfl h.opensLast (fun _ => rfl) (fun _ _ hop => hop) (by simp)
    · cases hs
  | forwarderEvent =>
    simp only [Socket.step] at hs
    split at hs
    · rename_i hidle
      have htodo := List.isEmpty_iff.mp hidle.2
      split at hs
      · cases hs
      · rename_i ev rest _
        obtain rfl := Option.some.inj hs
        cases ev <;> exact h.take htodo rfl rfl (by simp [onForwarderEvent, hidle.1])
          (by simp [onForwarderEvent, DispatchOp.OpensLast, DispatchOp.opens])
          (by simp [onForwarderEvent, DispatchOp.releases?])
    · cases hs
  | dispatch now =>
    simp only [Socket.step, dispatch] at hs
    split at hs
    · rename_i op rest htodo
      exact h.runOp hnext htodo hs
    · rename_i htodo
      split at hs
      · obtain rfl := Option.some.inj hs
        exact h.keep rfl rfl rfl h.opensLast (fun _ => rfl) (fun _ _ hop => hop) (by simp)
      · split at hs
        · -- the maps are empty when the task ends
          rename_i hempty
          obtain rfl := Option.some.inj hs
          refine h.keep rfl rfl rfl h.opensLast (fun _ => rfl) (fun _ _ hop => hop) fun _ => ?_
          refine ⟨htodo, List.eq_nil_of_length_eq_zero ?_⟩
          simp only [ConnState.subscriptions] at hempty
          show s.conn.fwdSubs.entries.length = 0
          omega
        · cases hs
      · cases hs
  | drain appId =>
    simp only [Socket.step, drain] at hs
    split at hs
    · rename_i hidle
      have htodo := List.isEmpty_iff.mp hidle.2
      split at hs
      · obtain rfl := Option.some.inj hs
        exact h.take htodo rfl rfl (by simp [hidle.1]) (by simp [DispatchOp.OpensLast])
          (by simp [DispatchOp.releases?])
      · split at hs
        · obtain rfl := Option.some.inj hs
          exact h.take htodo rfl rfl (by simp [hidle.1]) (by simp [DispatchOp.OpensLast])
            (by simp [DispatchOp.releases?])
        · cases hs
    · cases hs
  | pollLocal k now =>
    obtain ⟨hconn, hstage, htodo, -, -, hhub, -⟩ := frame_pollLocal hs
    exact hsame hconn hstage htodo hhub
  | pollPeer k now =>
    obtain ⟨hconn, hstage, htodo, -⟩ := frame_pollPeer hs
    refine hsame hconn hstage htodo ?_
    obtain ⟨f, -, hpolled⟩ := peerPolled_of_pollPeer hs
    cases hpolled <;> rename_i heq <;> subst heq <;> rfl
  | cancelPeer k =>
    obtain ⟨f, -, -, rfl⟩ := cancelPeer_cases hs
    exact hsame rfl rfl rfl rfl
  | write sent =>
    obtain ⟨happ, hconn, hstage, htodo, -⟩ := frame_write hs
    exact hsame hconn hstage htodo (by rw [happ])

end Socket

/-! ### The connections of a server -/

namespace Sockets

variable {ρ : Type} {s t : Sockets ρ}

/-- The task of the connection's dispatcher has not ended. -/
def live (c : Socket ρ) : Bool := c.stage != .ended && c.stage != .panicked

/-- The entries of `fwd_subs` for a key, over all live connections. -/
def subscribers (s : Sockets ρ) (key : String × String) : ℕ :=
  ((s.conns.filter live).map fun c => c.forwarded key).sum

/-- The reference counts are exact. -/
structure CountsExact (s : Sockets ρ) : Prop where
  /-- For a key that no dispatcher is about to release, and that none held when it panicked, the
  hub counts the entries of the connections. -/
  refcount : ∀ peer topic, (∀ c ∈ s.conns, .unsubscribePeer peer topic ∉ c.todo) →
    (∀ c ∈ s.conns, c.stage = .panicked → c.forwarded (peer, topic) = 0) →
    s.app.peerStreams.refcount peer topic =
      if s.subscribers (peer, topic) = 0 then none else some (s.subscribers (peer, topic))
  /-- What a dispatcher is about to release is counted. -/
  positive : ∀ c ∈ s.conns, ∀ peer topic, .unsubscribePeer peer topic ∈ c.todo →
    ∃ n, s.app.peerStreams.refcount peer topic = some (n + 1)
  /-- A topic of a peer has at most one upstream task that was not aborted. -/
  task : ∀ (k k' : ℕ) (u u' : Upstream), s.app.peerStreams.upstreams[k]? = some u →
    s.app.peerStreams.upstreams[k']? = some u' → u.aborted = false → u'.aborted = false →
    u.peer = u'.peer → u.topic = u'.topic → k = k'

/-- The connection that takes the step has not used up its ids: the next one is not the last. -/
def NoWrap (s : Sockets ρ) : SocketsAction ρ → Bool
  | .conn i _ => s.conns[i]?.all fun c => c.conn.nextAppId.toNat + 1 < 2 ^ 64
  | _ => true

/-- The hub counts what the connections hold. -/
structure RefcountInv (s : Sockets ρ) : Prop where
  counts : s.app.peerStreams.Counts fun key => (s.conns.map fun c => c.claims key).sum
  tidy : ∀ c ∈ s.conns, c.Tidy

/-- What the connections claim of a topic is what the live ones forward, where none is in between.
-/
theorem claims_eq_forwarded {conns : List (Socket ρ)} {key : String × String}
    (htidy : ∀ c ∈ conns, c.Tidy)
    (hpanic : ∀ c ∈ conns, c.stage = .panicked → c.forwarded key = 0)
    (hrel : ∀ c ∈ conns, c.releasing key = 0) : (conns.map fun c => c.claims key).sum =
      ((conns.filter live).map fun c => c.forwarded key).sum := by
  -- on the connections: a live one holds what its table lists
  induction conns with
  | nil => rfl
  | cons c conns ih =>
    have ih := ih (fun c' hc' => htidy c' (List.mem_cons_of_mem _ hc'))
      (fun c' hc' => hpanic c' (List.mem_cons_of_mem _ hc'))
      fun c' hc' => hrel c' (List.mem_cons_of_mem _ hc')
    have hzero := hrel c List.mem_cons_self
    have hclaims : c.claims key = c.forwarded key := by rw [Socket.claims, hzero, Nat.add_zero]
    rw [List.map_cons, List.sum_cons, hclaims, ih]
    by_cases hlive : live c = true
    · rw [List.filter_cons_of_pos hlive, List.map_cons, List.sum_cons]
    · -- a connection that is gone holds nothing of the key
      have hgone : c.stage = .ended ∨ c.stage = .panicked := by
        simp only [live, Bool.and_eq_true, bne_iff_ne, not_and_or, not_not] at hlive
        exact hlive
      have hnone : c.forwarded key = 0 := by
        rcases hgone with hended | hpanicked
        · rw [Socket.forwarded, ((htidy c List.mem_cons_self).ended hended).2, List.countP_nil]
        · exact hpanic c List.mem_cons_self hpanicked
      rw [List.filter_cons_of_neg hlive, hnone, Nat.zero_add]

/-- What the invariant says where no release is under way is that the counts are exact. -/
theorem RefcountInv.countsExact (h : s.RefcountInv) : s.CountsExact where
  refcount peer topic hnone hpanic := by
    -- the condition: no connection has a release for the topic pending
    have hrel : ∀ c ∈ s.conns, c.releasing (peer, topic) = 0 := by
      intro c hc
      rw [Socket.releasing, List.countP_eq_zero]
      intro op hop hrel
      refine hnone c hc ?_
      unfold DispatchOp.releases? at hrel
      split at hrel
      · obtain ⟨rfl, rfl⟩ : _ = peer ∧ _ = topic := by simpa using hrel
        exact hop
      · simp at hrel
    rw [h.counts.refcount, subscribers, claims_eq_forwarded h.tidy hpanic hrel]
  positive c hc peer topic hop := by
    -- a pending release is a claim, so the count is not zero
    have hrel : 0 < c.releasing (peer, topic) :=
      List.countP_pos_iff.mpr ⟨_, hop, by simp [DispatchOp.releases?]⟩
    have hle : c.claims (peer, topic) ≤ (s.conns.map fun c => c.claims (peer, topic)).sum :=
      List.le_sum_of_mem (List.mem_map_of_mem hc)
    have hpos : 0 < (s.conns.map fun c => c.claims (peer, topic)).sum := by
      rw [Socket.claims] at hle
      omega
    obtain ⟨n, hn⟩ := Nat.exists_eq_succ_of_ne_zero (Nat.ne_of_gt hpos)
    exact ⟨n, by rw [h.counts.refcount, hn]; rfl⟩
  -- two live tasks for one key would be one entry of the hub
  task k k' u u' hu hu' hlive hlive' hpeer htopic := by
    obtain ⟨e, he, rfl⟩ := h.counts.sound.listed k u hu hlive
    obtain ⟨e', he', rfl⟩ := h.counts.sound.listed k' u' hu' hlive'
    rw [hpeer, htopic, he'] at he
    cases he
    rfl

theorem sum_claims_set {i : ℕ} {c : Socket ρ} (hc : s.conns[i]? = some c) (c' : Socket ρ)
    (key : String × String) : ((s.conns.set i c').map fun c => c.claims key).sum + c.claims key =
      (s.conns.map fun c => c.claims key).sum + c'.claims key :=
  sum_map_set (fun c => c.claims key) hc c'

/-- A connection moves, and what the hub counts with it. -/
theorem RefcountInv.move {i : ℕ} {c c' : Socket ρ} (h : s.RefcountInv) (hc : s.conns[i]? = some c)
    (htidy : c'.Tidy) (hm : Socket.HubMove { c with toAppState := s.app } c') :
    ({ app := c'.toAppState, conns := s.conns.set i c' } : Sockets ρ).RefcountInv := by
  refine ⟨?_, fun d hd => ?_⟩
  · -- the sum over the connections moves with the one that stepped
    cases hm with
    | keep hub hclaims =>
      show c'.peerStreams.Counts _
      rw [hub]
      refine h.counts.congr fun key => ?_
      have hsum := sum_claims_set hc c' key
      have hsame : c'.claims key = c.claims key := hclaims key
      dsimp only
      omega
    | join peer topic senders rx hub hclaims =>
      refine (h.counts.subscribe hub).congr fun key => ?_
      have hsum := sum_claims_set hc c' key
      have hmore : c'.claims key = PeerStreamHub.addOne (peer, topic) c.claims key := hclaims key
      rw [PeerStreamHub.addOne] at hmore ⊢
      dsimp only
      omega
    | leave peer topic hub hclaims =>
      show c'.peerStreams.Counts _
      rw [hub]
      refine (h.counts.congr fun key => ?_).unsubscribe
      have hsum := sum_claims_set hc c' key
      have hless : c.claims key = PeerStreamHub.addOne (peer, topic) c'.claims key := hclaims key
      rw [PeerStreamHub.addOne] at hless ⊢
      dsimp only
      omega
  · rcases List.mem_or_eq_of_mem_set hd with hd | rfl
    · exact h.tidy d hd
    · exact htidy

section Step

variable {κ : Type} [DecidableEq κ] {ops : SocketOps ρ κ}

/-- The hub moves on its own: the upstream tasks neither subscribe nor unsubscribe. -/
theorem RefcountInv.withHub {hub : PeerStreamHub} (h : s.RefcountInv) (hs : hub.Sound)
    (hinner : hub.inner = s.app.peerStreams.inner) : (s.withHub hub).RefcountInv where
  counts := h.counts.of_inner_eq hs hinner
  tidy := h.tidy

/-- **One step keeps the counts.** -/
theorem RefcountInv.step {a : SocketsAction ρ} (h : s.RefcountInv) (hwrap : s.NoWrap a = true)
    (hs : Sockets.step ops s a = some t) : t.RefcountInv := by
  cases a with
  | upgrade =>
    obtain rfl := Option.some.inj hs
    refine ⟨h.counts.congr fun key => ?_, fun c hc => ?_⟩
    · -- the new connection holds nothing
      have hnone : Socket.claims ({ s.app with } : Socket ρ) key = 0 := rfl
      rw [List.map_append, List.sum_append, List.map_singleton, List.sum_singleton, hnone,
        Nat.add_zero]
    · rcases List.mem_append.mp hc with hc | hc
      · exact h.tidy c hc
      · obtain rfl := List.mem_singleton.mp hc
        exact Socket.tidy_new s.app
  | conn i a =>
    simp only [Sockets.step] at hs
    split at hs
    · rename_i hown
      obtain ⟨c, hc, hs⟩ := Option.bind_eq_some_iff.mp hs
      obtain ⟨c', hstep, rfl⟩ := Option.map_eq_some_iff.mp hs
      -- the ids of the connection that steps do not wrap
      have hnext : c.conn.nextAppId.toNat + 1 < 2 ^ 64 := by simpa [NoWrap, hc] using hwrap
      have htidy := (h.tidy c (List.mem_of_getElem? hc)).withApp s.app
      obtain ⟨htidy', hmove⟩ := htidy.step hown hnext hstep
      exact h.move hc htidy' hmove
    · cases hs
  | bus a =>
    simp only [Sockets.step] at hs
    split at hs
    · obtain ⟨bus, -, rfl⟩ := Option.map_eq_some_iff.mp hs
      exact ⟨h.counts, h.tidy⟩
    · cases hs
  | line k value =>
    obtain ⟨hub, hhub, rfl⟩ := Option.map_eq_some_iff.mp hs
    exact h.withHub (h.counts.sound.line hhub) (PeerStreamHub.inner_line hhub)
  | ended k =>
    obtain ⟨hub, hhub, rfl⟩ := Option.map_eq_some_iff.mp hs
    exact h.withHub (h.counts.sound.ended hhub) (PeerStreamHub.inner_ended hhub)
  | connected senders =>
    simp only [Sockets.step] at hs
    split at hs
    · obtain rfl := Option.some.inj hs
      exact ⟨h.counts, h.tidy⟩
    · cases hs

/-- **The reference counts are exact** in every state of a run in which no connection uses up its
ids. -/
theorem countsExact_of_noWrap (ops : SocketOps ρ κ) (app : AppState ρ)
    (happ : app.peerStreams = {}) (as : List (SocketsAction ρ))
    (h : (machine ops app).StepsMeet (fun s a => s.NoWrap a = true) (machine ops app).init as) :
    (machine ops app).StatesMeet CountsExact (machine ops app).init as := by
  have hinit : (machine ops app).init.RefcountInv := by
    refine ⟨?_, fun c hc => absurd hc List.not_mem_nil⟩
    show app.peerStreams.Counts _
    rw [happ]
    exact PeerStreamHub.counts_empty
  have hall : (machine ops app).StatesMeet RefcountInv (machine ops app).init as :=
    Machine.statesMeet_of_stepsMeet (fun s a t hs hG hst => hs.step hG hst) hinit h
  exact hall.mono fun s hs => hs.countsExact

/-! ### Runs of a server with one peer -/

/-- Clients that subscribe to a topic of the peer `hub` or of an unknown peer, or unsubscribe. -/
def sharedOps : SocketOps Empty Unit where
  topics := .plain
  extractKey _ _ := none
  serializedSize _ := 0
  parseInbound text :=
    if text = Socket.subscribeText "hub/led" then .ok (.subscribe "hub/led" none none)
    else if text = Socket.subscribeText "attic/led" then .ok (.subscribe "attic/led" none none)
    else if text = Socket.unsubscribeText then .ok (.unsubscribe 1)
    else .error "expected value at line 1 column 1"
  rfc3339 _ := none

/-- A server with the peer `hub` connected. -/
def withPeer : AppState Empty where
  name := "gateway"
  bus := (Bus.machine sharedOps.bus DEFAULT_REPLAY_CAPACITY).init
  peerSenders := some
    { peerContext := fun _ => none, sender := fun name => if name = "hub" then some 0 else none }
  peerStreams := {}

/-- Client `i` subscribes to the topic of the peer. -/
def joins (i : ℕ) : List (SocketsAction Empty) :=
  [.conn i (.inbound (.text (Socket.subscribeText "hub/led"))), .conn i (.dispatch 0),
    .conn i (.dispatch 0), .conn i (.dispatch 0)]

/-- Two clients share the stream; one unsubscribes twice, the other goes away. -/
def shared : List (SocketsAction Empty) :=
  [.upgrade, .upgrade] ++ joins 0 ++ joins 1 ++
    [.conn 0 (.inbound (.text Socket.unsubscribeText))] ++
    List.replicate 4 (.conn 0 (.dispatch 0)) ++
    [.conn 0 (.inbound (.text Socket.unsubscribeText))] ++
    List.replicate 3 (.conn 0 (.dispatch 0)) ++
    [.conn 1 (.inbound .close), .conn 1 (.write true), .conn 1 (.write true), .conn 1 (.write false),
      .conn 1 (.write false), .conn 1 (.dispatch 0), .conn 1 (.drain 1), .conn 1 (.dispatch 0),
      .conn 1 (.dispatch 0), .conn 1 (.dispatch 0)]

/-- Two connections on one topic, both gone: the hub counts it no more. -/
theorem countsExact_shared :
    (∃ s, (machine sharedOps withPeer).run (machine sharedOps withPeer).init shared = some s ∧
      s.app.peerStreams.refcount "hub" "hub/led" = none) ∧
    (machine sharedOps withPeer).StatesMeet CountsExact (machine sharedOps withPeer).init
      shared := by
  have hrun : ((machine sharedOps withPeer).run (machine sharedOps withPeer).init shared).any
      (fun s => decide (s.app.peerStreams.refcount "hub" "hub/led" = none)) = true := by
    decide
  have hsteps : (machine sharedOps withPeer).StepsMeet (fun s a => s.NoWrap a = true)
      (machine sharedOps withPeer).init shared := by decide
  obtain ⟨s, hs, hnone⟩ := (Option.any_eq_true _ _).mp hrun
  exact ⟨⟨s, hs, of_decide_eq_true hnone⟩,
    countsExact_of_noWrap sharedOps withPeer rfl shared hsteps⟩

end Step

end Sockets

/-! ### The counter of ids wraps around -/

namespace Socket

variable {ρ κ : Type} [DecidableEq κ] {ops : SocketOps ρ κ} {c : Socket ρ} {text topic : String}

/-- The connection with another id to hand out next. -/
def renumber (c : Socket ρ) (nextAppId : UInt64) : Socket ρ :=
  { c with conn := { c.conn with nextAppId } }

/-- The dispatcher of a connection that nobody listens to any more, for a client that asks for a
topic of an unknown peer. -/
structure Wasting (ops : SocketOps ρ κ) (c : Socket ρ) (text topic : String) : Prop where
  stage : c.stage = .loop
  todo : c.todo = []
  out : c.out.rxAlive = false
  room : c.conn.subscriptions < WS_MAX_SUBSCRIPTIONS_PER_CONN
  parsed : ops.parseInbound text = .ok (.subscribe topic none none)
  accepted : (TopicPattern.parse ops.topics topic).isOk = true
  peerTopic : ((Str.split '/' topic).headD "" != c.name &&
    !((Str.split '/' topic).headD "").isEmpty && c.peerSenders.isSome) = true
  context : (c.peerSenders.bind fun senders =>
    senders.peerContext ((Str.split '/' topic).headD "")) = none
  unknown : (c.peerSenders.bind fun senders =>
    c.peerStreams.subscribe ((Str.split '/' topic).headD "") topic senders) = none

omit [DecidableEq κ] in
theorem Wasting.renumber (h : Wasting ops c text topic) (n : UInt64) :
    Wasting ops (c.renumber n) text topic :=
  ⟨h.stage, h.todo, h.out, h.room, h.parsed, h.accepted, h.peerTopic, h.context, h.unknown⟩

/-- The message, and what the dispatcher does for it. -/
def waste (text : String) : List (SocketAction ρ) :=
  [.inbound (.text text), .dispatch 0, .dispatch 0, .dispatch 0, .dispatch 0]

theorem dispatch_reply_of_closed {rest : List (DispatchOp ρ)} {r : Reply} {now : ℤ}
    (h : c.out.rxAlive = false) (htodo : c.todo = .reply r :: rest) :
    step ops c (.dispatch now) = some { c with todo := rest } := by
  have hclosed : c.out.trySend (r.message now) = .error .closed := by simp [Mpsc.trySend, h]
  simp only [step, dispatch, htodo, runOp, hclosed]

/-- The client's message uses up an id, and nothing else changes. -/
theorem Wasting.run_waste (h : Wasting ops c text topic) (app : AppState ρ) :
    (machine ops app).run c (waste text) = some (c.renumber (c.conn.nextAppId + 1)) := by
  obtain ⟨pattern, hpattern⟩ : ∃ pattern, TopicPattern.parse ops.topics topic = .ok pattern := by
    have hok := h.accepted
    cases hparse : TopicPattern.parse ops.topics topic with
    | error e => simp [hparse, Except.isOk, Except.toBool] at hok
    | ok pattern => exact ⟨pattern, rfl⟩
  let r : Subscribing ρ :=
    { topic, first := (Str.split '/' topic).headD "", isPeerTopic := true, pattern,
      limit := none, outboundCapacity := none }
  have htake : step ops c (.inbound (.text text)) = some { c with todo := [.peerContext r] } := by
    have hidle : c.stage = .loop ∧ c.todo.isEmpty = true := ⟨h.stage, by rw [h.todo]; rfl⟩
    simp only [step, if_pos hidle, onText, h.parsed, onSubscribe, if_neg (not_le.mpr h.room),
      h.peerTopic, hpattern, if_true, r]
  have haccept : step ops { c with todo := [.peerContext r] } (.dispatch 0) =
      some ({ c with todo := [] }.accept r) := by
    simp only [step, dispatch, runOp, r, h.context]
  -- the replies go nowhere
  have hack : step ops ({ c with todo := [] }.accept r) (.dispatch 0) =
      some { c.renumber (c.conn.nextAppId + 1) with
        todo := [.subscribePeer c.conn.nextAppId r] } :=
    dispatch_reply_of_closed h.out rfl
  have hrefuse : step ops { c.renumber (c.conn.nextAppId + 1) with
      todo := [.subscribePeer c.conn.nextAppId r] } (.dispatch 0) =
      some { c.renumber (c.conn.nextAppId + 1) with
        todo := [.reply (.error 400 (some topic) (some ("unknown peer `" ++ r.first ++ "`"))
          (some c.conn.nextAppId))] } := by
    simp only [step, dispatch, runOp, r, (h.renumber (c.conn.nextAppId + 1)).unknown]
  have hlost : step ops { c.renumber (c.conn.nextAppId + 1) with
      todo := [.reply (.error 400 (some topic) (some ("unknown peer `" ++ r.first ++ "`"))
        (some c.conn.nextAppId))] } (.dispatch 0) =
      some { c.renumber (c.conn.nextAppId + 1) with todo := [] } :=
    dispatch_reply_of_closed h.out rfl
  have hdone : { c.renumber (c.conn.nextAppId + 1) with todo := [] } =
      c.renumber (c.conn.nextAppId + 1) := by
    rw [Socket.renumber, ← h.todo]
  rw [hdone] at hlost
  exact Machine.run_cons.mpr ⟨_, htake, Machine.run_cons.mpr ⟨_, haccept,
    Machine.run_cons.mpr ⟨_, hack, Machine.run_cons.mpr ⟨_, hrefuse,
    Machine.run_cons.mpr ⟨_, hlost, rfl⟩⟩⟩⟩⟩

/-- Any number of such messages. -/
theorem Wasting.leads (h : Wasting ops c text topic) (app : AppState ρ) (n : ℕ) :
    ∃ as, (machine ops app).run c as = some (c.renumber (c.conn.nextAppId + UInt64.ofNat n)) ∧
      ∀ a ∈ as, a.own = true := by
  induction n with
  | zero => exact ⟨[], by simp [Machine.run, Socket.renumber], by simp⟩
  | succ n ih =>
    obtain ⟨as, hrun, hown⟩ := ih
    refine ⟨as ++ waste text, ?_, fun a ha => ?_⟩
    · rw [Machine.run_append hrun, (h.renumber _).run_waste, UInt64.ofNat_add, ← UInt64.add_assoc]
      rfl
    · rcases List.mem_append.mp ha with ha | ha
      · exact hown a ha
      · simp only [waste, List.mem_cons, List.not_mem_nil, or_false] at ha
        rcases ha with rfl | rfl | rfl | rfl | rfl <;> rfl

end Socket

namespace Sockets

variable {ρ κ : Type} [DecidableEq κ] {ops : SocketOps ρ κ}

/-- A server with one connection. -/
def alone (c : Socket ρ) : Sockets ρ := { app := c.toAppState, conns := [c] }

/-- An only connection runs as it does by itself. -/
theorem run_alone {app : AppState ρ} {c c' : Socket ρ} {as : List (SocketAction ρ)}
    (hown : ∀ a ∈ as, a.own = true) (h : (Socket.machine ops app).run c as = some c') :
    (machine ops app).run (alone c) (as.map (.conn 0)) = some (alone c') := by
  induction as generalizing c with
  | nil =>
    obtain rfl := Option.some.inj h
    rfl
  | cons a as ih =>
    obtain ⟨d, hd, hrun⟩ := Machine.run_cons.mp h
    have hrest := ih (fun b hb => hown b (List.mem_cons_of_mem _ hb)) hrun
    refine Machine.run_cons.mpr ⟨alone d, ?_, hrest⟩
    have hstep : Socket.step ops c a = some d := hd
    show step ops (alone c) (.conn 0 a) = _
    rw [step, if_pos (hown a List.mem_cons_self)]
    show (Option.map _ (Socket.step ops c a)) = _
    rw [hstep]
    rfl

/-- The only client subscribes to the topic of the peer, and its socket takes no message. -/
def deafened : List (SocketAction Empty) :=
  [.inbound (.text (Socket.subscribeText "hub/led")), .dispatch 0, .dispatch 0, .dispatch 0,
    .write true, .write true, .write false, .write false]

def rejoins : List (SocketAction Empty) :=
  [.inbound (.text (Socket.subscribeText "hub/led")), .dispatch 0, .dispatch 0, .dispatch 0]

/-- After `2 ^ 64 - 1` subscriptions to an unknown peer the next id is `1` again. -/
theorem exists_wrap {P : Socket Empty → Bool}
    (h : ((Socket.machine sharedOps withPeer).run (Socket.machine sharedOps withPeer).init
      deafened).any P = true) :
    ∃ c as, (Socket.machine sharedOps withPeer).run (Socket.machine sharedOps withPeer).init
        deafened = some c ∧
      (Socket.machine sharedOps withPeer).run c as = some (c.renumber 1) ∧
      (∀ a ∈ as, a.own = true) ∧ P c = true := by
  -- the wasted socket: nobody reads it, and each subscription to an unknown peer takes an id
  have hrun : ((Socket.machine sharedOps withPeer).run (Socket.machine sharedOps withPeer).init
      deafened).any (fun c => decide (c.stage = .loop) && c.todo.isEmpty && !c.out.rxAlive &&
        decide (c.conn.nextAppId = 2) &&
        decide (c.conn.subscriptions < WS_MAX_SUBSCRIPTIONS_PER_CONN) &&
        ((Str.split '/' "attic/led").headD "" != c.name &&
          !((Str.split '/' "attic/led").headD "").isEmpty && c.peerSenders.isSome) &&
        (c.peerSenders.bind fun senders =>
          senders.peerContext ((Str.split '/' "attic/led").headD "")).isNone &&
        (c.peerSenders.bind fun senders => c.peerStreams.subscribe
          ((Str.split '/' "attic/led").headD "") "attic/led" senders).isNone) = true := by
    decide
  obtain ⟨c, hc, hcheck⟩ := (Option.any_eq_true _ _).mp hrun
  obtain ⟨d, hd, hP⟩ := (Option.any_eq_true _ _).mp h
  obtain rfl := Option.some.inj (hc.symm.trans hd)
  simp only [Bool.and_eq_true, decide_eq_true_eq, Option.isNone_iff_eq_none, List.isEmpty_iff,
    Bool.not_eq_true'] at hcheck
  obtain ⟨⟨⟨⟨⟨⟨⟨hstage, htodo⟩, hout⟩, hnext⟩, hroom⟩, hpeer⟩, hcontext⟩, hunknown⟩ := hcheck
  have hwasting : Socket.Wasting sharedOps c (Socket.subscribeText "attic/led") "attic/led" :=
    ⟨hstage, htodo, hout, hroom, by decide, by decide, by simpa using hpeer,
      hcontext, hunknown⟩
  obtain ⟨as, hwaste, hown⟩ := hwasting.leads withPeer (2 ^ 64 - 1)
  -- 2^64 - 1 more of them come back to the first id
  have hone : c.conn.nextAppId + UInt64.ofNat (2 ^ 64 - 1) = 1 := by
    rw [hnext]
    decide
  rw [hone] at hwaste
  exact ⟨c, as, hc, hwaste, hown, hP⟩

/-- **The counts drift when the ids wrap around**: after `2 ^ 64 - 1` subscriptions to an unknown
peer the client is given the id `1` again, and the new entry takes the place of the old one, which
is not released any more. -/
theorem refcount_drifts : ∃ s, (machine sharedOps withPeer).Reachable s ∧
    (∀ c ∈ s.conns, c.stage = .loop ∧ c.todo.length = 0) ∧
    s.app.peerStreams.refcount "hub" "hub/led" = some 2 ∧
    s.subscribers ("hub", "hub/led") = 1 := by
  have hrun : ((Socket.machine sharedOps withPeer).run (Socket.machine sharedOps withPeer).init
      deafened).any (fun c =>
        ((Socket.machine sharedOps withPeer).run (c.renumber 1) rejoins).any fun c' =>
          decide (c'.stage = .loop ∧ c'.todo.length = 0) &&
          decide (c'.peerStreams.refcount "hub" "hub/led" = some 2) &&
          decide ((alone c').subscribers ("hub", "hub/led") = 1)) = true := by
    decide
  obtain ⟨c, as, hc, hwaste, hown, hrejoin⟩ := exists_wrap hrun
  obtain ⟨c', hc', hdrift⟩ := (Option.any_eq_true _ _).mp hrejoin
  simp only [Bool.and_eq_true, decide_eq_true_eq] at hdrift
  obtain ⟨⟨hidle, hrefs⟩, hsubs⟩ := hdrift
  -- the run: one connection, wrapped, that subscribes again
  have hopen : (machine sharedOps withPeer).Leads (machine sharedOps withPeer).init
      (alone (Socket.machine sharedOps withPeer).init) := ⟨[.upgrade], rfl⟩
  have hfirst : (machine sharedOps withPeer).Leads _ (alone c) := ⟨_, run_alone (by decide) hc⟩
  have hwrap : (machine sharedOps withPeer).Leads (alone c) (alone (c.renumber 1)) :=
    ⟨_, run_alone hown hwaste⟩
  have hlast : (machine sharedOps withPeer).Leads _ (alone c') := ⟨_, run_alone (by decide) hc'⟩
  refine ⟨alone c', ((hopen.trans hfirst).trans hwrap).trans hlast, ?_, hrefs, hsubs⟩
  intro d hd
  obtain rfl := List.mem_singleton.mp hd
  exact hidle

end Sockets

end Boardwalk
