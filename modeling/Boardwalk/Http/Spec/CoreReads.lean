import Mathlib.Data.List.Forall2
import Boardwalk.Http.Spec.Core

/-!
# Reads of resources whose actors are stopped

`list_resources` and `get_resource` ask the actors for snapshots and fall back to the stored ones
when an actor is unavailable.  In every run in which no request for a snapshot is dropped with the
task that should answer it (`AnswersReads`), a listing shows every registered resource, and
`get_resource` returns a snapshot of a registered resource or says that it is unavailable.

The invariant of a listing is about its slots: one for each entry it has seen, which holds the entry
to read, then the read, then the snapshot that is listed.
-/

namespace Boardwalk.Core

variable {ι ο δ : Type*} {s t : Core ι ο δ} {j : ℕ} {ok : Bool} {store : SnapshotStore δ}

/-- The calls of entry `i` that reads await. -/
def reading (s : Core ι ο δ) (i : ℕ) : List ℕ :=
  s.ops.filterMap fun op =>
    match op.pc, op.frame with
    | .await i' k, .listResources _ _ _ _ | .await i' k, .getResource _ _ =>
      if i' = i then some k else none
    | _, _ => none

/-- The operation is a `get_resource` that is about to look into the storage, for the actor is
unavailable. -/
def fallsBack (s : Core ι ο δ) (op : Op ι ο δ) : Bool :=
  match op.pc, op.frame with
  | .await i k, .getResource _ _ => (s.entries[i]?.bind fun n => n.actor.calls[k]?).any fun c =>
    match c.phase with
    | .returned (.snapshot (.error (.unavailable _))) => true
    | _ => false
  | _, _ => false

/-- The step answers every awaited read that it concerns: it does not end the task while it holds
one, is not that the handler of one fails, and the storage can be read. -/
def AnswersReads (s : Core ι ο δ) : Action ι ο δ → Bool
  | .actor i x => s.entries[i]?.all fun n => (s.reading i).all fun k => n.answers k x
  | .op j ok => s.ops[j]?.all fun op => ok || !s.fallsBack op
  | _ => true

/-- A live snapshot of the entry, one that was persisted for it, or its placeholder. -/
def Shows (store : SnapshotStore δ) (s : Core ι ο δ) (n : Registered ι ο δ)
    (snapshot : Snapshot δ) : Prop :=
  (∃ k reply, .ended (.snapshot k) (.snapshot (.ok reply)) ∈ n.actor.log ∧
      snapshot = n.identify s.node reply) ∨
    (store.latest n.entry.id = some snapshot ∨ ∃ p ∈ s.writes, p.snapshot = snapshot) ∨
    snapshot = n.unavailableSnapshot s.node

/-- A listing shows every entry that was registered when it read the directory, in order, and
`get_resource` returns a snapshot of a registered resource or `Unavailable`. -/
structure Visible (store : SnapshotStore δ) (s : Core ι ο δ) : Prop where
  listed : ∀ (j seen : ℕ) (todo : List ℕ) (reads : List (SnapshotRead δ))
    (out result : List (Snapshot δ)),
    s.ops[j]? = some ⟨.listResources seen todo reads out, .done (.listed result)⟩ →
    List.Forall₂ (fun n snapshot => snapshot.id = n.entry.id ∧ Shows store s n snapshot)
      (s.entries.take seen) result
  got : ∀ (j : ℕ) (id : String) (i : ℕ) (result : Except ResourceReadError (Option (Snapshot δ))),
    s.ops[j]? = some ⟨.getResource id (some i), .done (.got result)⟩ →
    (∃ snapshot, result = .ok (some snapshot) ∧ snapshot.id = id) ∨
      ∃ message, result = .error (.unavailable message)

/-! ### The invariant of a read -/

/-- What a listing has for an entry. -/
inductive Slot (δ : Type*) where
  | index (i : ℕ)
  | read (r : SnapshotRead δ)
  | shown (snapshot : Snapshot δ)

def SlotOk (store : SnapshotStore δ) (s : Core ι ο δ) (i : ℕ) : Slot δ → Prop
  | .index i' => i' = i
  | .read (.available p) => p.entry = i ∧ s.Genuine p
  | .read (.unavailable id placeholder) => ∃ n, s.entries[i]? = some n ∧ id = n.entry.id ∧
    placeholder = n.unavailableSnapshot s.node
  | .read .failed => False
  | .shown snapshot => ∃ n, s.entries[i]? = some n ∧ snapshot.id = n.entry.id ∧
    Shows store s n snapshot

/-- The slots of a listing, in the order of the entries. -/
def slots (todo : List ℕ) (reads : List (SnapshotRead δ)) (out : List (Snapshot δ)) (pc : Pc ο δ) :
    List (Slot δ) :=
  match pc with
  | .await i _ => out.map .shown ++ reads.map .read ++ .index i :: todo.map .index
  | .write p => out.map .shown ++ .read (.available p) :: reads.map .read ++ todo.map .index
  | _ => out.map .shown ++ reads.map .read ++ todo.map .index

structure ListOk (store : SnapshotStore δ) (s : Core ι ο δ) (seen : ℕ) (todo : List ℕ)
    (reads : List (SnapshotRead δ)) (out : List (Snapshot δ)) (pc : Pc ο δ) : Prop where
  slots : List.Forall₂ (SlotOk store s) (List.range seen) (slots todo reads out pc)
  todo : (∀ i k, pc ≠ .await i k) → todo = []
  reading : ∀ i k, pc = .await i k → out = []
  done : ∀ result, pc = .done (.listed result) → result = out ∧ reads = []

/-- What is known of a read, by where it stands. -/
def ReadOk (store : SnapshotStore δ) (s : Core ι ο δ) (op : Op ι ο δ) : Prop :=
  match op.frame, op.pc with
  | .listResources _ _ _ _, .start | .listResources _ _ _ _, .abandoned _ => True
  | .listResources seen todo reads out, pc => ListOk store s seen todo reads out pc
  | .getResource id (some i), .await i' _ => i' = i ∧ ∃ n, s.entries[i]? = some n ∧ n.entry.id = id
  | .getResource id (some _), .write p => p.snapshot.id = id
  | .getResource id (some _), .done (.got result) =>
    (∃ snapshot, result = .ok (some snapshot) ∧ snapshot.id = id) ∨
      ∃ message, result = .error (.unavailable message)
  | .getResource _ none, .await _ _ => False
  | _, _ => True

/-- The answers of which a listing makes something to show. -/
def Readable (ans : Executor.Answer ο (Snapshot δ)) : Prop :=
  (∃ reply, ans = .snapshot (.ok reply)) ∨ ∃ message, ans = .snapshot (.error (.unavailable message))

def AwaitOk (s : Core ι ο δ) (op : Op ι ο δ) : Prop :=
  match op.frame, op.pc with
  | .listResources _ _ _ _, .await i k | .getResource _ _, .await i k => Meets Readable s i k
  | _, _ => True

/-- What is stored was there at first or was written. -/
def StoreOk (store : SnapshotStore δ) (s : Core ι ο δ) : Prop :=
  ∀ id snapshot, s.store.latest id = some snapshot →
    store.latest id = some snapshot ∨ ∃ p ∈ s.writes, p.snapshot = snapshot

/-! ### What other steps leave of it -/

/-- What an actor has shown it still shows when it has grown. -/
theorem Shows.grows {n n' : Registered ι ο δ} {snapshot : Snapshot δ}
    (h : Shows store s n snapshot) (hg : n.Grows n') (hnode : t.node = s.node)
    (hw : s.writes ⊆ t.writes) : Shows store t n' snapshot := by
  rcases h with ⟨k, reply, hlog, hsnap⟩ | hstored | hplace
  · refine .inl ⟨k, reply, hg.log.subset hlog, ?_⟩
    rw [hsnap, Registered.identify, Registered.identify, hg.entry, hg.spec, hnode]
  · rw [← hg.entry] at hstored
    rcases hstored with hstored | ⟨p, hp, hsnap⟩
    · exact .inr (.inl (.inl hstored))
    · exact .inr (.inl (.inr ⟨p, hw hp, hsnap⟩))
  · refine .inr (.inr ?_)
    rw [hplace, Registered.unavailableSnapshot, Registered.unavailableSnapshot, hg.entry, hg.spec,
      hnode]

theorem SlotOk.grows {i : ℕ} {slot : Slot δ} (h : SlotOk store s i slot) (hg : Grows s t)
    (hw : s.writes ⊆ t.writes) : SlotOk store t i slot := by
  cases slot with
  | index i' => exact h
  | read r =>
    cases r with
    | available p => exact ⟨h.1, h.2.grows hg⟩
    | unavailable id placeholder =>
      obtain ⟨n, hn, hid, hplace⟩ := h
      obtain ⟨n', hn', hgn⟩ := hg.entries i n hn
      refine ⟨n', hn', by rw [hgn.entry, hid], ?_⟩
      rw [hplace, Registered.unavailableSnapshot, Registered.unavailableSnapshot, hgn.entry,
        hgn.spec, hg.node]
    | failed => exact h
  | shown snapshot =>
    obtain ⟨n, hn, hid, hshow⟩ := h
    obtain ⟨n', hn', hgn⟩ := hg.entries i n hn
    exact ⟨n', hn', by rw [hgn.entry, hid], hshow.grows hgn hg.node hw⟩

theorem ListOk.grows {seen : ℕ} {todo : List ℕ} {reads : List (SnapshotRead δ)}
    {out : List (Snapshot δ)} {pc : Pc ο δ} (h : ListOk store s seen todo reads out pc)
    (hg : Grows s t) (hw : s.writes ⊆ t.writes) : ListOk store t seen todo reads out pc :=
  { h with slots := h.slots.imp fun _ _ hslot => hslot.grows hg hw }

theorem ReadOk.grows {op : Op ι ο δ} (h : ReadOk store s op) (hg : Grows s t)
    (hw : s.writes ⊆ t.writes) : ReadOk store t op := by
  unfold ReadOk at h ⊢
  split at h
  · trivial
  · trivial
  · exact h.grows hg hw
  · obtain ⟨hi, n, hn, hid⟩ := h
    obtain ⟨n', hn', hgn⟩ := hg.entries _ n hn
    exact ⟨hi, n', hn', by rw [hgn.entry, hid]⟩
  · exact h
  · exact h
  · exact h
  · trivial

/-! ### Steps of a listing -/

/-- What a read keeps. -/
structure ReadTruth (store : SnapshotStore δ) (s : Core ι ο δ) (op : Op ι ο δ) : Prop where
  read : ReadOk store s op
  await : s.AwaitOk op

/-- Nothing is known of a read that was left. -/
theorem readTruth_abandoned (frame : Frame ι ο δ) (taken : Option ℕ) :
    ReadTruth store s ⟨frame, .abandoned taken⟩ := by
  cases frame with
  | getResource id entry => cases entry <;> exact ⟨trivial, trivial⟩
  | _ => exact ⟨trivial, trivial⟩

theorem forall₂_replace {α β : Type*} {R : α → β → Prop} {x y : β} {l : List α} {pre post : List β}
    (h : List.Forall₂ R l (pre ++ x :: post)) (hxy : ∀ a, R a x → R a y) :
    List.Forall₂ R l (pre ++ y :: post) := by
  induction pre generalizing l with
  | nil =>
    cases h with
    | cons hx hrest => exact .cons (hxy _ hx) hrest
  | cons z pre ih =>
    cases h with
    | cons hz hrest => exact .cons hz (ih hrest)

theorem readTruth_nextRead {seen : ℕ} {todo : List ℕ} {reads : List (SnapshotRead δ)}
    (h : List.Forall₂ (SlotOk store s) (List.range seen)
      (reads.map Slot.read ++ todo.map Slot.index)) :
    ∃ op, (s.nextRead j seen todo reads).ops = s.ops.set j op ∧
      ReadTruth store (s.nextRead j seen todo reads) op := by
  cases todo with
  | nil =>
    refine ⟨_, rfl, ReadOk.grows (s := s) ?_ (keeps_setOp _ _ _).grows (fun _ => id), trivial⟩
    exact { slots := h, todo := fun _ => rfl, reading := by simp, done := by simp }
  | cons i todo =>
    refine ⟨_, rfl, ReadOk.grows (s := s) ?_ (keeps_await _ _ _ _ _).grows (fun _ => id),
      meets_await _ _ _ _ _ _⟩
    exact { slots := h, todo := by simp, reading := fun _ _ _ => rfl, done := by simp }

theorem SlotOk.shown_of_available {i : ℕ} {p : Produced δ}
    (h : SlotOk store s i (.read (.available p))) : SlotOk store s i (.shown p.snapshot) := by
  obtain ⟨rfl, n, reply, hn, hlog, hsnap⟩ := h
  exact ⟨n, hn, by rw [hsnap]; rfl, .inl ⟨p.call, reply, hlog, hsnap⟩⟩

/-- A slot whose actor was unavailable shows the latest snapshot stored, or else its placeholder. -/
theorem SlotOk.shown_of_unavailable {i : ℕ} {id : String} {placeholder : Snapshot δ}
    (h : SlotOk store s i (.read (.unavailable id placeholder))) (hstore : StoreOk store s) :
    SlotOk store s i
      (.shown (((s.latestResourceSnapshot id ok).toOption.join).getD placeholder)) := by
  obtain ⟨n, hn, rfl, rfl⟩ := h
  have hplace : SlotOk store s i (.shown (n.unavailableSnapshot s.node)) :=
    ⟨n, hn, rfl, .inr (.inr rfl)⟩
  unfold latestResourceSnapshot
  split
  · exact hplace
  · split
    · rcases hlatest : s.store.latest n.entry.id with _ | snapshot
      · exact hplace
      · exact ⟨n, hn, s.store.keyed _ _ hlatest, .inr (.inl (hstore _ _ hlatest))⟩
    · exact hplace

/-- A slot collected keeps the listing right, if what it shows is right. -/
theorem ListOk.collected {seen : ℕ} {reads : List (SnapshotRead δ)} {r : SnapshotRead δ}
    {out : List (Snapshot δ)} {pc : Pc ο δ} {snapshot : Snapshot δ}
    (h : List.Forall₂ (SlotOk store s) (List.range seen)
      (out.map Slot.shown ++ .read r :: reads.map Slot.read))
    (hr : ∀ i, SlotOk store s i (.read r) → SlotOk store s i (.shown snapshot))
    (hpc : pc = .collect) : ListOk store s seen [] reads (out ++ [snapshot]) pc where
  slots := by
    have := forall₂_replace h hr
    subst hpc
    simpa [Core.slots] using this
  todo _ := rfl
  reading i k h' := by rw [hpc] at h'; cases h'
  done result h' := by rw [hpc] at h'; cases h'

theorem readTruth_collected {seen : ℕ} {reads : List (SnapshotRead δ)} {out : List (Snapshot δ)}
    {p : Produced δ}
    (h : List.Forall₂ (SlotOk store s) (List.range seen)
      (out.map Slot.shown ++ .read (.available p) :: reads.map Slot.read)) :
    ReadTruth store s
      (⟨.listResources seen [] reads (out ++ [p.snapshot]), .collect⟩ : Op ι ο δ) :=
  ⟨ListOk.collected h (fun _ hslot => hslot.shown_of_available) rfl, trivial⟩

theorem ListOk.write_slots {seen : ℕ} {todo : List ℕ} {reads : List (SnapshotRead δ)}
    {out : List (Snapshot δ)} {p : Produced δ}
    (h : ListOk store s seen todo reads out (.write p : Pc ο δ)) : todo = [] ∧
      List.Forall₂ (SlotOk store s) (List.range seen)
        (out.map Slot.shown ++ .read (.available p) :: reads.map Slot.read) := by
  have htodo := h.todo (by simp)
  subst htodo
  refine ⟨rfl, ?_⟩
  have := h.slots
  simpa [Core.slots] using this

theorem ListOk.collect_slots {seen : ℕ} {todo : List ℕ} {reads : List (SnapshotRead δ)}
    {out : List (Snapshot δ)} (h : ListOk store s seen todo reads out (.collect : Pc ο δ)) :
    todo = [] ∧ List.Forall₂ (SlotOk store s) (List.range seen)
      (out.map Slot.shown ++ reads.map Slot.read) := by
  have htodo := h.todo (by simp)
  subst htodo
  refine ⟨rfl, ?_⟩
  have := h.slots
  simpa [Core.slots] using this

theorem readTruth_list_afterPersist {seen : ℕ} {reads : List (SnapshotRead δ)}
    {out : List (Snapshot δ)} {p : Produced δ}
    (h : List.Forall₂ (SlotOk store s) (List.range seen)
      (out.map Slot.shown ++ .read (.available p) :: reads.map Slot.read))
    {u : Core ι ο δ} (hg : Grows s t) (hw : s.writes ⊆ t.writes)
    (ht : u.afterPersist j (.listResources seen [] reads out) p = some t) :
    ∃ op, t.ops = u.ops.set j op ∧ ReadTruth store t op := by
  obtain ⟨op, hop, rfl⟩ := afterPersist_some ht
  cases hop
  exact ⟨_, rfl, (readTruth_collected h).read.grows hg hw, trivial⟩

/-- What an awaited request has returned can be shown. -/
theorem Meets.readable {i k : ℕ} {n : Registered ι ο δ}
    {ans : Executor.Answer ο (Snapshot δ)} (h : Meets Readable s i k) (ha : s.Answers i k n ans) :
    Readable ans := by
  obtain ⟨hn, c, hc, hp⟩ := ha
  have := h n c hn hc
  simpa only [Executor.Call.Meets, hp] using this

theorem getById_id {id : String} {i : ℕ} (h : s.getById id = some i) :
    ∃ n, s.entries[i]? = some n ∧ n.entry.id = id := by
  have hlt := lt_of_getById h
  refine ⟨s.entries[i], List.getElem?_eq_getElem hlt, ?_⟩
  have := (List.findIdx?_eq_some_iff_getElem.mp h).2.1
  simpa using this

theorem readTruth_get_afterPersist {id : String} {entry : Option ℕ} {p : Produced δ}
    {u : Core ι ο δ} (hid : p.snapshot.id = id)
    (ht : u.afterPersist j (.getResource id entry) p = some t) :
    ∃ op, t.ops = u.ops.set j op ∧ ReadTruth store t op := by
  obtain ⟨op, hop, rfl⟩ := afterPersist_some ht
  cases hop
  refine ⟨_, rfl, ?_, trivial⟩
  cases entry with
  | none => trivial
  | some i => exact .inl ⟨p.snapshot, rfl, hid⟩

variable [DecidableEq δ]

/-- Persisting the snapshot of a slot keeps the listing right. -/
theorem readTruth_list_persistLatest {seen : ℕ} {reads : List (SnapshotRead δ)}
    {out : List (Snapshot δ)} {p : Produced δ}
    (h : List.Forall₂ (SlotOk store s) (List.range seen)
      (out.map Slot.shown ++ .read (.available p) :: reads.map Slot.read))
    (ht : s.persistLatest j (.listResources seen [] reads out) p ok = some t) :
    ∃ op, t.ops = s.ops.set j op ∧ ReadTruth store t op := by
  have hg := (keeps_persistLatest ht).grows
  have hw := (writes_persistLatest ht).1
  obtain ⟨-, ht⟩ | rfl := persistLatest_cases ht
  · exact readTruth_list_afterPersist h hg (by rw [hw]; exact fun _ => id) ht
  · refine ⟨_, rfl, ReadOk.grows (s := s) ?_ hg (fun _ => id), trivial⟩
    refine ⟨?_, fun _ => rfl, by simp, by simp⟩
    simpa [slots] using h

theorem readTruth_get_persistLatest {id : String} {entry : Option ℕ} {p : Produced δ}
    (hid : p.snapshot.id = id)
    (ht : s.persistLatest j (.getResource id entry) p ok = some t) :
    ∃ op, t.ops = s.ops.set j op ∧ ReadTruth store t op := by
  obtain ⟨-, ht⟩ | rfl := persistLatest_cases ht
  · exact readTruth_get_afterPersist hid ht
  · refine ⟨_, rfl, ?_, trivial⟩
    cases entry with
    | none => trivial
    | some i => exact hid

/-- A step of a listing keeps what is known of it. -/
theorem ReadTruth.move_list {seen : ℕ} {todo : List ℕ} {reads : List (SnapshotRead δ)}
    {out : List (Snapshot δ)} {pc : Pc ο δ}
    (h : ReadTruth store s ⟨.listResources seen todo reads out, pc⟩) (hwf : s.Wf)
    (ho : s.OpWf ⟨.listResources seen todo reads out, pc⟩) (hstore : StoreOk store s)
    (hm : Move s j ok ⟨.listResources seen todo reads out, pc⟩ t) :
    ∃ op, t.ops = s.ops.set j op ∧ ReadTruth store t op := by
  have hread := h.read
  cases hm with
  | listStart =>
    refine readTruth_nextRead ?_
    simp only [List.map_nil, List.nil_append, List.forall₂_map_right_iff]
    exact List.forall₂_same.mpr fun _ _ => rfl
  | listAnswer _ _ _ _ i k n result ha =>
    have hlist : ListOk store s seen todo reads out (.await i k : Pc ο δ) := hread
    have hout := hlist.reading i k rfl
    subst hout
    refine readTruth_nextRead ?_
    have hslots : List.Forall₂ (SlotOk store s) (List.range seen)
        (reads.map Slot.read ++ .index i :: todo.map Slot.index) := hlist.slots
    rw [List.map_append, List.append_assoc]
    refine forall₂_replace hslots ?_
    rintro _ rfl
    have hans : Readable (.snapshot result) := Meets.readable h.await ha
    rcases hans with ⟨reply, heq⟩ | ⟨message, heq⟩
    · -- the actor answers `snapshot` with its own snapshot, or not at all
      cases heq
      exact ⟨rfl, hwf.genuine ha (ho.await _ k rfl)⟩
    · cases heq
      exact ⟨n, ha.1, rfl, rfl⟩
  | collectEnd =>
    have hlist : ListOk store s seen todo [] out (.collect : Pc ο δ) := hread
    refine ⟨_, rfl, ReadOk.grows (s := s) ?_ (keeps_setOp _ _ _).grows (fun _ => id), trivial⟩
    refine ⟨hlist.slots, fun _ => hlist.todo (by simp), by simp, ?_⟩
    intro result hres
    cases hres
    exact ⟨rfl, rfl⟩
  | collectAvailable _ _ p reads' _ _ ht =>
    obtain ⟨rfl, hslots⟩ := ListOk.collect_slots hread
    exact readTruth_list_persistLatest hslots ht
  | collectUnavailable _ _ id placeholder reads' _ =>
    obtain ⟨rfl, hslots⟩ := ListOk.collect_slots hread
    refine ⟨_, rfl, ReadOk.grows (s := s) ?_ (keeps_setOp _ _ _).grows (fun _ h => h), trivial⟩
    exact ListOk.collected hslots (fun _ hslot => hslot.shown_of_unavailable hstore) rfl
  | collectFailed _ _ reads' _ =>
    -- a failed read has no slot, so the list cannot have collected one
    obtain ⟨rfl, hslots⟩ := ListOk.collect_slots hread
    have hmem : Slot.read .failed ∈ out.map Slot.shown ++ (SnapshotRead.failed :: reads').map
        Slot.read := by simp
    obtain ⟨l, hl⟩ := List.forall₂_iff_get.mp hslots
    obtain ⟨m, hmlt, hget⟩ := List.mem_iff_getElem.mp hmem
    have hbad := hl m (by rw [l]; exact hmlt) hmlt
    simp only [List.get_eq_getElem, hget] at hbad
    exact absurd hbad id
  | write _ p _ ht =>
    obtain ⟨rfl, hslots⟩ := ListOk.write_slots hread
    -- a first write makes the snapshot true of the store; an upsert that changes nothing does not
    have hg := (keeps_upsert ht).grows
    unfold upsert at ht
    split at ht
    · have hw : s.writes ⊆ t.writes := by
        rw [(writes_afterPersist ht).1]
        exact List.subset_append_left _ _
      obtain ⟨op, hops, htruth⟩ := readTruth_list_afterPersist hslots hg hw ht
      exact ⟨op, hops, htruth⟩
    · exact readTruth_list_afterPersist hslots hg
        (by rw [(writes_afterPersist ht).1]; exact fun _ => id) ht

/-- A step of `get_resource` keeps what is known of it, if the storage can be read. -/
theorem ReadTruth.move_get {id : String} {entry : Option ℕ} {pc : Pc ο δ}
    (h : ReadTruth store s ⟨.getResource id entry, pc⟩)
    (hok : s.fallsBack ⟨.getResource id entry, pc⟩ = true → ok = true)
    (hm : Move s j ok ⟨.getResource id entry, pc⟩ t) :
    ∃ op, t.ops = s.ops.set j op ∧ ReadTruth store t op := by
  have hread := h.read
  cases hm with
  | getMissing => exact ⟨_, rfl, trivial, trivial⟩
  | getStart _ _ i hid =>
    obtain ⟨n, hn, hnid⟩ := getById_id hid
    obtain ⟨n', hn', hgn⟩ := (keeps_await s j (.getResource id (some i)) i .snapshot).grows.entries
      i n hn
    exact ⟨_, rfl, ⟨rfl, n', hn', by rw [hgn.entry, hnid]⟩, meets_await _ _ _ _ _ _⟩
  | getAnswer _ _ i k n reply _ ha ht =>
    cases entry with
    | none => exact absurd hread not_false
    | some i' =>
      obtain ⟨rfl, m, hm, hid⟩ := hread
      obtain rfl : n = m := Option.some.inj (ha.1.symm.trans hm)
      refine readTruth_get_persistLatest ?_ ht
      rw [← hid]
      rfl
  | getUnavailable _ _ i k n message ha =>
    -- no answer, and the store is read instead unless it failed
    have hfalls : s.fallsBack ⟨.getResource id entry, .await i k⟩ = true := by
      obtain ⟨hn, c, hc, hp⟩ := ha
      simp [fallsBack, hn, hc, hp]
    have htrue := hok hfalls
    subst htrue
    refine ⟨_, rfl, ?_, trivial⟩
    cases entry with
    | none => trivial
    | some i' =>
      show (∃ snapshot, _ = Except.ok (some snapshot) ∧ _) ∨ _
      unfold snapshotFromRepositoryOrUnavailable latestResourceSnapshot
      by_cases hpers : s.persistent = true
      · rcases hlatest : s.store.latest id with _ | snapshot
        · exact .inr ⟨message, by simp [hpers]⟩
        · exact .inl ⟨snapshot, by simp [hpers], s.store.keyed _ _ hlatest⟩
      · exact .inr ⟨message, by simp [hpers]⟩
  | getFailed _ _ i k n err hne ha =>
    have hans := Meets.readable h.await ha
    rcases hans with ⟨reply, heq⟩ | ⟨message, heq⟩
    · cases heq
    · cases heq
      exact absurd rfl (hne message)
  | write _ p _ ht =>
    -- the fallback has no entry; otherwise the entry is the one `id` names
    have hid : entry = none ∨ p.snapshot.id = id := by
      cases entry with
      | none => exact .inl rfl
      | some i => exact .inr hread
    have hafter : ∀ {u : Core ι ο δ}, u.afterPersist j (.getResource id entry) p = some t →
        ∃ op, t.ops = u.ops.set j op ∧ ReadTruth store t op := by
      intro u hu
      rcases hid with rfl | hid
      · obtain ⟨op, hop, rfl⟩ := afterPersist_some hu
        cases hop
        exact ⟨_, rfl, trivial, trivial⟩
      · exact readTruth_get_afterPersist hid hu
    unfold upsert at ht
    split at ht
    · obtain ⟨op, hops, htruth⟩ := hafter ht
      exact ⟨op, hops, htruth⟩
    · exact hafter ht

omit [DecidableEq δ] in
theorem ReadTruth.of_kind {op : Op ι ο δ} (hl : op.frame.kind ≠ .listResources)
    (hg : op.frame.kind ≠ .getResource) : ReadTruth store s op := by
  obtain ⟨frame, pc⟩ := op
  cases frame with
  | listResources _ _ _ _ => exact absurd rfl hl
  | getResource _ _ => exact absurd rfl hg
  | _ => exact ⟨trivial, trivial⟩

/-- A move keeps what its operation reads true to the actors. -/
theorem ReadTruth.move {op : Op ι ο δ} (h : ReadTruth store s op) (hwf : s.Wf) (ho : s.OpWf op)
    (hstore : StoreOk store s) (hok : s.fallsBack op = true → ok = true) (hm : Move s j ok op t) :
    ∃ op', t.ops = s.ops.set j op' ∧ ReadTruth store t op' := by
  obtain ⟨frame, pc⟩ := op
  cases frame with
  | listResources seen todo reads out => exact h.move_list hwf ho hstore hm
  | getResource id entry => exact h.move_get hok hm
  | runResourceTransition id name input invoked output =>
    obtain ⟨op', hops, hk⟩ := hm.moved
    exact ⟨op', hops, .of_kind (by rw [hk]; simp [Frame.kind]) (by rw [hk]; simp [Frame.kind])⟩
  | shutdown todo =>
    obtain ⟨op', hops, hk⟩ := hm.moved
    exact ⟨op', hops, .of_kind (by rw [hk]; simp [Frame.kind]) (by rw [hk]; simp [Frame.kind])⟩

theorem Steps.writes_subset {a : Action ι ο δ} (h : Steps s a t) : s.writes ⊆ t.writes := by
  obtain ⟨hw, -⟩ | ⟨p, hw, -⟩ := h.writes
  · rw [hw]; exact fun _ hp => hp
  · rw [hw]; exact List.subset_append_left _ _

/-- No step stores anything but what some actor has shown. -/
theorem StoreOk.step {a : Action ι ο δ} (h : StoreOk store s) (hstep : Steps s a t) :
    StoreOk store t := by
  intro id snapshot hlatest
  obtain ⟨hw, hs⟩ | ⟨p, hw, hs⟩ := hstep.writes
  · rw [hs] at hlatest
    rw [hw]
    exact h id snapshot hlatest
  · rw [hs] at hlatest
    by_cases hid : id = p.snapshot.id
    · refine .inr ⟨p, by simp [hw], ?_⟩
      simpa [SnapshotStore.upsertLatest, hid] using hlatest
    · simp only [SnapshotStore.upsertLatest, Function.update_of_ne hid] at hlatest
      rcases h id snapshot hlatest with h0 | ⟨q, hq, hsnap⟩
      · exact .inl h0
      · exact .inr ⟨q, by simp [hw, hq], hsnap⟩

/-- The calls that a read awaits are readable after a step that answers them. -/
theorem AwaitOk.step {op : Op ι ο δ} {a : Action ι ο δ} (h : s.AwaitOk op) (hwf : s.Wf)
    (hop : s.ops[j]? = some op) (hG : s.AnswersReads a = true) (hstep : Steps s a t) :
    t.AwaitOk op := by
  -- a read that waits keeps its place among the reads of `i`, which the condition protects
  have hone : ∀ i k, op.pc = .await i k → op.frame.request = .snapshot → k ∈ s.reading i →
      Meets Readable s i k → Meets Readable t i k := by
    intro i k hpc hreq hmem hm
    have hasks := (hwf.ops j op hop).await i k hpc
    rw [hreq] at hasks
    refine hm.step hwf hasks hstep (fun reply => .inl ⟨reply, rfl⟩)
      (fun _ _ _ _ => .inr ⟨_, rfl⟩) ?_
    rintro n x hn rfl
    simp only [AnswersReads, hn, Option.all_some, List.all_eq_true] at hG
    exact hG k hmem
  have hmem : ∀ i k, op.pc = .await i k →
      op.frame.kind = .listResources ∨ op.frame.kind = .getResource → k ∈ s.reading i := by
    intro i k hpc hkind
    refine List.mem_filterMap.mpr ⟨op, List.mem_of_getElem? hop, ?_⟩
    obtain ⟨frame, pc⟩ := op
    cases frame <;> simp_all [Frame.kind]
  obtain ⟨frame, pc⟩ := op
  unfold AwaitOk at h ⊢
  cases frame with
  | listResources seen todo reads out =>
    cases pc with
    | await i k => exact hone i k rfl rfl (hmem i k rfl (.inl rfl)) h
    | _ => trivial
  | getResource id entry =>
    cases pc with
    | await i k => exact hone i k rfl rfl (hmem i k rfl (.inr rfl)) h
    | _ => trivial
  | _ => trivial

/-- What holds along runs that answer the reads. -/
structure ReadInv (store : SnapshotStore δ) (s : Core ι ο δ) : Prop where
  wf : s.Wf
  stored : StoreOk store s
  ops : ∀ (j : ℕ) (op : Op ι ο δ), s.ops[j]? = some op → ReadTruth store s op

/-- A step whose reads are answered keeps what every operation reads true. -/
theorem ReadInv.step {a : Action ι ο δ} (h : ReadInv store s) (hG : s.AnswersReads a = true)
    (hstep : Steps s a t) : ReadInv store t := by
  -- what an operation read stays true as the node grows
  have hother : ∀ {j : ℕ} {op : Op ι ο δ}, s.ops[j]? = some op → ReadTruth store t op :=
    fun {j op} hop => ⟨(h.ops j op hop).read.grows hstep.grows hstep.writes_subset,
      (h.ops j op hop).await.step h.wf hop hG hstep⟩
  refine ⟨h.wf.step hstep, h.stored.step hstep, fun j op hop => ?_⟩
  cases hstep with
  | register entry spec hid => exact hother hop
  | begin r =>
    rcases append_cases hop with ⟨-, rfl⟩ | hop
    · cases r <;> exact ⟨trivial, trivial⟩
    · exact hother hop
  | actor i x n e hn hx he => exact hother hop
  | op j' ok o _ ho hm =>
    -- the condition lets the store fail only for an operation with nothing to fall back on
    have hok : s.fallsBack o = true → ok = true := by
      intro hfalls
      simpa [AnswersReads, ho, hfalls] using hG
    obtain ⟨op', hops, htruth⟩ :=
      (h.ops j' o ho).move h.wf (h.wf.ops j' o ho) h.stored hok hm
    rcases ops_set_cases hops hop with ⟨-, rfl⟩ | ⟨-, hop⟩
    · exact htruth
    · exact hother hop
  | abandon j' o _ ho hl =>
    obtain ⟨taken, hops⟩ := hl.ops
    rcases ops_set_cases hops hop with ⟨-, rfl⟩ | ⟨-, hop⟩
    · exact readTruth_abandoned o.frame taken
    · exact hother hop

omit [DecidableEq δ] in
/-- What the invariant says of a finished listing is that every resource is visible in it. -/
theorem ReadInv.visible (h : ReadInv store s) : Visible store s := by
  refine ⟨fun j seen todo reads out result hop => ?_, fun j id i result hop => ?_⟩
  · have hlist : ListOk store s seen todo reads out (.done (.listed result) : Pc ο δ) :=
      (h.ops j _ hop).read
    obtain ⟨rfl, rfl⟩ := hlist.done result rfl
    -- a list that ended has shown every entry it saw
    have htodo := hlist.todo (by simp)
    subst htodo
    have hslots : List.Forall₂ (SlotOk store s) (List.range seen) (result.map Slot.shown) := by
      have := hlist.slots
      simpa [slots] using this
    rw [List.forall₂_map_right_iff] at hslots
    obtain ⟨hlen, hget⟩ := List.forall₂_iff_get.mp hslots
    rw [List.length_range] at hlen
    have hentry : ∀ i (hi : i < result.length), ∃ n, s.entries[i]? = some n ∧
        result[i].id = n.entry.id ∧ Shows store s n result[i] := by
      intro i hi
      have hslot := hget i (by simpa [hlen] using hi) hi
      simp only [List.get_eq_getElem, List.getElem_range] at hslot
      exact hslot
    have hseen : seen ≤ s.entries.length := by
      by_contra hlt
      obtain ⟨n, hn, -⟩ := hentry s.entries.length (by omega)
      simp at hn
    refine List.forall₂_iff_get.mpr ⟨by simp [hlen]; omega, fun i h₁ h₂ => ?_⟩
    obtain ⟨n, hn, hid, hshow⟩ := hentry i h₂
    obtain ⟨hlt, hget'⟩ := List.getElem?_eq_some_iff.mp hn
    simp only [List.get_eq_getElem, List.getElem_take, hget']
    exact ⟨hid, hshow⟩
  · exact (h.ops j _ hop).read

/-- **Stopping an actor does not hide its resource**, in every run that answers the reads. -/
theorem visible_of_answersReads (node : String) (actorQueueCapacity : ℕ) (persistent : Bool)
    (store : SnapshotStore δ) (as : List (Action ι ο δ))
    (h : (machine ι ο node actorQueueCapacity persistent store).StepsMeet
      (fun s a => s.AnswersReads a = true)
      (machine ι ο node actorQueueCapacity persistent store).init as) :
    (machine ι ο node actorQueueCapacity persistent store).StatesMeet (Visible store)
      (machine ι ο node actorQueueCapacity persistent store).init as := by
  have hinit : ReadInv store (machine ι ο node actorQueueCapacity persistent store).init :=
    ⟨wf_init _ _ _ _, fun _ _ hlatest => .inl hlatest, by simp [machine]⟩
  have hinv := Machine.statesMeet_of_stepsMeet (I := ReadInv store)
    (fun s a t hs hG hstep => hs.step hG (step_steps hstep)) hinit h
  exact hinv.mono fun s hs => hs.visible

/-- The lamp is stopped, and then listed and read. -/
def readsAfterStop : List (Action String String String) :=
  [.register lamp lampReports, .begin .shutdown, .op 0 true, .actor 0 .start, .actor 0 (.reserve 0),
    .actor 0 (.send 0), .actor 0 .recv, .actor 0 (.reply (.shutdown true)), .actor 0 .finish,
    .actor 0 (.receive 0), .op 0 true, .op 0 true, .op 0 true, .begin .listResources, .op 1 true,
    .actor 0 (.send 1), .op 1 true, .op 1 true, .op 1 true, .begin (.getResource "lamp"), .op 2 true,
    .actor 0 (.send 2), .op 2 true]

theorem visible_readsAfterStop :
    (lampMachine.run lampMachine.init readsAfterStop).isSome = true ∧
      lampMachine.StatesMeet (Visible .empty) lampMachine.init readsAfterStop :=
  ⟨by decide, visible_of_answersReads "hub" 32 true .empty readsAfterStop
    (by decide)⟩

/-- The reads are queued behind the stop of the node's shutdown. -/
def readsBehindStop : List (Action String String String) :=
  [.register lamp lampReports, .begin .shutdown, .begin .listResources, .begin (.getResource "lamp"),
    .op 0 true, .op 1 true, .op 2 true, .actor 0 .start, .actor 0 (.reserve 0), .actor 0 (.send 0),
    .actor 0 (.reserve 1), .actor 0 (.send 1), .actor 0 (.reserve 2), .actor 0 (.send 2),
    .actor 0 .recv, .actor 0 (.reply (.shutdown true)), .actor 0 .finish, .actor 0 (.receive 1),
    .actor 0 (.receive 2), .op 1 true, .op 1 true, .op 1 true, .op 2 true]

/-- The lamp is missing from the listing, and reading it is an internal error. -/
theorem hidden_behind_stop :
    ∃ s, lampMachine.run lampMachine.init readsBehindStop = some s ∧
      s.ops[1]? = some ⟨.listResources 1 [] [] [], .done (.listed [])⟩ ∧
      s.ops[2]? = some ⟨.getResource "lamp" (some 0),
        .done (.got (.error (.internal "actor task dropped reply slot")))⟩ ∧
      ¬ Visible .empty s := by
  refine ⟨_, rfl, rfl, rfl, fun h => ?_⟩
  have hlen := (h.listed 1 _ _ _ _ _ rfl).length_eq
  revert hlen
  decide

end Boardwalk.Core
