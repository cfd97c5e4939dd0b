import Boardwalk.Http.Spec.Core

/-!
# The persisted latest snapshot

A call that has a snapshot reads the stored one, compares and writes.  The stored snapshot follows
the order in which the actor produced them in every run in which calls persist in that order
(`InOrder`): when a call begins to persist its snapshot, no other call still has an older one of the
same resource, and writes succeed.

The invariant is about keys.  A key is an entry with the number of a call of its actor; an operation
has the keys of the call it awaits and of the snapshots it has still to persist, and every key that
was ever asked for is with an operation, was persisted, or got no snapshot.
-/

namespace Boardwalk.Core

variable {ι ο δ : Type*} {s t : Core ι ο δ} {j : ℕ} {ok : Bool}

/-- The call whose answer the record is, if it is a snapshot. -/
def produced? : Executor.Record ι ο (Snapshot δ) → Option ℕ
  | .ended (.snapshot k) (.snapshot (.ok _)) => some k
  | _ => none

/-- The calls for which the actor produced a snapshot, in order. -/
def Registered.produced (n : Registered ι ο δ) : List ℕ := n.actor.log.filterMap produced?

def Produced.key (p : Produced δ) : ℕ × ℕ := (p.entry, p.call)

/-- The keys that an operation has. -/
def Op.keys (op : Op ι ο δ) : List (ℕ × ℕ) :=
  op.got.map Produced.key ++
    match op.pc with
    | .await i k => [(i, k)]
    | _ => []

/-- The caller of call `k` of entry `i` has left. -/
def abandoned (s : Core ι ο δ) (i k : ℕ) : Bool :=
  (s.entries[i]?.bind fun n => n.actor.calls[k]?).any fun c =>
    match c.phase with
    | .abandoned => true
    | _ => false

/-- The key of the snapshot that the operation begins to persist with its next step. -/
def persists? (s : Core ι ο δ) (op : Op ι ο δ) : Option (ℕ × ℕ) :=
  match op.pc, op.frame with
  | .collect, .listResources _ _ (.available p :: _) _ => some p.key
  | .await i k, .getResource _ _ | .await i k, .runResourceTransition _ _ _ _ (some _) =>
    (s.entries[i]?.bind fun n => n.actor.calls[k]?).bind fun c =>
      match c.phase with
      | .returned (.snapshot (.ok _)) => some (i, k)
      | _ => none
  | _, _ => none

/-- No operation has, or still awaits, an older snapshot of entry `i` than that of call `k`. -/
def oldest (s : Core ι ο δ) (i k : ℕ) : Bool :=
  s.entries[i]?.all fun n => s.ops.all fun op => op.keys.all fun key =>
    key.1 != i || s.abandoned key.1 key.2 || n.produced.idxOf k ≤ n.produced.idxOf key.2

/-- The step does not begin to persist a snapshot while another call has an older one of the
resource, and its write succeeds. -/
def InOrder (s : Core ι ο δ) : Action ι ο δ → Bool
  | .op j ok => s.ops[j]?.all fun op =>
    ((s.persists? op).all fun key => s.oldest key.1 key.2) &&
      match op.pc with
      | .write _ => ok
      | _ => true
  | _ => true

/-- The stored snapshots follow the order in which the actor produced them; once all calls have
returned, the stored one is the last that was produced for them. -/
structure Forward (s : Core ι ο δ) : Prop where
  genuine : ∀ p ∈ s.writes, s.Genuine p
  ordered : ∀ (i : ℕ) (n : Registered ι ο δ), s.entries[i]? = some n →
    (s.writes.filter fun p => p.entry = i).Pairwise fun p q =>
      n.produced.idxOf p.call ≤ n.produced.idxOf q.call
  latest : s.persistent = true → (∀ op ∈ s.ops, ∃ result, op.pc = .done result) →
    ∀ (i k : ℕ) (n : Registered ι ο δ) (reply : Snapshot δ), s.entries[i]? = some n →
      (i, k) ∈ s.asked → .ended (.snapshot k) (.snapshot (.ok reply)) ∈ n.actor.log →
      (∀ k' ∈ n.produced, (i, k') ∈ s.asked → n.produced.idxOf k' ≤ n.produced.idxOf k) →
      s.store.latest n.entry.id = some (n.identify s.node reply)

/-! ### Keys of an operation -/

/-- Call `k` of entry `i` has returned without a snapshot. -/
def NoSnapshot (s : Core ι ο δ) (i k : ℕ) : Prop :=
  ∃ n c ans, s.entries[i]? = some n ∧ n.actor.calls[k]? = some c ∧ c.phase = .returned ans ∧
    ∀ reply, ans ≠ .snapshot (.ok reply)

/-- Call `k` of entry `i` has returned. -/
def Returns (s : Core ι ο δ) (i k : ℕ) : Prop :=
  ∃ n c ans, s.entries[i]? = some n ∧ n.actor.calls[k]? = some c ∧ c.phase = .returned ans

/-- What a step of an operation does to the keys. -/
inductive Custody (s t : Core ι ο δ) (op op' : Op ι ο δ) : Prop
  /-- It keeps its keys, or gives up the last one that brought no snapshot. -/
  | keep (base given fresh : List (ℕ × ℕ)) (hkeys : op.keys = base ++ given)
      (hkeys' : op'.keys = base ++ fresh) (hgiven : ∀ key ∈ given, s.NoSnapshot key.1 key.2)
      (hfresh : ∀ key ∈ fresh, key.2 = s.nextCall key.1) (hlen : fresh.length ≤ 1)
      (hasked : t.asked = s.asked ++ fresh) (hpers : t.persisted = s.persisted)
      (hwrites : t.writes = s.writes) (hstore : t.store = s.store)
      (hwrite : ∀ p, op'.pc = .write p → s.persists? op = some p.key)
  /-- It has persisted its first snapshot. -/
  | persist (p : Produced δ) (hgen : s.Genuine p) (hret : s.Returns p.entry p.call)
      (hkeys : op.keys = p.key :: op'.keys)
      (horder : op.pc = .write p ∨ s.persists? op = some p.key) (hasked : t.asked = s.asked)
      (hpers : t.persisted = s.persisted ++ [p])
      (hstore : t.writes = s.writes ∧ t.store = s.store ∧
          (s.persistent = true → s.store.latest p.snapshot.id = some p.snapshot) ∨
        t.writes = s.writes ++ [p] ∧ t.store = s.store.upsertLatest p.snapshot)
      (hwrite : ∀ q, op'.pc ≠ .write q)

/-- An operation that has not begun or is over has no snapshots. -/
def Settled (op : Op ι ο δ) : Prop :=
  (op.pc = .start ∨ ∃ result, op.pc = .done result) → op.frame.got = []

/-- The step of operation `j` from `op` keeps account of its keys. -/
def Passes (s t : Core ι ο δ) (j : ℕ) (op : Op ι ο δ) : Prop :=
  ∃ op', t.ops = s.ops.set j op' ∧ Settled op' ∧
    (∀ p ∈ op'.got, p ∈ op.got ∨ s.Returns p.entry p.call) ∧ Custody s t op op'

theorem passes_nextRead {op : Op ι ο δ} {seen : ℕ} {todo : List ℕ} {reads : List (SnapshotRead δ)}
    (base given : List (ℕ × ℕ)) (hkeys : op.keys = base ++ given)
    (hbase : (Frame.listResources seen [] reads [] : Frame ι ο δ).got.map Produced.key = base)
    (hgot : ∀ p ∈ (Frame.listResources seen [] reads [] : Frame ι ο δ).got,
      p ∈ op.got ∨ s.Returns p.entry p.call)
    (hgiven : ∀ key ∈ given, s.NoSnapshot key.1 key.2) :
    Passes s (s.nextRead j seen todo reads) j op := by
  cases todo with
  | nil =>
    refine ⟨_, rfl, by simp [Settled], hgot, .keep base given [] hkeys ?_ hgiven (by simp) (by simp)
      (by simp [nextRead, setOp]) rfl rfl rfl (by simp)⟩
    simpa [Op.keys, Op.got] using hbase
  | cons i todo =>
    refine ⟨_, rfl, by simp [Settled], hgot, .keep base given [(i, s.nextCall i)] hkeys ?_ hgiven
      (by simp) (by simp) rfl rfl rfl rfl (by simp)⟩
    rw [← hbase]
    rfl

theorem passes_nextStop {op : Op ι ο δ} {todo : List ℕ} (given : List (ℕ × ℕ))
    (hkeys : op.keys = given) (hgiven : ∀ key ∈ given, s.NoSnapshot key.1 key.2) :
    Passes s (s.nextStop j todo) j op := by
  cases todo with
  | nil =>
    exact ⟨_, rfl, by simp [Settled, Frame.got], by simp [Op.got, Frame.got], .keep [] given [] hkeys
      (by simp [Op.keys, Op.got, Frame.got]) hgiven (by simp) (by simp)
      (by simp [nextStop, setOp]) rfl rfl rfl (by simp)⟩
  | cons i todo =>
    exact ⟨_, rfl, by simp [Settled], by simp [Op.got, Frame.got],
      .keep [] given [(i, s.nextCall i)] hkeys (by simp [Op.keys, Op.got, Frame.got]) hgiven
        (by simp) (by simp) rfl rfl rfl rfl (by simp)⟩

/-- The operation goes to a state without keys, and gives up those it had. -/
theorem passes_setOp {op : Op ι ο δ} {frame : Frame ι ο δ} {pc : Pc ο δ} (given : List (ℕ × ℕ))
    (hkeys : op.keys = given) (hgot : frame.got = []) (hawait : ∀ i k, pc ≠ .await i k)
    (hwrite : ∀ p, pc ≠ .write p) (hgiven : ∀ key ∈ given, s.NoSnapshot key.1 key.2) :
    Passes s (s.setOp j ⟨frame, pc⟩) j op := by
  have hgot' : (⟨frame, pc⟩ : Op ι ο δ).got = [] := by
    cases pc with
    | write p => exact absurd rfl (hwrite p)
    | _ => exact hgot
  refine ⟨_, rfl, fun _ => hgot, by simp [hgot'], .keep [] given [] hkeys ?_ hgiven (by simp)
    (by simp) (by simp [setOp]) rfl rfl rfl (fun p hp => absurd hp (hwrite p))⟩
  unfold Op.keys
  rw [hgot']
  cases pc with
  | await i k => exact absurd rfl (hawait i k)
  | _ => rfl

theorem passes_await {op : Op ι ο δ} {frame : Frame ι ο δ} {i : ℕ} {r : Executor.Request ι}
    (given : List (ℕ × ℕ)) (hkeys : op.keys = given) (hgot : frame.got = [])
    (hgiven : ∀ key ∈ given, s.NoSnapshot key.1 key.2) :
    Passes s (s.await j frame i r) j op := by
  refine ⟨_, rfl, fun _ => hgot, by simp [Op.got, hgot], .keep [] given [(i, s.nextCall i)] hkeys ?_
    hgiven (by simp) (by simp) rfl rfl rfl rfl (by simp)⟩
  simp [Op.keys, Op.got, hgot]

/-- What follows a write has the snapshots of its frame, and writes no more. -/
theorem got_of_afterPersist {frame : Frame ι ο δ} {snapshot : Snapshot δ} {op : Op ι ο δ}
    (h : frame.afterPersist snapshot = some op) : op.got = frame.got ∧
      op.keys = frame.got.map Produced.key ∧ Settled op ∧ ∀ p, op.pc ≠ .write p := by
  unfold Frame.afterPersist at h
  split at h
  · cases h
    exact ⟨rfl, by simp [Op.keys, Op.got, Frame.got], by simp [Settled], by simp⟩
  · cases h
    exact ⟨rfl, by simp [Op.keys, Op.got, Frame.got], fun _ => rfl, by simp⟩
  · cases h
    exact ⟨rfl, by simp [Op.keys, Op.got, Frame.got], fun _ => rfl, by simp⟩
  · cases h

/-- After a write, or where it was not needed, the account of the snapshots is kept. -/
theorem passes_afterPersist {op : Op ι ο δ} {frame : Frame ι ο δ} {p : Produced δ} {u : Core ι ο δ}
    (h : u.afterPersist j frame p = some t) (hops : u.ops = s.ops) (hasked : u.asked = s.asked)
    (hpers : u.persisted = s.persisted) (hgen : s.Genuine p) (hret : s.Returns p.entry p.call)
    (hkeys : op.keys = p.key :: frame.got.map Produced.key) (hgot : frame.got ⊆ op.got)
    (horder : op.pc = .write p ∨ s.persists? op = some p.key)
    (hstore : u.writes = s.writes ∧ u.store = s.store ∧
        (s.persistent = true → s.store.latest p.snapshot.id = some p.snapshot) ∨
      u.writes = s.writes ++ [p] ∧ u.store = s.store.upsertLatest p.snapshot) :
    Passes s t j op := by
  obtain ⟨op', hop', rfl⟩ := afterPersist_some h
  obtain ⟨hgot', hkeys', hset, hwrite⟩ := got_of_afterPersist hop'
  refine ⟨op', by rw [← hops], hset, fun q hq => .inl (hgot (hgot' ▸ hq)),
    .persist p hgen hret (by rw [hkeys, hkeys']) horder hasked ?_ hstore hwrite⟩
  show u.persisted ++ [p] = s.persisted ++ [p]
  rw [hpers]

theorem nextCall_set {i : ℕ} {n m : Registered ι ο δ} (hn : s.entries[i]? = some n)
    (hm : m.actor.calls = n.actor.calls) (i' : ℕ) :
    ({ s with entries := s.entries.set i m } : Core ι ο δ).nextCall i' = s.nextCall i' := by
  unfold nextCall
  by_cases hi : i = i'
  · subst hi
    obtain ⟨hlt, hget⟩ := List.getElem?_eq_some_iff.mp hn
    simp [hlt, hget, hm]
  · simp [hi]

theorem passes_join {i : ℕ} {todo : List ℕ} {n : Registered ι ο δ} (hn : s.entries[i]? = some n) :
    Passes s (s.join j i todo n) j ⟨.shutdown todo, .join i⟩ := by
  unfold join
  cases todo with
  | nil =>
    exact ⟨_, rfl, fun _ => rfl, by simp [Op.got, Frame.got],
      .keep [] [] [] (by simp [Op.keys, Op.got, Frame.got]) (by simp [Op.keys, Op.got, Frame.got])
        (by simp) (by simp) (by simp) (by simp [nextStop, setOp]) rfl rfl rfl (by simp)⟩
  | cons i' todo =>
    refine ⟨_, rfl, fun _ => rfl, by simp [Op.got, Frame.got],
      .keep [] [] [(i', s.nextCall i')] (by simp [Op.keys, Op.got, Frame.got]) ?_ (by simp) (by simp)
        (by simp) ?_ rfl rfl rfl (by simp)⟩
    · simp only [Op.keys, Op.got, Frame.got, List.map_nil, List.nil_append]
      rw [nextCall_set hn]
      split <;> rfl
    · simp only [nextStop, await]
      rw [nextCall_set hn]
      split <;> rfl

/-! ### The order of production -/

/-- An actor has produced the snapshots its log says it returned. -/
theorem mem_produced {n : Registered ι ο δ} {k : ℕ} :
    k ∈ n.produced ↔ ∃ reply, .ended (.snapshot k) (.snapshot (.ok reply)) ∈ n.actor.log := by
  rw [Registered.produced, List.mem_filterMap]
  constructor
  · rintro ⟨r, hr, heq⟩
    unfold produced? at heq
    split at heq
    · cases heq
      exact ⟨_, hr⟩
    · cases heq
  · rintro ⟨reply, hr⟩
    exact ⟨_, hr, rfl⟩

theorem Registered.Grows.produced {n n' : Registered ι ο δ} (h : n.Grows n') :
    n.produced <+: n'.produced := by
  obtain ⟨rest, hrest⟩ := h.log
  rw [Registered.produced, Registered.produced, ← hrest, List.filterMap_append]
  exact List.prefix_append _ _

theorem Genuine.mem_produced {p : Produced δ} {n : Registered ι ο δ} (h : s.Genuine p)
    (hn : s.entries[p.entry]? = some n) : p.call ∈ n.produced := by
  obtain ⟨n', reply, hn', hlog, -⟩ := h
  obtain rfl : n = n' := Option.some.inj (hn.symm.trans hn')
  exact Core.mem_produced.mpr ⟨reply, hlog⟩

/-- The position of what was produced does not change, and that of the rest only grows. -/
theorem idxOf_grows {l l' : List ℕ} (h : l <+: l') {k : ℕ} (hk : k ∈ l) (k' : ℕ) :
    l'.idxOf k = l.idxOf k ∧ l.idxOf k' ≤ l'.idxOf k' := by
  refine ⟨?_, h.idxOf_le k'⟩
  obtain ⟨rest, rfl⟩ := h
  exact List.idxOf_append_of_mem hk

theorem idxOf_lt_of_not_mem {l : List ℕ} {k k' : ℕ} (hk : k ∈ l) (hk' : k' ∉ l) :
    l.idxOf k < l.idxOf k' := by
  rw [List.idxOf_eq_length hk']
  exact List.idxOf_lt_length_of_mem hk

theorem idxOf_lt_of_le {l : List ℕ} {k k' : ℕ} (hk : k ∈ l) (hne : k ≠ k')
    (hle : l.idxOf k ≤ l.idxOf k') : l.idxOf k < l.idxOf k' := by
  by_cases hk' : k' ∈ l
  · rcases Nat.lt_or_eq_of_le hle with h | h
    · exact h
    · exact absurd ((List.idxOf_inj hk).mp h) hne
  · exact idxOf_lt_of_not_mem hk hk'

theorem Returns.grows {i k : ℕ} (h : s.Returns i k) (hg : Grows s t) : t.Returns i k := by
  obtain ⟨n, c, ans, hn, hc, hp⟩ := h
  obtain ⟨n', hn', hgn⟩ := hg.entries i n hn
  obtain ⟨c', hc', -, hover⟩ := hgn.calls k c hc
  obtain rfl : c' = c := hover (.inl ⟨ans, hp⟩)
  exact ⟨n', c', ans, hn', hc', hp⟩

theorem NoSnapshot.grows {i k : ℕ} (h : s.NoSnapshot i k) (hg : Grows s t) : t.NoSnapshot i k := by
  obtain ⟨n, c, ans, hn, hc, hp, hne⟩ := h
  obtain ⟨n', hn', hgn⟩ := hg.entries i n hn
  obtain ⟨c', hc', -, hover⟩ := hgn.calls k c hc
  obtain rfl : c' = c := hover (.inl ⟨ans, hp⟩)
  exact ⟨n', c', ans, hn', hc', hp, hne⟩

/-- A call counts as abandoned exactly when its caller has dropped it. -/
theorem abandoned_iff {i k : ℕ} : s.abandoned i k = true ↔
    ∃ n c, s.entries[i]? = some n ∧ n.actor.calls[k]? = some c ∧ c.phase = .abandoned := by
  unfold abandoned
  rw [Option.any_eq_true]
  constructor
  · rintro ⟨c, hc, hp⟩
    obtain ⟨n, hn, hc⟩ := Option.bind_eq_some_iff.mp hc
    refine ⟨n, c, hn, hc, ?_⟩
    split at hp
    · assumption
    · cases hp
  · rintro ⟨n, c, hn, hc, hp⟩
    exact ⟨c, Option.bind_eq_some_iff.mpr ⟨n, hn, hc⟩, by simp [hp]⟩

theorem abandoned_grows {i k : ℕ} (hg : Grows s t) (h : t.abandoned i k = false) :
    s.abandoned i k = false := by
  by_contra hs
  rw [Bool.not_eq_false] at hs
  obtain ⟨n, c, hn, hc, hp⟩ := abandoned_iff.mp hs
  obtain ⟨n', hn', hgn⟩ := hg.entries i n hn
  obtain ⟨c', hc', -, hover⟩ := hgn.calls k c hc
  obtain rfl : c' = c := hover (.inr hp)
  rw [abandoned_iff.mpr ⟨n', c', hn', hc', hp⟩] at h
  cases h

theorem Returns.not_abandoned {i k : ℕ} (h : s.Returns i k) : s.abandoned i k = false := by
  by_contra hs
  rw [Bool.not_eq_false] at hs
  obtain ⟨n, c, hn, hc, hp⟩ := abandoned_iff.mp hs
  obtain ⟨n', c', ans, hn', hc', hp'⟩ := h
  obtain rfl : n = n' := Option.some.inj (hn.symm.trans hn')
  obtain rfl : c = c' := Option.some.inj (hc.symm.trans hc')
  rw [hp] at hp'
  cases hp'

/-- A call that returned without a snapshot got none. -/
theorem Wf.not_produced (hwf : s.Wf) {i k : ℕ} {n : Registered ι ο δ} (hn : s.entries[i]? = some n)
    (h : s.NoSnapshot i k) : k ∉ n.produced := by
  intro hmem
  obtain ⟨reply, hlog⟩ := mem_produced.mp hmem
  obtain ⟨n', c, ans, hn', hc, hp, hne⟩ := h
  obtain rfl : n = n' := Option.some.inj (hn.symm.trans hn')
  have hs := hwf.sound i n hn
  have henq := Executor.mem_enqueued_of_mem_received (hs.mem_received_of_ended hlog)
  obtain ⟨c', hc', hcmd, -⟩ := hs.owned.sent _ henq
  obtain rfl : c = c' := Option.some.inj (hc.symm.trans hc')
  have hr : c.request = .snapshot := by
    cases hreq : c.request <;> simp [hreq, Executor.Request.command] at hcmd ⊢
  have hended : .ended (c.request.command k) (.snapshot (.ok reply)) ∈ n.actor.log := by
    rw [hr]
    exact hlog
  have hphase := hs.phase_of_ended hc (by simp [hr]) hended
  simp only [hp, reduceCtorEq, false_or, or_false, Executor.Phase.returned.injEq] at hphase
  exact hne reply hphase

theorem Wf.nextCall_not_produced (hwf : s.Wf) {i : ℕ} {n : Registered ι ο δ}
    (hn : s.entries[i]? = some n) : s.nextCall i ∉ n.produced := by
  intro hmem
  obtain ⟨reply, hlog⟩ := mem_produced.mp hmem
  exact not_ended_nextCall hwf hn _ hlog

/-! ### The invariant -/

/-- An operation has the key, and its caller has not left. -/
def Held (s : Core ι ο δ) (i k : ℕ) : Prop :=
  (∃ (j : ℕ) (op : Op ι ο δ), s.ops[j]? = some op ∧ (i, k) ∈ op.keys) ∧ s.abandoned i k = false

/-- Call `k` of entry `i` was made. -/
def Known (s : Core ι ο δ) (i k : ℕ) : Prop :=
  ∃ n c, s.entries[i]? = some n ∧ n.actor.calls[k]? = some c

/-- Every key is with one operation, was persisted, or got no snapshot. -/
structure KeysOk (s : Core ι ο δ) : Prop where
  settled : ∀ (j : ℕ) (op : Op ι ο δ), s.ops[j]? = some op → Settled op
  returned : ∀ (j : ℕ) (op : Op ι ο δ), s.ops[j]? = some op →
    ∀ p ∈ op.got, s.Returns p.entry p.call
  known : ∀ key ∈ s.asked, s.Known key.1 key.2
  asked : ∀ (j : ℕ) (op : Op ι ο δ), s.ops[j]? = some op → ∀ key ∈ op.keys, key ∈ s.asked
  nodup : ∀ (j : ℕ) (op : Op ι ο δ), s.ops[j]? = some op → op.keys.Nodup
  disjoint : ∀ (j j' : ℕ) (op op' : Op ι ο δ), s.ops[j]? = some op → s.ops[j']? = some op' →
    j ≠ j' → ∀ key ∈ op.keys, key ∉ op'.keys
  persisted : ∀ p ∈ s.persisted, s.Genuine p ∧ p.key ∈ s.asked
  complete : ∀ key ∈ s.asked, (∃ p ∈ s.persisted, p.key = key) ∨
    (∃ (j : ℕ) (op : Op ι ο δ), s.ops[j]? = some op ∧ key ∈ op.keys) ∨ s.NoSnapshot key.1 key.2

/-- What was persisted is older than what the operations have, and was persisted in order. -/
structure OrderOk (s : Core ι ο δ) : Prop where
  older : ∀ p ∈ s.persisted, ∀ (n : Registered ι ο δ), s.entries[p.entry]? = some n →
    ∀ k, s.Held p.entry k → n.produced.idxOf p.call < n.produced.idxOf k
  writing : ∀ (j : ℕ) (op : Op ι ο δ) (p : Produced δ), s.ops[j]? = some op → op.pc = .write p →
    ∀ (n : Registered ι ο δ), s.entries[p.entry]? = some n →
      ∀ k, s.Held p.entry k → n.produced.idxOf p.call ≤ n.produced.idxOf k
  sorted : ∀ (i : ℕ) (n : Registered ι ο δ), s.entries[i]? = some n →
    (s.persisted.filter fun p => p.entry = i).Pairwise fun p q =>
      n.produced.idxOf p.call < n.produced.idxOf q.call
  sublist : List.Sublist s.writes s.persisted
  stored : s.persistent = true → ∀ (i : ℕ) (n : Registered ι ο δ) (p : Produced δ),
    s.entries[i]? = some n → (s.persisted.filter fun p => p.entry = i).getLast? = some p →
      s.store.latest n.entry.id = some p.snapshot

/-- A step that moves no operation. -/
structure Idle (s t : Core ι ο δ) : Prop where
  grows : Grows s t
  ops : ∀ (j : ℕ) (op : Op ι ο δ), t.ops[j]? = some op → s.ops[j]? = some op ∨
    op.got = [] ∧ op.keys = [] ∧ Settled op ∧ ∀ p, op.pc ≠ .write p
  back : ∀ (j : ℕ) (op : Op ι ο δ), s.ops[j]? = some op → t.ops[j]? = some op
  asked : t.asked = s.asked
  persisted : t.persisted = s.persisted
  writes : t.writes = s.writes
  store : t.store = s.store

theorem Known.grows {i k : ℕ} (h : s.Known i k) (hg : Grows s t) : t.Known i k := by
  obtain ⟨n, c, hn, hc⟩ := h
  obtain ⟨n', hn', hgn⟩ := hg.entries i n hn
  obtain ⟨c', hc', -⟩ := hgn.calls k c hc
  exact ⟨n', c', hn', hc'⟩

theorem not_known_nextCall (s : Core ι ο δ) (i : ℕ) : ¬ s.Known i (s.nextCall i) := by
  rintro ⟨n, c, hn, hc⟩
  have hlt := (List.getElem?_eq_some_iff.mp hc).1
  simp [nextCall, hn] at hlt

theorem Held.idle {i k : ℕ} (h : t.Held i k) (hi : Idle s t) : s.Held i k := by
  obtain ⟨⟨j, op, hop, hmem⟩, hab⟩ := h
  rcases hi.ops j op hop with hop | ⟨-, hkeys, -⟩
  · exact ⟨⟨j, op, hop, hmem⟩, abandoned_grows hi.grows hab⟩
  · simp [hkeys] at hmem

/-- A step that persists nothing keeps the keys. -/
theorem KeysOk.idle (h : s.KeysOk) (hi : Idle s t) : t.KeysOk where
  -- an idle step persists nothing and asks for no key, so each field carries over
  settled j op hop := by
    rcases hi.ops j op hop with hop | ⟨-, -, hset, -⟩
    · exact h.settled j op hop
    · exact hset
  returned j op hop p hp := by
    rcases hi.ops j op hop with hop | ⟨hgot, -⟩
    · exact (h.returned j op hop p hp).grows hi.grows
    · simp [hgot] at hp
  known key hkey := by
    rw [hi.asked] at hkey
    exact (h.known key hkey).grows hi.grows
  asked j op hop key hkey := by
    rw [hi.asked]
    rcases hi.ops j op hop with hop | ⟨-, hkeys, -⟩
    · exact h.asked j op hop key hkey
    · simp [hkeys] at hkey
  nodup j op hop := by
    rcases hi.ops j op hop with hop | ⟨-, hkeys, -⟩
    · exact h.nodup j op hop
    · simp [hkeys]
  disjoint j j' op op' hop hop' hne key hkey := by
    rcases hi.ops j op hop with hop | ⟨-, hkeys, -⟩
    · rcases hi.ops j' op' hop' with hop' | ⟨-, hkeys', -⟩
      · exact h.disjoint j j' op op' hop hop' hne key hkey
      · simp [hkeys']
    · simp [hkeys] at hkey
  persisted p hp := by
    rw [hi.persisted] at hp
    rw [hi.asked]
    exact ⟨(h.persisted p hp).1.grows hi.grows, (h.persisted p hp).2⟩
  complete key hkey := by
    rw [hi.asked] at hkey
    rw [hi.persisted]
    rcases h.complete key hkey with hp | ⟨j, op, hop, hk⟩ | hno
    · exact .inl hp
    · exact .inr (.inl ⟨j, op, hi.back j op hop, hk⟩)
    · exact .inr (.inr (hno.grows hi.grows))

/-- An entry of the snapshots that were persisted was there already. -/
theorem Genuine.entry_grows {p : Produced δ} {n' : Registered ι ο δ} (h : s.Genuine p)
    (hg : Grows s t) (hn' : t.entries[p.entry]? = some n') :
    ∃ n, s.entries[p.entry]? = some n ∧ n.Grows n' := by
  obtain ⟨n, reply, hn, -⟩ := h
  obtain ⟨n'', hn'', hgn⟩ := hg.entries p.entry n hn
  obtain rfl : n' = n'' := Option.some.inj (hn'.symm.trans hn'')
  exact ⟨n, hn, hgn⟩

/-- A step that persists nothing keeps the order. -/
theorem OrderOk.idle (h : s.OrderOk) (hk : s.KeysOk) (hwf : s.Wf) (hi : Idle s t) : t.OrderOk where
  older p hp n' hn' k hheld := by
    rw [hi.persisted] at hp
    have hgen := (hk.persisted p hp).1
    obtain ⟨n, hn, hgn⟩ := hgen.entry_grows hi.grows hn'
    -- more snapshots behind both: the order of the two stays
    have hlt := h.older p hp n hn k (hheld.idle hi)
    have hidx := idxOf_grows hgn.produced (hgen.mem_produced hn) k
    omega
  writing j op p hop hpc n' hn' k hheld := by
    rcases hi.ops j op hop with hop | ⟨-, -, -, hw⟩
    · have hgen := (hwf.ops j op hop).got p (by simp [Op.got, hpc])
      obtain ⟨n, hn, hgn⟩ := hgen.entry_grows hi.grows hn'
      have hle := h.writing j op p hop hpc n hn k (hheld.idle hi)
      have hidx := idxOf_grows hgn.produced (hgen.mem_produced hn) k
      omega
    · -- a step that writes is not idle
      exact absurd hpc (hw p)
  sorted i n' hn' := by
    rw [hi.persisted]
    -- an entry that did not exist before has nothing persisted
    rcases hn : s.entries[i]? with _ | n
    · have hnil : s.persisted.filter (fun p => p.entry = i) = [] := by
        rw [List.filter_eq_nil_iff]
        intro p hp hpi
        obtain ⟨m, reply, hm, -⟩ := (hk.persisted p hp).1
        rw [of_decide_eq_true hpi, hn] at hm
        cases hm
      simp [hnil]
    · obtain ⟨n'', hn'', hgn⟩ := hi.grows.entries i n hn
      obtain rfl : n' = n'' := Option.some.inj (hn'.symm.trans hn'')
      have hmem : ∀ p ∈ s.persisted.filter (fun p => p.entry = i), p.call ∈ n.produced := by
        intro p hp
        obtain ⟨hp, hpi⟩ := List.mem_filter.mp hp
        exact (hk.persisted p hp).1.mem_produced (by rw [of_decide_eq_true hpi, hn])
      refine (h.sorted i n hn).imp_of_mem fun {p q} hp hq hlt => ?_
      have hidx := idxOf_grows hgn.produced (hmem p hp) q.call
      omega
  sublist := by rw [hi.writes, hi.persisted]; exact h.sublist
  stored hpers i n' p hn' hlast := by
    rw [hi.persisted] at hlast
    rw [hi.grows.persistent] at hpers
    obtain ⟨hp, hpi⟩ := List.mem_filter.mp (List.mem_of_getLast? hlast)
    have hpi' : p.entry = i := of_decide_eq_true hpi
    subst hpi'
    obtain ⟨n, hn, hgn⟩ := (hk.persisted p hp).1.entry_grows hi.grows hn'
    rw [hi.store, hgn.entry]
    exact h.stored hpers p.entry n p hn hlast

/-! ### Steps of an operation -/

/-- An operation holds only keys the node knows. -/
theorem known_of_keys {op : Op ι ο δ} (ho : s.OpWf op)
    (hret : ∀ p ∈ op.got, s.Returns p.entry p.call) : ∀ key ∈ op.keys, s.Known key.1 key.2 := by
  intro key hkey
  rcases List.mem_append.mp hkey with hkey | hkey
  · obtain ⟨p, hp, rfl⟩ := List.mem_map.mp hkey
    obtain ⟨n, c, ans, hn, hc, -⟩ := hret p hp
    exact ⟨n, c, hn, hc⟩
  · split at hkey
    · rename_i i k hpc
      obtain rfl := List.mem_singleton.mp hkey
      obtain ⟨n, c, hn, hc, -⟩ := ho.await i k hpc
      exact ⟨n, c, hn, hc⟩
    · simp at hkey

/-- The key of a new call was not asked for before. -/
theorem KeysOk.not_asked (h : s.KeysOk) {key : ℕ × ℕ} (hkey : key.2 = s.nextCall key.1) :
    key ∉ s.asked := by
  intro hmem
  have hknown := h.known key hmem
  rw [hkey] at hknown
  exact not_known_nextCall s key.1 hknown

theorem Custody.keys_subset {op op' : Op ι ο δ} (h : Custody s t op op') :
    ∀ key ∈ op'.keys, key ∈ op.keys ∨ key.2 = s.nextCall key.1 ∧ key ∈ t.asked := by
  intro key hkey
  cases h with
  | keep base given fresh hkeys hkeys' _ hfresh _ hasked _ _ _ _ =>
    rw [hkeys'] at hkey
    rcases List.mem_append.mp hkey with hkey | hkey
    · exact .inl (by rw [hkeys]; exact List.mem_append_left _ hkey)
    · exact .inr ⟨hfresh key hkey, by rw [hasked]; exact List.mem_append_right _ hkey⟩
  | persist p _ _ hkeys _ _ _ _ _ =>
    exact .inl (by rw [hkeys]; exact List.mem_cons_of_mem _ hkey)

theorem Custody.asked_subset {op op' : Op ι ο δ} (h : Custody s t op op') :
    ∀ key ∈ s.asked, key ∈ t.asked := by
  intro key hkey
  cases h with
  | keep _ _ _ _ _ _ _ _ hasked _ _ _ _ => rw [hasked]; exact List.mem_append_left _ hkey
  | persist _ _ _ _ _ hasked _ _ _ => rwa [hasked]

theorem Custody.asked_cases {op op' : Op ι ο δ} (h : Custody s t op op') :
    ∀ key ∈ t.asked, key ∈ s.asked ∨ key ∈ op'.keys := by
  intro key hkey
  cases h with
  | keep base given fresh _ hkeys' _ _ _ hasked _ _ _ _ =>
    rw [hasked] at hkey
    rw [hkeys', List.mem_append]
    exact (List.mem_append.mp hkey).imp id .inr
  | persist _ _ _ _ _ hasked _ _ _ => rw [hasked] at hkey; exact .inl hkey

/-- A key that the operation gives up was persisted or got no snapshot. -/
theorem Custody.given_up {op op' : Op ι ο δ} (h : Custody s t op op') :
    ∀ key ∈ op.keys, key ∈ op'.keys ∨ (∃ p ∈ t.persisted, p.key = key) ∨
      s.NoSnapshot key.1 key.2 := by
  intro key hkey
  cases h with
  | keep base given fresh hkeys hkeys' hgiven _ _ _ _ _ _ _ =>
    rw [hkeys] at hkey
    rcases List.mem_append.mp hkey with hkey | hkey
    · exact .inl (by rw [hkeys']; exact List.mem_append_left _ hkey)
    · exact .inr (.inr (hgiven key hkey))
  | persist p _ _ hkeys _ _ hpers _ _ =>
    rw [hkeys] at hkey
    rcases List.mem_cons.mp hkey with rfl | hkey
    · exact .inr (.inl ⟨p, by rw [hpers]; simp, rfl⟩)
    · exact .inl hkey

theorem Custody.persisted_cases {op op' : Op ι ο δ} (h : Custody s t op op') :
    ∀ p ∈ t.persisted, p ∈ s.persisted ∨ s.Genuine p ∧ p.key ∈ op.keys := by
  intro p hp
  cases h with
  | keep _ _ _ _ _ _ _ _ _ hpers _ _ _ => rw [hpers] at hp; exact .inl hp
  | persist q hgen _ hkeys _ _ hpers _ _ =>
    rw [hpers] at hp
    rcases List.mem_append.mp hp with hp | hp
    · exact .inl hp
    · obtain rfl := List.mem_singleton.mp hp
      exact .inr ⟨hgen, by rw [hkeys]; exact List.mem_cons_self⟩

theorem Custody.persisted_subset {op op' : Op ι ο δ} (h : Custody s t op op') :
    ∀ p ∈ s.persisted, p ∈ t.persisted := by
  intro p hp
  cases h with
  | keep _ _ _ _ _ _ _ _ _ hpers _ _ _ => rwa [hpers]
  | persist _ _ _ _ _ _ hpers _ _ => rw [hpers]; exact List.mem_append_left _ hp

/-- An operation never holds one key twice. -/
theorem Custody.nodup {op op' : Op ι ο δ} (h : Custody s t op op') (hk : s.KeysOk)
    (hnd : op.keys.Nodup) (hasked : ∀ key ∈ op.keys, key ∈ s.asked) : op'.keys.Nodup := by
  cases h with
  | keep base given fresh hkeys hkeys' _ hfresh hlen _ _ _ _ _ =>
    rw [hkeys] at hnd hasked
    rw [hkeys', List.nodup_append]
    refine ⟨(List.nodup_append.mp hnd).1, ?_, ?_⟩
    · match fresh, hlen with
      | [], _ => exact List.nodup_nil
      | [key], _ => exact List.nodup_singleton key
    · rintro key hkey _ hkey' rfl
      exact hk.not_asked (hfresh key hkey') (hasked key (List.mem_append_left _ hkey))
  | persist p _ _ hkeys _ _ _ _ _ =>
    rw [hkeys] at hnd
    exact (List.nodup_cons.mp hnd).2

/-- A step of operation `j` keeps the account of the keys. -/
theorem KeysOk.passes {op : Op ι ο δ} (h : s.KeysOk) (hwf' : t.Wf) (hg : Grows s t)
    (hop : s.ops[j]? = some op) (hp : Passes s t j op) : t.KeysOk := by
  obtain ⟨op', hops, hset, hgot, hc⟩ := hp
  have hop' : t.ops[j]? = some op' := by
    rw [hops, List.getElem?_set_self (List.getElem?_eq_some_iff.mp hop).1]
  have hret : ∀ p ∈ op'.got, t.Returns p.entry p.call := by
    intro p hp
    rcases hgot p hp with hp | hp
    · exact (h.returned j op hop p hp).grows hg
    · exact hp.grows hg
  have hasked : ∀ key ∈ op'.keys, key ∈ t.asked := by
    intro key hkey
    rcases hc.keys_subset key hkey with hkey | ⟨-, hkey⟩
    · exact hc.asked_subset key (h.asked j op hop key hkey)
    · exact hkey
  -- no other operation has a key of the one that moved
  have hother : ∀ (j' : ℕ) (o : Op ι ο δ), j' ≠ j → s.ops[j']? = some o →
      ∀ key ∈ op'.keys, key ∉ o.keys := by
    intro j' o hne ho key hkey hmem
    rcases hc.keys_subset key hkey with hkey | ⟨hkey, -⟩
    · exact h.disjoint j j' op o hop ho hne.symm key hkey hmem
    · exact h.not_asked hkey (h.asked j' o ho key hmem)
  constructor
  case settled =>
    intro j' o ho
    rcases ops_set_cases hops ho with ⟨-, rfl⟩ | ⟨-, ho⟩
    · exact hset
    · exact h.settled j' o ho
  case returned =>
    intro j' o ho
    rcases ops_set_cases hops ho with ⟨-, rfl⟩ | ⟨-, ho⟩
    · exact hret
    · exact fun p hp => (h.returned j' o ho p hp).grows hg
  case known =>
    intro key hkey
    rcases hc.asked_cases key hkey with hkey | hkey
    · exact (h.known key hkey).grows hg
    · exact known_of_keys (hwf'.ops j op' hop') hret key hkey
  case asked =>
    intro j' o ho
    rcases ops_set_cases hops ho with ⟨-, rfl⟩ | ⟨-, ho⟩
    · exact hasked
    · exact fun key hkey => hc.asked_subset key (h.asked j' o ho key hkey)
  case nodup =>
    intro j' o ho
    rcases ops_set_cases hops ho with ⟨-, rfl⟩ | ⟨-, ho⟩
    · exact hc.nodup h (h.nodup j op hop) (h.asked j op hop)
    · exact h.nodup j' o ho
  case disjoint =>
    intro j₁ j₂ o₁ o₂ ho₁ ho₂ hne key hkey hmem
    rcases ops_set_cases hops ho₁ with ⟨rfl, rfl⟩ | ⟨hj₁, ho₁⟩
    · rcases ops_set_cases hops ho₂ with ⟨rfl, rfl⟩ | ⟨hj₂, ho₂⟩
      · exact hne rfl
      · exact hother j₂ o₂ hj₂ ho₂ key hkey hmem
    · rcases ops_set_cases hops ho₂ with ⟨rfl, rfl⟩ | ⟨-, ho₂⟩
      · exact hother j₁ o₁ hj₁ ho₁ key hmem hkey
      · exact h.disjoint j₁ j₂ o₁ o₂ ho₁ ho₂ hne key hkey hmem
  case persisted =>
    intro p hp
    rcases hc.persisted_cases p hp with hp | ⟨hgen, hkey⟩
    · exact ⟨(h.persisted p hp).1.grows hg, hc.asked_subset _ (h.persisted p hp).2⟩
    · exact ⟨hgen.grows hg, hc.asked_subset _ (h.asked j op hop _ hkey)⟩
  case complete =>
    intro key hkey
    rcases hc.asked_cases key hkey with hkey | hkey
    · rcases h.complete key hkey with ⟨p, hp, rfl⟩ | ⟨j', o, ho, hkey⟩ | hno
      · exact .inl ⟨p, hc.persisted_subset p hp, rfl⟩
      · by_cases hj : j' = j
        · subst hj
          obtain rfl : o = op := Option.some.inj (ho.symm.trans hop)
          rcases hc.given_up key hkey with hkey | hp | hno
          · exact .inr (.inl ⟨j', op', hop', hkey⟩)
          · exact .inl hp
          · exact .inr (.inr (hno.grows hg))
        · refine .inr (.inl ⟨j', o, ?_, hkey⟩)
          rw [hops, List.getElem?_set_ne (Ne.symm hj), ho]
      · exact .inr (.inr (hno.grows hg))
    · exact .inr (.inl ⟨j, op', hop', hkey⟩)

/-- The operation that moves holds what was held, and calls that are not answered. -/
theorem Passes.held {op : Op ι ο δ} (hp : Passes s t j op) (hwf : s.Wf) (hg : Grows s t)
    (hop : s.ops[j]? = some op) {i k : ℕ} {n : Registered ι ο δ} (hn : s.entries[i]? = some n)
    (h : t.Held i k) : s.Held i k ∨ k ∉ n.produced := by
  obtain ⟨op', hops, -, -, hc⟩ := hp
  obtain ⟨⟨j', o, ho, hmem⟩, hab⟩ := h
  have hab := abandoned_grows hg hab
  rcases ops_set_cases hops ho with ⟨-, rfl⟩ | ⟨-, ho⟩
  · rcases hc.keys_subset _ hmem with hmem | ⟨hkey, -⟩
    · exact .inl ⟨⟨j, op, hop, hmem⟩, hab⟩
    · obtain rfl : k = s.nextCall i := hkey
      exact .inr (hwf.nextCall_not_produced hn)
  · exact .inl ⟨⟨j', o, ho, hmem⟩, hab⟩

theorem Registered.Keeps.produced {n n' : Registered ι ο δ} (h : n.Keeps n') :
    n'.produced = n.produced := by
  rw [Registered.produced, Registered.produced, h.log]

theorem Genuine.entry_keeps {p : Produced δ} {n' : Registered ι ο δ} (hk : Keeps s t)
    (hn' : t.entries[p.entry]? = some n') (h : t.Genuine p) :
    ∃ n, s.entries[p.entry]? = some n ∧ n'.produced = n.produced ∧ p.call ∈ n.produced := by
  obtain ⟨n, hn, hkeeps⟩ := hk.back hn'
  have hmem := h.mem_produced hn'
  rw [hkeeps.produced] at hmem
  exact ⟨n, hn, hkeeps.produced, hmem⟩

theorem le_of_oldest {i k k' : ℕ} {n : Registered ι ο δ} (h : s.oldest i k = true)
    (hn : s.entries[i]? = some n) (hheld : s.Held i k') :
    n.produced.idxOf k ≤ n.produced.idxOf k' := by
  obtain ⟨⟨j, op, hop, hmem⟩, hab⟩ := hheld
  simp only [oldest, hn, Option.all_some, List.all_eq_true] at h
  have := h op (List.mem_of_getElem? hop) (i, k') hmem
  simpa [hab] using this

/-- What the operation persists next is the oldest that is held. -/
theorem OrderOk.first {op : Op ι ο δ} {p : Produced δ} {n : Registered ι ο δ} (h : s.OrderOk)
    (hop : s.ops[j]? = some op)
    (hold : ∀ key, s.persists? op = some key → s.oldest key.1 key.2 = true)
    (hfirst : op.pc = .write p ∨ s.persists? op = some p.key)
    (hn : s.entries[p.entry]? = some n) :
    ∀ k, s.Held p.entry k → n.produced.idxOf p.call ≤ n.produced.idxOf k := by
  intro k hheld
  rcases hfirst with hpc | hpers
  · exact h.writing j op p hop hpc n hn k hheld
  · exact le_of_oldest (hold p.key hpers) hn hheld

/-- The key that the operation gave up with its snapshot is with no other. -/
theorem KeysOk.not_mem_of_persist {op op' : Op ι ο δ} {p : Produced δ} (h : s.KeysOk)
    (hop : s.ops[j]? = some op) (hops : t.ops = s.ops.set j op')
    (hkeys : op.keys = p.key :: op'.keys) :
    ∀ (j' : ℕ) (o : Op ι ο δ), t.ops[j']? = some o → p.key ∉ o.keys := by
  intro j' o ho hmem
  rcases ops_set_cases hops ho with ⟨-, rfl⟩ | ⟨hne, ho⟩
  · have hnd := h.nodup j op hop
    rw [hkeys] at hnd
    exact (List.nodup_cons.mp hnd).1 hmem
  · exact h.disjoint j j' op o hop ho hne.symm p.key (by rw [hkeys]; simp) hmem

/-- What has been persisted is older than what is still held, after a move as before it. -/
theorem Passes.older {op : Op ι ο δ} (hp : Passes s t j op) (h : s.OrderOk) (hkeys : s.KeysOk)
    (hkeys' : t.KeysOk) (hwf : s.Wf) (hk : Keeps s t) (hop : s.ops[j]? = some op)
    (hold : ∀ key, s.persists? op = some key → s.oldest key.1 key.2 = true) :
    ∀ p ∈ t.persisted, ∀ (n' : Registered ι ο δ), t.entries[p.entry]? = some n' →
      ∀ k, t.Held p.entry k → n'.produced.idxOf p.call < n'.produced.idxOf k := by
  intro p hmem n' hn' k hheld
  obtain ⟨n, hn, heq, hprod⟩ := (hkeys'.persisted p hmem).1.entry_keeps hk hn'
  rw [heq]
  -- the key that is held was held before, or is new and behind everything produced
  rcases hp.held hwf hk.grows hop hn hheld with hheld' | hnot
  · obtain ⟨op', hops, -, -, hc⟩ := hp
    cases hc with
    | keep _ _ _ _ _ _ _ _ _ hpers _ _ _ =>
      rw [hpers] at hmem
      exact h.older p hmem n hn k hheld'
    | persist q hgen hret hsplit hfirst _ hpers _ _ =>
      rw [hpers] at hmem
      rcases List.mem_append.mp hmem with hmem | hmem
      · exact h.older p hmem n hn k hheld'
      · -- the snapshot persisted now is the oldest of its entry
        obtain rfl := List.mem_singleton.mp hmem
        refine idxOf_lt_of_le hprod ?_ (h.first hop hold hfirst hn k hheld')
        -- the same key cannot be held by another operation
        rintro rfl
        obtain ⟨⟨j', o, ho, hkey⟩, -⟩ := hheld
        exact hkeys.not_mem_of_persist hop hops hsplit j' o ho hkey
  · exact idxOf_lt_of_not_mem hprod hnot

/-- What is being written is at most as old as what is still held, after a move as before it. -/
theorem Passes.writing {op : Op ι ο δ} (hp : Passes s t j op) (h : s.OrderOk) (hwf : s.Wf)
    (hwf' : t.Wf) (hk : Keeps s t) (hop : s.ops[j]? = some op)
    (hold : ∀ key, s.persists? op = some key → s.oldest key.1 key.2 = true) :
    ∀ (j' : ℕ) (o : Op ι ο δ) (p : Produced δ), t.ops[j']? = some o → o.pc = .write p →
      ∀ (n' : Registered ι ο δ), t.entries[p.entry]? = some n' →
        ∀ k, t.Held p.entry k → n'.produced.idxOf p.call ≤ n'.produced.idxOf k := by
  intro j' o p ho hpc n' hn' k hheld
  have hgen := (hwf'.ops j' o ho).got p (by simp [Op.got, hpc])
  obtain ⟨n, hn, heq, hprod⟩ := hgen.entry_keeps hk hn'
  rw [heq]
  rcases hp.held hwf hk.grows hop hn hheld with hheld | hnot
  · obtain ⟨op', hops, -, -, hc⟩ := hp
    rcases ops_set_cases hops ho with ⟨-, rfl⟩ | ⟨-, ho⟩
    · cases hc with
      | keep _ _ _ _ _ _ _ _ _ _ _ _ hwrite =>
        exact le_of_oldest (hold p.key (hwrite p hpc)) hn hheld
      | persist _ _ _ _ _ _ _ _ hwrite => exact absurd hpc (hwrite p)
    · exact h.writing j' o p ho hpc n hn k hheld
  · exact Nat.le_of_lt (idxOf_lt_of_not_mem hprod hnot)

/-- The snapshots persisted of one actor stand in the order it produced them. -/
theorem Passes.sorted {op : Op ι ο δ} (hp : Passes s t j op) (h : s.OrderOk) (hk : Keeps s t)
    (hop : s.ops[j]? = some op) (i : ℕ) (n' : Registered ι ο δ) (hn' : t.entries[i]? = some n') :
    (t.persisted.filter fun p => p.entry = i).Pairwise fun p q =>
      n'.produced.idxOf p.call < n'.produced.idxOf q.call := by
  obtain ⟨n, hn, hkeeps⟩ := hk.back hn'
  obtain ⟨op', -, -, -, hc⟩ := hp
  rw [hkeeps.produced]
  cases hc with
  | keep _ _ _ _ _ _ _ _ _ hpers _ _ _ => rw [hpers]; exact h.sorted i n hn
  | persist p hgen hret hsplit hfirst _ hpers _ _ =>
    rw [hpers, List.filter_append, List.pairwise_append]
    -- what was persisted before is older than the key that is held now
    refine ⟨h.sorted i n hn, (List.pairwise_singleton _ p).filter _, ?_⟩
    intro q hqf r hrf
    obtain ⟨hq, hqi⟩ := List.mem_filter.mp hqf
    obtain ⟨hr, hri⟩ := List.mem_filter.mp hrf
    obtain rfl := List.mem_singleton.mp hr
    obtain rfl : q.entry = i := of_decide_eq_true hqi
    have hri : r.entry = q.entry := of_decide_eq_true hri
    have hheld : s.Held r.entry r.call :=
      ⟨⟨j, op, hop, by rw [hsplit]; exact List.mem_cons_self⟩, hret.not_abandoned⟩
    rw [hri] at hheld
    exact h.older q hq n hn r.call hheld

/-- What is written is, in order, part of what is persisted. -/
theorem Passes.sublist {op : Op ι ο δ} (hp : Passes s t j op) (h : s.OrderOk) :
    List.Sublist t.writes t.persisted := by
  obtain ⟨op', -, -, -, hc⟩ := hp
  cases hc with
  | keep _ _ _ _ _ _ _ _ _ hpers hwrites _ _ => rw [hpers, hwrites]; exact h.sublist
  | persist p _ _ _ _ _ hpers hstore _ =>
    rw [hpers]
    rcases hstore with ⟨hwrites, -⟩ | ⟨hwrites, -⟩
    · rw [hwrites]
      exact h.sublist.trans (List.sublist_append_left _ _)
    · rw [hwrites]
      exact h.sublist.append (List.Sublist.refl _)

theorem Genuine.id {p : Produced δ} {n : Registered ι ο δ} (h : s.Genuine p)
    (hn : s.entries[p.entry]? = some n) : p.snapshot.id = n.entry.id := by
  obtain ⟨m, reply, hm, -, hp⟩ := h
  obtain rfl : n = m := Option.some.inj (hn.symm.trans hm)
  rw [hp]
  rfl

theorem Wf.entry_inj (h : s.Wf) {i i' : ℕ} {n n' : Registered ι ο δ} (hn : s.entries[i]? = some n)
    (hn' : s.entries[i']? = some n') (hid : n.entry.id = n'.entry.id) : i = i' := by
  have hlt : i < (s.entries.map fun n => n.entry.id).length := by
    rw [List.length_map]
    exact (List.getElem?_eq_some_iff.mp hn).1
  refine (List.getElem?_inj hlt h.ids).mp ?_
  rw [List.getElem?_map, List.getElem?_map, hn, hn', Option.map_some, Option.map_some, hid]

/-- The store has, of each actor, the last snapshot persisted. -/
theorem Passes.stored {op : Op ι ο δ} (hp : Passes s t j op) (h : s.OrderOk) (hwf : s.Wf)
    (hk : Keeps s t) (hpers : t.persistent = true) (i : ℕ) (n' : Registered ι ο δ) (p : Produced δ)
    (hn' : t.entries[i]? = some n')
    (hlast : (t.persisted.filter fun p => p.entry = i).getLast? = some p) :
    t.store.latest n'.entry.id = some p.snapshot := by
  obtain ⟨n, hn, hkeeps⟩ := hk.back hn'
  obtain ⟨op', -, -, -, hc⟩ := hp
  rw [hk.persistent] at hpers
  rw [hkeeps.entry]
  cases hc with
  | keep _ _ _ _ _ _ _ _ _ hsame _ hstore _ =>
    rw [hsame] at hlast
    rw [hstore]
    exact h.stored hpers i n p hn hlast
  | persist q hgen _ _ _ _ hsnoc hstore _ =>
    rw [hsnoc, List.filter_append] at hlast
    -- the last one persisted of `i` is `q`, or as before
    by_cases hq : q.entry = i
    · subst hq
      obtain rfl : q = p := by simpa using hlast
      rcases hstore with ⟨-, hsame, hlatest⟩ | ⟨-, hupsert⟩
      · rw [hsame, ← hgen.id hn]
        exact hlatest hpers
      · rw [hupsert, ← hgen.id hn]
        exact Function.update_self _ _ _
    · have hold : (s.persisted.filter fun p => p.entry = i).getLast? = some p := by
        simpa [hq] using hlast
      have hlatest := h.stored hpers i n p hn hold
      rcases hstore with ⟨-, hsame, -⟩ | ⟨-, hupsert⟩
      · rwa [hsame]
      · -- another entry's snapshot has another id
        have hne : n.entry.id ≠ q.snapshot.id := by
          obtain ⟨m, -, hm, -⟩ := id hgen
          rw [hgen.id hm]
          exact fun hid => hq (hwf.entry_inj hn hm hid).symm
        rw [hupsert]
        exact (Function.update_of_ne hne _ _).trans hlatest

/-- A step of operation `j` that persists in order keeps the order. -/
theorem OrderOk.passes {op : Op ι ο δ} (h : s.OrderOk) (hkeys : s.KeysOk) (hkeys' : t.KeysOk)
    (hwf : s.Wf) (hwf' : t.Wf) (hk : Keeps s t) (hop : s.ops[j]? = some op)
    (hold : ∀ key, s.persists? op = some key → s.oldest key.1 key.2 = true)
    (hp : Passes s t j op) : t.OrderOk where
  older := hp.older h hkeys hkeys' hwf hk hop hold
  writing := hp.writing h hwf hwf' hk hop hold
  sorted := hp.sorted h hk hop
  sublist := hp.sublist h
  stored := hp.stored h hwf hk

/-! ### The stored snapshots -/

/-- What holds along runs that persist in order. -/
structure LatestInv (s : Core ι ο δ) : Prop where
  wf : s.Wf
  keys : s.KeysOk
  order : s.OrderOk

theorem KeysOk.keys_of_done (h : s.KeysOk) {op : Op ι ο δ} {result : Result ο δ}
    (hop : s.ops[j]? = some op) (hpc : op.pc = .done result) : op.keys = [] := by
  have hgot := h.settled j op hop (.inr ⟨result, hpc⟩)
  simp [Op.keys, Op.got, hpc, hgot]

/-- Once all calls have returned, the snapshots they got were persisted. -/
theorem LatestInv.persisted_of_done (h : s.LatestInv)
    (hdone : ∀ op ∈ s.ops, ∃ result, op.pc = .done result) {i k : ℕ} {n : Registered ι ο δ}
    (hn : s.entries[i]? = some n) (hasked : (i, k) ∈ s.asked) (hprod : k ∈ n.produced) :
    ∃ p ∈ s.persisted, p.key = (i, k) := by
  rcases h.keys.complete (i, k) hasked with hp | ⟨j, op, hop, hmem⟩ | hno
  · exact hp
  · obtain ⟨result, hpc⟩ := hdone op (List.mem_of_getElem? hop)
    rw [h.keys.keys_of_done hop hpc] at hmem
    cases hmem
  · exact absurd hprod (h.wf.not_produced hn hno)

/-- What was persisted last of an entry is the newest. -/
theorem OrderOk.le_last (h : s.OrderOk) {i : ℕ} {n : Registered ι ο δ} {p q : Produced δ}
    (hn : s.entries[i]? = some n) (hp : p ∈ s.persisted) (hpi : p.entry = i)
    (hlast : (s.persisted.filter fun p => p.entry = i).getLast? = some q) :
    n.produced.idxOf p.call ≤ n.produced.idxOf q.call := by
  obtain ⟨rest, hrest⟩ := List.getLast?_eq_some_iff.mp hlast
  have hsorted := h.sorted i n hn
  rw [hrest, List.pairwise_append] at hsorted
  have hmem : p ∈ s.persisted.filter fun p => p.entry = i :=
    List.mem_filter.mpr ⟨hp, by simpa using hpi⟩
  rw [hrest] at hmem
  rcases List.mem_append.mp hmem with hmem | hmem
  · exact Nat.le_of_lt (hsorted.2.2 p hmem q (List.mem_singleton_self q))
  · obtain rfl := List.mem_singleton.mp hmem
    exact Nat.le_refl _

/-- With all operations done, the store has the newest snapshot of every actor that was asked for.
-/
theorem LatestInv.latest (h : s.LatestInv) (hpers : s.persistent = true)
    (hdone : ∀ op ∈ s.ops, ∃ result, op.pc = .done result) {i k : ℕ} {n : Registered ι ο δ}
    {reply : Snapshot δ} (hn : s.entries[i]? = some n) (hasked : (i, k) ∈ s.asked)
    (hlog : .ended (.snapshot k) (.snapshot (.ok reply)) ∈ n.actor.log)
    (hnewest : ∀ k' ∈ n.produced, (i, k') ∈ s.asked → n.produced.idxOf k' ≤ n.produced.idxOf k) :
    s.store.latest n.entry.id = some (n.identify s.node reply) := by
  have hprod : k ∈ n.produced := mem_produced.mpr ⟨reply, hlog⟩
  obtain ⟨p, hp, hkey⟩ := h.persisted_of_done hdone hn hasked hprod
  obtain ⟨rfl, rfl⟩ : p.entry = i ∧ p.call = k := Prod.mk.inj hkey
  -- the one that was persisted last is that of the newest call
  obtain ⟨q, hlast⟩ : ∃ q, (s.persisted.filter fun q => q.entry = p.entry).getLast? = some q := by
    refine Option.ne_none_iff_exists'.mp fun hnone => ?_
    rw [List.getLast?_eq_none_iff, List.filter_eq_nil_iff] at hnone
    exact hnone p hp (by simp)
  obtain ⟨hq, hqi⟩ := List.mem_filter.mp (List.mem_of_getLast? hlast)
  have hqi : q.entry = p.entry := of_decide_eq_true hqi
  obtain ⟨hgen, hqasked⟩ := h.keys.persisted q hq
  have hnq : s.entries[q.entry]? = some n := by rw [hqi, hn]
  have hqprod := hgen.mem_produced hnq
  have hle := hnewest q.call hqprod (by rw [← hqi]; exact hqasked)
  have hge := h.order.le_last hn hp rfl hlast
  have hcall : q.call = p.call := (List.idxOf_inj hqprod).mp (Nat.le_antisymm hle hge)
  rw [h.order.stored hpers p.entry n q hn hlast]
  obtain ⟨m, reply', hm, hlog', hsnap⟩ := hgen
  obtain rfl : n = m := Option.some.inj (hnq.symm.trans hm)
  rw [hcall] at hlog'
  have hans := (h.wf.sound p.entry n hn).ended_unique hlog hlog'
  cases hans
  rw [hsnap]

theorem LatestInv.forward (h : s.LatestInv) : Forward s where
  genuine p hp := (h.keys.persisted p (h.order.sublist.subset hp)).1
  ordered i n hn :=
    ((h.order.sorted i n hn).sublist (h.order.sublist.filter _)).imp Nat.le_of_lt
  latest hpers hdone _ _ _ _ hn hasked hlog hnewest := h.latest hpers hdone hn hasked hlog hnewest

variable [DecidableEq δ]

theorem passes_persistLatest {op : Op ι ο δ} {frame : Frame ι ο δ} {p : Produced δ}
    (h : s.persistLatest j frame p ok = some t) (hgen : s.Genuine p)
    (hret : s.Returns p.entry p.call) (hkeys : op.keys = p.key :: frame.got.map Produced.key)
    (hgot : frame.got ⊆ op.got) (horder : s.persists? op = some p.key) : Passes s t j op := by
  obtain ⟨hlatest, h⟩ | rfl := persistLatest_cases h
  · exact passes_afterPersist h rfl rfl rfl hgen hret hkeys hgot (.inr horder)
      (.inl ⟨rfl, rfl, hlatest⟩)
  · refine ⟨_, rfl, by simp [Settled], ?_, .keep op.keys [] [] (by simp) ?_ (by simp) (by simp)
      (by simp) (by simp [setOp]) rfl rfl rfl ?_⟩
    · intro q hq
      rcases List.mem_cons.mp hq with rfl | hq
      · exact .inr hret
      · exact .inl (hgot hq)
    · rw [hkeys]
      simp [Op.keys, Op.got]
    · intro q hq
      cases hq
      exact horder

/-- A step of an operation keeps account of its keys. -/
theorem Move.passes {op : Op ι ο δ} (hwf : s.Wf) (ho : s.OpWf op) (hset : Settled op)
    (hret : ∀ p ∈ op.got, s.Returns p.entry p.call) (hok : (∃ p, op.pc = .write p) → ok = true)
    (h : Move s j ok op t) : Passes s t j op := by
  have hgiven : ∀ {i k : ℕ} {n : Registered ι ο δ} {ans : Executor.Answer ο (Snapshot δ)},
      s.Answers i k n ans → (∀ reply, ans ≠ .snapshot (.ok reply)) →
      ∀ key ∈ [(i, k)], s.NoSnapshot key.1 key.2 := by
    rintro i k n ans ⟨hn, c, hc, hp⟩ hne key hkey
    rw [List.mem_singleton.mp hkey]
    exact ⟨n, c, ans, hn, hc, hp, hne⟩
  cases h with
  | listStart seen todo reads out =>
    have hgot : (Frame.listResources seen todo reads out : Frame ι ο δ).got = [] := hset (.inl rfl)
    exact passes_nextRead [] [] (by simp [Op.keys, Op.got, hgot])
      (by simp [Frame.got]) (by simp [Frame.got]) (by simp)
  | getMissing id entry hid =>
    exact passes_setOp [] (by simp [Op.keys, Op.got, Frame.got]) rfl (by simp) (by simp)
      (by simp)
  | getStart id entry i hid =>
    exact passes_await [] (by simp [Op.keys, Op.got, Frame.got]) rfl (by simp)
  | transitionMissing id name input invoked output hid =>
    exact passes_setOp [] (by simp [Op.keys, Op.got, Frame.got]) rfl (by simp) (by simp)
      (by simp)
  | transitionStart id name input invoked output i hid =>
    exact passes_await [] (by simp [Op.keys, Op.got, Frame.got]) rfl (by simp)
  | shutdownStart todo =>
    exact passes_nextStop [] (by simp [Op.keys, Op.got, Frame.got]) (by simp)
  | listAnswer seen todo reads out i k n result ha =>
    cases result with
    | ok reply =>
      -- the awaited key goes on as that of the new read
      refine passes_nextRead
        ((Frame.listResources seen todo reads out : Frame ι ο δ).got.map Produced.key ++ [(i, k)]) []
        (by simp [Op.keys, Op.got]) ?_ ?_ (by simp)
      · simp [Frame.got, Registered.read, Produced.key]
      · intro p hp
        rcases got_append_read _ hp with hp | hread
        · exact .inl hp
        · cases hread
          obtain ⟨hn, c, hc, hphase⟩ := ha
          exact .inr ⟨n, c, _, hn, hc, hphase⟩
    | error err =>
      refine passes_nextRead
        ((Frame.listResources seen todo reads out : Frame ι ο δ).got.map Produced.key) [(i, k)]
        (by simp [Op.keys, Op.got]) ?_ ?_ (hgiven ha (by simp))
      · cases err <;> simp [Frame.got, Registered.read]
      · intro p hp
        rcases got_append_read _ hp with hp | hread
        · exact .inl hp
        · cases err <;> cases hread
  | getAnswer id entry i k n reply _ ha ht =>
    have hgen := hwf.genuine ha (ho.await i k rfl)
    obtain ⟨hn, c, hc, hp⟩ := ha
    exact passes_persistLatest ht hgen ⟨n, c, _, hn, hc, hp⟩
      (by simp [Op.keys, Op.got, Frame.got, Produced.key]) (by simp [Frame.got])
      (by simp [persists?, hn, hc, hp, Produced.key])
  | getUnavailable id entry i k n message ha =>
    exact passes_setOp [(i, k)] (by simp [Op.keys, Op.got, Frame.got]) rfl (by simp)
      (by simp) (hgiven ha (by simp))
  | getFailed id entry i k n err hne ha =>
    exact passes_setOp [(i, k)] (by simp [Op.keys, Op.got, Frame.got]) rfl (by simp)
      (by simp) (hgiven ha (by simp))
  | transitionFailed id name input invoked i k n err ha =>
    exact passes_setOp [(i, k)] (by simp [Op.keys, Op.got, Frame.got]) rfl (by simp)
      (by simp) (hgiven ha (by simp))
  | transitionAccepted id name input invoked i k n job output ha =>
    exact passes_setOp [(i, k)] (by simp [Op.keys, Op.got, Frame.got]) rfl (by simp)
      (by simp) (hgiven ha (by simp))
  | transitionCompleted id name input invoked i k n output snapshot ha =>
    exact passes_await [(i, k)] (by simp [Op.keys, Op.got, Frame.got]) rfl
      (hgiven ha (by simp))
  | followUp id name input invoked output i k n reply _ ha ht =>
    have hgen := hwf.genuine ha (ho.await i k rfl)
    obtain ⟨hn, c, hc, hp⟩ := ha
    exact passes_persistLatest ht hgen ⟨n, c, _, hn, hc, hp⟩
      (by simp [Op.keys, Op.got, Frame.got, Produced.key]) (by simp [Frame.got])
      (by simp [persists?, hn, hc, hp, Produced.key])
  | followUpFailed id name input invoked output i k n err ha =>
    exact passes_setOp [(i, k)] (by simp [Op.keys, Op.got, Frame.got]) rfl (by simp)
      (by simp) (hgiven ha (by simp))
  | shutdownAnswer todo i k n acknowledged ha =>
    exact passes_setOp [(i, k)] (by simp [Op.keys, Op.got, Frame.got]) rfl (by simp)
      (by simp) (hgiven ha (by simp))
  | collectEnd seen todo out =>
    exact passes_setOp [] (by simp [Op.keys, Op.got, Frame.got]) rfl (by simp) (by simp)
      (by simp)
  | collectAvailable seen todo p reads out _ ht =>
    exact passes_persistLatest ht (ho.got p (by simp [Op.got, Frame.got]))
      (hret p (by simp [Op.got, Frame.got])) (by simp [Op.keys, Op.got, Frame.got])
      (by simp [Op.got, Frame.got]) rfl
  | collectUnavailable seen todo id placeholder reads out =>
    exact ⟨_, rfl, by simp [Settled], fun p hp => .inl (by simpa [Op.got, Frame.got] using hp),
      .keep ((Frame.listResources seen todo reads out : Frame ι ο δ).got.map Produced.key) [] []
        (by simp [Op.keys, Op.got, Frame.got]) (by simp [Op.keys, Op.got, Frame.got]) (by simp)
        (by simp) (by simp) (by simp [setOp]) rfl rfl rfl (by simp)⟩
  | collectFailed seen todo reads out =>
    exact ⟨_, rfl, by simp [Settled], fun p hp => .inl (by simpa [Op.got, Frame.got] using hp),
      .keep ((Frame.listResources seen todo reads out : Frame ι ο δ).got.map Produced.key) [] []
        (by simp [Op.keys, Op.got, Frame.got]) (by simp [Op.keys, Op.got, Frame.got]) (by simp)
        (by simp) (by simp) (by simp [setOp]) rfl rfl rfl (by simp)⟩
  | write frame p _ ht =>
    have htrue := hok ⟨p, rfl⟩
    subst htrue
    exact passes_afterPersist ht rfl rfl rfl (ho.got p List.mem_cons_self)
      (hret p List.mem_cons_self) (by simp [Op.keys, Op.got]) (List.subset_cons_self _ _) (.inl rfl)
      (.inr ⟨rfl, rfl⟩)
  | lock todo i n _ hn ht =>
    unfold Core.lock at ht
    split at ht
    · cases ht
    · split at ht
      · cases ht
        exact ⟨_, rfl, fun _ => rfl, by simp [Op.got, Frame.got],
          .keep [] [] [] (by simp [Op.keys, Op.got, Frame.got])
            (by simp [Op.keys, Op.got, Frame.got]) (by simp) (by simp) (by simp) (by simp [setOp])
            rfl rfl rfl (by simp)⟩
      · cases ht
        exact passes_nextStop [] (by simp [Op.keys, Op.got, Frame.got]) (by simp)
  | join todo i n hn => exact passes_join hn

omit [DecidableEq δ] in
/-- An operation that is left keeps its keys, and persists nothing. -/
theorem Leaves.passes {op : Op ι ο δ} (h : Leaves s j op t) :
    Passes s t j op ∧ s.persists? op = none := by
  obtain ⟨hasked, hpers, hwrites, hstore⟩ := h.history
  have hkeeps : ∀ taken, (⟨op.frame, .abandoned taken⟩ : Op ι ο δ).got = op.got ∧
      (⟨op.frame, .abandoned taken⟩ : Op ι ο δ).keys = op.keys ∧ s.persists? op = none := by
    intro taken
    cases h with
    | waiting frame pc hpc => rcases hpc with rfl | ⟨i, rfl⟩ <;> exact ⟨rfl, rfl, rfl⟩
    | joining frame i n _ => exact ⟨rfl, rfl, rfl⟩
  obtain ⟨taken, hops⟩ := h.ops
  obtain ⟨hgot, hkeys, hnone⟩ := hkeeps taken
  exact ⟨⟨_, hops, by simp [Settled], fun p hp => .inl (hgot ▸ hp),
    .keep op.keys [] [] (by simp) (by simpa using hkeys) (by simp) (by simp) (by simp)
      (by simpa using hasked) hpers hwrites hstore (by simp)⟩, hnone⟩

/-- Every step is idle for the store, or a move of one operation, or the drop of one. -/
theorem Steps.idle {a : Action ι ο δ} (h : Steps s a t) : Idle s t ∨
    (∃ j ok op, a = .op j ok ∧ s.ops[j]? = some op ∧ Move s j ok op t) ∨
      ∃ j op, a = .abandon j ∧ s.ops[j]? = some op ∧ Leaves s j op t := by
  have hg := h.grows
  cases h with
  | register entry spec _ =>
    exact .inl ⟨hg, fun j op hop => .inl hop, fun j op hop => hop, rfl, rfl, rfl, rfl⟩
  | begin r =>
    refine .inl ⟨hg, fun j op hop => ?_, fun j op hop => ?_, rfl, rfl, rfl, rfl⟩
    · rcases append_cases hop with ⟨-, rfl⟩ | hop
      · have hgot : (r.frame : Frame ι ο δ).got = [] := by cases r <;> rfl
        exact .inr ⟨hgot, by simp [Op.keys, Op.got, hgot], fun _ => hgot, by simp⟩
      · exact .inl hop
    · show (s.ops ++ _)[j]? = some op
      rw [List.getElem?_append_left (List.getElem?_eq_some_iff.mp hop).1, hop]
  | actor i x n e hn hx he =>
    exact .inl ⟨hg, fun j op hop => .inl hop, fun j op hop => hop, rfl, rfl, rfl, rfl⟩
  | op j ok o _ ho hm => exact .inr (.inl ⟨j, ok, o, rfl, ho, hm⟩)
  | abandon j o _ ho hl => exact .inr (.inr ⟨j, o, rfl, ho, hl⟩)

/-- Every step in order keeps the invariant of the latest snapshots. -/
theorem LatestInv.step {a : Action ι ο δ} (h : s.LatestInv) (hG : s.InOrder a = true)
    (hstep : Steps s a t) : t.LatestInv := by
  have hwf' := h.wf.step hstep
  rcases hstep.idle with hi | ⟨j, ok, op, rfl, hop, hm⟩ | ⟨j, op, rfl, hop, hl⟩
  · exact ⟨hwf', h.keys.idle hi, h.order.idle h.keys h.wf hi⟩
  · simp only [InOrder, hop, Option.all_some, Bool.and_eq_true] at hG
    obtain ⟨hold, hok⟩ := hG
    have hold : ∀ key, s.persists? op = some key → s.oldest key.1 key.2 = true := by
      intro key hkey
      simpa [hkey] using hold
    have hok : (∃ p, op.pc = .write p) → ok = true := by
      rintro ⟨p, hpc⟩
      simpa [hpc] using hok
    have hp := hm.passes h.wf (h.wf.ops j op hop) (h.keys.settled j op hop)
      (h.keys.returned j op hop) hok
    have hkeys' := h.keys.passes hwf' hm.keeps.grows hop hp
    exact ⟨hwf', hkeys', h.order.passes h.keys hkeys' h.wf hwf' hm.keeps hop hold hp⟩
  · obtain ⟨hp, hnone⟩ := hl.passes
    have hkeys' := h.keys.passes hwf' hl.keeps.grows hop hp
    exact ⟨hwf', hkeys', h.order.passes h.keys hkeys' h.wf hwf' hl.keeps hop (by simp [hnone]) hp⟩

theorem latestInv_init (node : String) (actorQueueCapacity : ℕ) (persistent : Bool)
    (store : SnapshotStore δ) :
    (machine ι ο node actorQueueCapacity persistent store).init.LatestInv where
  wf := wf_init _ _ _ _
  keys := by constructor <;> simp [machine]
  order := by constructor <;> simp [machine]

/-- **The stored snapshot never goes backwards**, in every run in which calls persist in order. -/
theorem forward_of_inOrder (node : String) (actorQueueCapacity : ℕ) (persistent : Bool)
    (store : SnapshotStore δ) (as : List (Action ι ο δ))
    (h : (machine ι ο node actorQueueCapacity persistent store).StepsMeet
      (fun s a => s.InOrder a = true)
      (machine ι ο node actorQueueCapacity persistent store).init as) :
    (machine ι ο node actorQueueCapacity persistent store).StatesMeet Forward
      (machine ι ο node actorQueueCapacity persistent store).init as := by
  have hinv := Machine.statesMeet_of_stepsMeet (I := LatestInv)
    (fun s a t hs hG hstep => hs.step hG (step_steps hstep)) (latestInv_init _ _ _ _) h
  exact hinv.mono fun s hs => hs.forward

/-- A read gets the snapshot of the lamp that is off, and a transition then one that it is on. -/
def readAndTurnOn : List (Action String String String) :=
  [.register lamp lampReports, .actor 0 .start, .begin (.getResource "lamp"),
    .begin (.runResourceTransition "lamp" "turn-on" ""), .op 0 true, .actor 0 (.reserve 0),
    .actor 0 (.send 0), .actor 0 .recv, .actor 0 (.reply (.snapshot (.ok (lampSnapshot "off")))),
    .op 1 true, .actor 0 (.reserve 1), .actor 0 (.send 1), .actor 0 .recv,
    .actor 0 (.reply (.transition (.ok (.completed "" (lampSnapshot "on"))))),
    .actor 0 (.receive 1), .op 1 true, .actor 0 (.reserve 2), .actor 0 (.send 2), .actor 0 .recv,
    .actor 0 (.reply (.snapshot (.ok (lampSnapshot "on")))), .actor 0 (.receive 0),
    .actor 0 (.receive 2)]

/-- The read persists first. -/
def persistsInOrder : List (Action String String String) :=
  readAndTurnOn ++ [.op 0 true, .op 0 true, .op 1 true, .op 1 true]

theorem forward_persistsInOrder :
    (lampMachine.run lampMachine.init persistsInOrder).isSome = true ∧
      lampMachine.StatesMeet Forward lampMachine.init persistsInOrder :=
  ⟨by decide, forward_of_inOrder "hub" 32 true .empty persistsInOrder (by decide)⟩

/-- The read finds nothing stored, and writes after the transition has written. -/
def writesLate : List (Action String String String) :=
  readAndTurnOn ++ [.op 0 true, .op 1 true, .op 1 true, .op 0 true]

/-- All calls have returned, the last snapshot was that the lamp is on, and it is stored as off. -/
theorem stored_behind :
    ∃ s n, lampMachine.run lampMachine.init writesLate = some s ∧ s.entries[0]? = some n ∧
      s.ops.all (fun op => op.pc matches .done _) = true ∧ n.produced = [0, 2] ∧
      s.writes.map (fun p => (p.call, p.snapshot.report)) = [(2, "on"), (0, "off")] ∧
      (s.store.latest "lamp").map (fun snapshot => snapshot.report) = some "off" ∧
      ¬ Forward s := by
  refine ⟨_, _, rfl, rfl, by decide, by decide, by decide,
    by decide, fun h => ?_⟩
  have hordered := h.ordered 0 _ rfl
  revert hordered
  decide

end Boardwalk.Core
