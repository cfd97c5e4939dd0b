import Boardwalk.Events.Coalesce
import Mathlib.Data.List.Forall2

/-!
# What a coalesce queue holds

A push that appends makes a slot, and a push of a queued key writes into the slot of the key.  So
the envelopes that were received and those in the queue are together the contents of the slots, in
the order in which the slots were made, and what the queue has of a key is the last envelope of the
key that was pushed (`CoalesceRun.Sound`).
-/

namespace Boardwalk

variable {δ κ : Type} [DecidableEq κ]

namespace CoalesceState

/-! ### One push -/

section ReplaceFirst

variable {key : EventEnvelope δ → FieldPath → Option κ} {path : FieldPath} {k : κ}
  {env : EventEnvelope δ}

/-- The first envelope with the key is overwritten. -/
theorem replaceFirst_eq_some {q q' : List (EventEnvelope δ)}
    (h : replaceFirst key path k env q = some q') :
    ∃ l e r, q = l ++ e :: r ∧ key e path = some k ∧ (∀ x ∈ l, key x path ≠ some k) ∧
      q' = l ++ env :: r := by
  induction q generalizing q' with
  | nil => cases h
  | cons slot rest ih =>
    rw [replaceFirst] at h
    split at h
    · rename_i hkey
      cases h
      exact ⟨[], slot, rest, rfl, hkey, by simp, rfl⟩
    · rename_i hslot
      obtain ⟨rest', hrest, rfl⟩ := Option.map_eq_some_iff.mp h
      obtain ⟨l, e, r, rfl, hkey, hl, rfl⟩ := ih hrest
      exact ⟨slot :: l, e, r, rfl, hkey, List.forall_mem_cons.mpr ⟨hslot, hl⟩, rfl⟩

/-- Nothing is replaced exactly when no queued envelope has the key. -/
theorem replaceFirst_eq_none_iff {q : List (EventEnvelope δ)} :
    replaceFirst key path k env q = none ↔ ∀ e ∈ q, key e path ≠ some k := by
  induction q with
  | nil => simp [replaceFirst]
  | cons slot rest ih =>
    rw [replaceFirst, List.forall_mem_cons]
    split
    · rename_i hkey
      simp [hkey]
    · rename_i hkey
      rw [Option.map_eq_none_iff, ih]
      exact (and_iff_right hkey).symm

end ReplaceFirst

section Push

variable (key : EventEnvelope δ → FieldPath → Option κ) (s : CoalesceState δ)
  (env : EventEnvelope δ)

/-- An envelope with the key of `env` is queued. -/
def Queued : Prop := ∃ k, key env s.keyPath = some k ∧ ∃ e ∈ s.queue, key e s.keyPath = some k

/-- What a push does: it overwrites the first envelope of its key, or it appends, or it does
nothing. -/
theorem offer_cases :
    (∃ k l e r, key env s.keyPath = some k ∧ s.queue = l ++ e :: r ∧ key e s.keyPath = some k ∧
      (∀ x ∈ l, key x s.keyPath ≠ some k) ∧
      s.offer key env = (.replaced, { s with queue := l ++ env :: r })) ∨
    (¬ s.Queued key env ∧ s.queue.length < s.capacity ∧
      s.offer key env = (.pushed, { s with queue := s.queue ++ [env] })) ∨
    (¬ s.Queued key env ∧ ¬ s.queue.length < s.capacity ∧ s.offer key env = (.dropped, s)) := by
  unfold offer
  split
  · -- the key is queued, and the new envelope takes the slot
    rename_i q' hq'
    obtain ⟨k, hk, hreplace⟩ := Option.bind_eq_some_iff.mp hq'
    obtain ⟨l, e, r, hqueue, he, hl, rfl⟩ := replaceFirst_eq_some hreplace
    exact .inl ⟨k, l, e, r, hk, hqueue, he, hl, rfl⟩
  · -- no slot has its key: it needs one of its own
    rename_i hnone
    have hnot : ¬ s.Queued key env := by
      rintro ⟨k, hk, e, he, hkey⟩
      rw [hk] at hnone
      exact replaceFirst_eq_none_iff.mp hnone e he hkey
    split
    · rename_i hlen
      exact .inr (.inl ⟨hnot, hlen, rfl⟩)
    · rename_i hlen
      exact .inr (.inr ⟨hnot, hlen, rfl⟩)

/-- With a receiver, a push is what it does under the lock. -/
theorem push_of_alive (halive : s.receiverDropped = false) :
    s.push key env = s.offer key env := by
  show (if s.receiverDropped = true then _ else s.offer key env) = s.offer key env
  rw [if_neg (by simp [halive])]

/-- **The outcome of a push**: `Replaced` when the key is queued, otherwise `Pushed` when there is
room and `Dropped`, which leaves the queue as it is, when there is none. -/
theorem push_outcome (halive : s.receiverDropped = false) :
    ((s.push key env).1 = .replaced ↔ s.Queued key env) ∧
    ((s.push key env).1 = .pushed ↔ ¬ s.Queued key env ∧ s.queue.length < s.capacity) ∧
    ((s.push key env).1 = .dropped ↔ ¬ s.Queued key env ∧ ¬ s.queue.length < s.capacity) ∧
    ((s.push key env).1 = .dropped → (s.push key env).2 = s) := by
  rw [s.push_of_alive key env halive]
  rcases s.offer_cases key env with ⟨k, l, e, r, hk, hqueue, he, -, hpush⟩ |
    ⟨hnot, hlen, hpush⟩ | ⟨hnot, hlen, hpush⟩
  · have hqueued : s.Queued key env := ⟨k, hk, e, by simp [hqueue], he⟩
    rw [hpush]
    simp [hqueued]
  · rw [hpush]
    simp [hnot, hlen]
  · rw [hpush]
    simp [hnot, hlen]

end Push

end CoalesceState

/-! ### Runs -/

/-- A call on the queue. -/
inductive CoalesceOp (δ : Type) where
  | push (env : EventEnvelope δ)
  | recv
  | tryRecv
  deriving Repr, DecidableEq

/-- A queue with what was pushed, with its outcome, and what was received, oldest first. -/
structure CoalesceRun (δ : Type) where
  state : CoalesceState δ
  pushes : List (EventEnvelope δ × CoalescePushOutcome) := []
  received : List (EventEnvelope δ) := []

namespace CoalesceRun

variable (key : EventEnvelope δ → FieldPath → Option κ)

/-- A receive: the first envelope of the queue, if there is one. -/
def receive (r : CoalesceRun δ) (out : Option (EventEnvelope δ)) (state : CoalesceState δ) :
    CoalesceRun δ := { r with state, received := r.received ++ out.toList }

/-- A push and its outcome. -/
def record (r : CoalesceRun δ) (env : EventEnvelope δ)
    (pushed : CoalescePushOutcome × CoalesceState δ) : CoalesceRun δ :=
  { r with state := pushed.2, pushes := r.pushes ++ [(env, pushed.1)] }

def step (r : CoalesceRun δ) : CoalesceOp δ → CoalesceRun δ
  | .push env => r.record env (r.state.push key env)
  | .recv =>
    match r.state.recvPass with
    | (.returns out, state) => r.receive out state
    | (.awaits, state) => r.receive none state
  | .tryRecv =>
    match r.state.tryRecv with
    | (.ok env, state) => r.receive (some env) state
    | (.error _, state) => r.receive none state

/-- The calls on a new queue. -/
def run (capacity : ℕ) (keyPath : FieldPath) (ops : List (CoalesceOp δ)) : CoalesceRun δ :=
  ops.foldl (step key) { state := .new capacity keyPath }

/-- The envelopes whose pushes made a slot. -/
def creators (r : CoalesceRun δ) : List (EventEnvelope δ) :=
  (r.pushes.filter fun p => p.2 = .pushed).map (·.1)

/-- The pushes of a key. -/
def pushesOf (r : CoalesceRun δ) (k : κ) : List (EventEnvelope δ) :=
  (r.pushes.map (·.1)).filter fun env => key env r.state.keyPath = some k

/-- What holds after any calls. -/
structure Sound (capacity : ℕ) (keyPath : FieldPath) (r : CoalesceRun δ) : Prop where
  alive : r.state.receiverDropped = false
  capacity_eq : r.state.capacity = max capacity 1
  keyPath_eq : r.state.keyPath = keyPath
  /-- The queue is bounded. -/
  bounded : r.state.queue.length ≤ max capacity 1
  /-- No two queued envelopes have the same key. -/
  distinct : r.state.queue.Pairwise fun e e' => ∀ k, key e keyPath = some k →
    key e' keyPath ≠ some k
  /-- A queued envelope with a key is the last one of the key that was pushed. -/
  latest : ∀ e ∈ r.state.queue, ∀ k, key e keyPath = some k →
    (r.pushesOf key k).getLast? = some e
  /-- What was received and what is queued fills the slots in their order.  A slot keeps its key, and
  without a key it keeps the envelope that made it. -/
  slots : List.Forall₂ (fun made e => key e keyPath = key made keyPath ∧
    (key made keyPath = none → e = made)) r.creators (r.received ++ r.state.queue)
  /-- An envelope without a key replaced nothing. -/
  keyless : ∀ p ∈ r.pushes, key p.1 keyPath = none → p.2 ≠ .replaced

variable {key} {capacity : ℕ} {keyPath : FieldPath} {r : CoalesceRun δ}

theorem sound_new (capacity : ℕ) (keyPath : FieldPath) :
    Sound key capacity keyPath ({ state := .new capacity keyPath } : CoalesceRun δ) where
  alive := rfl
  capacity_eq := rfl
  keyPath_eq := rfl
  bounded := Nat.zero_le _
  distinct := .nil
  latest := by simp [CoalesceState.new]
  slots := .nil
  keyless := by simp

/-- A pass that receives takes the first envelope of the queue, and any other pass leaves the
queue. -/
theorem Sound.receive (h : Sound key capacity keyPath r) {out : Option (EventEnvelope δ)}
    {state : CoalesceState δ} (hqueue : r.state.queue = out.toList ++ state.queue)
    (halive : state.receiverDropped = r.state.receiverDropped)
    (hcapacity : state.capacity = r.state.capacity) (hpath : state.keyPath = r.state.keyPath) :
    Sound key capacity keyPath (r.receive out state) := by
  have hsub : state.queue.Sublist r.state.queue := by
    rw [hqueue]
    exact List.sublist_append_right _ _
  refine ⟨halive.trans h.alive, hcapacity.trans h.capacity_eq, hpath.trans h.keyPath_eq,
    Nat.le_trans hsub.length_le h.bounded, h.distinct.sublist hsub, ?_, ?_, h.keyless⟩
  · intro e he k hk
    have hpushes : (r.receive out state).pushesOf key k = r.pushesOf key k := by
      unfold pushesOf CoalesceRun.receive
      rw [hpath]
    rw [hpushes]
    exact h.latest e (hsub.subset he) k hk
  · have hslots := h.slots
    rw [hqueue, ← List.append_assoc] at hslots
    exact hslots

/-- The pushes of a key after one more push. -/
theorem pushesOf_record (env : EventEnvelope δ) (outcome : CoalescePushOutcome)
    (queue : List (EventEnvelope δ)) (k : κ) :
    (r.record env (outcome, { r.state with queue })).pushesOf key k =
      r.pushesOf key k ++ if key env r.state.keyPath = some k then [env] else [] := by
  unfold pushesOf record
  rw [List.map_append, List.filter_append]
  congr 1
  by_cases hk : key env r.state.keyPath = some k
  · simp [hk]
  · simp [hk]

theorem creators_record (env : EventEnvelope δ) (outcome : CoalescePushOutcome)
    (state : CoalesceState δ) :
    (r.record env (outcome, state)).creators =
      r.creators ++ if outcome = .pushed then [env] else [] := by
  unfold creators record
  rw [List.filter_append, List.map_append]
  congr 1
  by_cases hp : outcome = .pushed
  · simp [hp]
  · simp [hp]

/-- Another content for one slot. -/
theorem forall₂_replace {α β : Type} {R : α → β → Prop} {xs : List α} {l r : List β} {e e' : β}
    (hR : ∀ x, R x e → R x e') (h : List.Forall₂ R xs (l ++ e :: r)) :
    List.Forall₂ R xs (l ++ e' :: r) := by
  induction l generalizing xs with
  | nil =>
    cases h with
    | cons hx hxs => exact .cons (hR _ hx) hxs
  | cons y l ih =>
    cases h with
    | cons hx hxs => exact .cons hx (ih hxs)

/-- A push of a queued key writes into the slot of the key. -/
theorem Sound.replaced (h : Sound key capacity keyPath r) {env e : EventEnvelope δ} {k : κ}
    {l l' : List (EventEnvelope δ)} (hk : key env keyPath = some k)
    (hqueue : r.state.queue = l ++ e :: l') (he : key e keyPath = some k) :
    Sound key capacity keyPath
      (r.record env (.replaced, { r.state with queue := l ++ env :: l' })) := by
  -- the queue keeps its length, its keys and its slots, so what each of these says is kept
  have hsame : key env keyPath = key e keyPath := hk.trans he.symm
  have hdistinct := h.distinct
  rw [hqueue, List.pairwise_append, List.pairwise_cons] at hdistinct
  obtain ⟨hl, ⟨hafter, hl'⟩, hacross⟩ := hdistinct
  refine ⟨h.alive, h.capacity_eq, h.keyPath_eq, ?_, ?_, ?_, ?_, ?_⟩
  · -- the bound
    have hbound := h.bounded
    rw [hqueue, List.length_append, List.length_cons] at hbound
    show (l ++ env :: l').length ≤ _
    rw [List.length_append, List.length_cons]
    exact hbound
  · -- the keys
    show (l ++ env :: l').Pairwise _
    rw [List.pairwise_append, List.pairwise_cons]
    refine ⟨hl, ⟨fun x hx => by rw [hsame]; exact hafter x hx, hl'⟩, ?_⟩
    intro x hx y hy
    rcases List.mem_cons.mp hy with rfl | hy
    · rw [hsame]
      exact hacross x hx e List.mem_cons_self
    · exact hacross x hx y (List.mem_cons_of_mem e hy)
  · intro x hx k' hk'
    rw [pushesOf_record, h.keyPath_eq]
    replace hx : x ∈ l ++ env :: l' := hx
    by_cases hkk : k' = k
    · -- only the new envelope has the key
      have hxenv : x = env := by
        rcases List.mem_append.mp hx with hx | hx
        · exact absurd he (hacross x hx e List.mem_cons_self k (hkk ▸ hk'))
        · rcases List.mem_cons.mp hx with hx | hx
          · exact hx
          · exact absurd (hkk ▸ hk') (hafter x hx k he)
      rw [hxenv, hkk, if_pos hk, List.getLast?_concat]
    · have hne : key env keyPath ≠ some k' := by
        rw [hk, Ne, Option.some.injEq]
        exact fun heq => hkk heq.symm
      have hold : x ∈ r.state.queue := by
        rw [hqueue]
        rcases List.mem_append.mp hx with hx | hx
        · exact List.mem_append_left _ hx
        · rcases List.mem_cons.mp hx with rfl | hx
          · exact absurd hk' hne
          · exact List.mem_append_right _ (List.mem_cons_of_mem e hx)
      rw [if_neg hne, List.append_nil]
      exact h.latest x hold k' hk'
  · -- the slots, each made by a push with its key
    rw [creators_record, if_neg (by simp), List.append_nil]
    show List.Forall₂ _ r.creators (r.received ++ (l ++ env :: l'))
    have hslots := h.slots
    rw [hqueue, ← List.append_assoc] at hslots
    rw [← List.append_assoc]
    refine forall₂_replace ?_ hslots
    rintro made ⟨hmade, -⟩
    refine ⟨hsame.trans hmade, ?_⟩
    intro hnone
    rw [hmade.symm, he] at hnone
    cases hnone
  · -- envelopes without a key
    intro p hp hnone
    rcases List.mem_append.mp hp with hp | hp
    · exact h.keyless p hp hnone
    · rw [List.mem_singleton.mp hp, hk] at hnone
      cases hnone

/-- A push of a key that is not queued, or of an envelope without a key, leaves the last envelopes
of the queued keys. -/
theorem Sound.latest_push (h : Sound key capacity keyPath r) {env : EventEnvelope δ}
    (hnot : ¬ r.state.Queued key env) (outcome : CoalescePushOutcome)
    (queue : List (EventEnvelope δ)) {x : EventEnvelope δ} (hx : x ∈ r.state.queue) {k : κ}
    (hk : key x keyPath = some k) :
    ((r.record env (outcome, { r.state with queue })).pushesOf key k).getLast? = some x := by
  have hne : key env r.state.keyPath ≠ some k := by
    intro henv
    exact hnot ⟨k, henv, x, hx, by rw [h.keyPath_eq]; exact hk⟩
  rw [pushesOf_record, if_neg hne, List.append_nil]
  exact h.latest x hx k hk

/-- An envelope with a key not queued, with room left, is pushed. -/
theorem Sound.pushed (h : Sound key capacity keyPath r) {env : EventEnvelope δ}
    (hnot : ¬ r.state.Queued key env) (hlen : r.state.queue.length < r.state.capacity) :
    Sound key capacity keyPath
      (r.record env (.pushed, { r.state with queue := r.state.queue ++ [env] })) := by
  have hnew : ∀ x ∈ r.state.queue, ∀ k, key x keyPath = some k → key env keyPath ≠ some k := by
    intro x hx k hk henv
    rw [← h.keyPath_eq] at hk henv
    exact hnot ⟨k, henv, x, hx, hk⟩
  refine ⟨h.alive, h.capacity_eq, h.keyPath_eq, ?_, ?_, ?_, ?_, ?_⟩
  · -- the bound, the keys, what is latest, the slots, and the envelopes without a key
    show (r.state.queue ++ [env]).length ≤ _
    rw [List.length_append, List.length_singleton, ← h.capacity_eq]
    exact hlen
  · show (r.state.queue ++ [env]).Pairwise _
    rw [List.pairwise_append]
    refine ⟨h.distinct, List.pairwise_singleton _ _, ?_⟩
    intro x hx y hy
    rw [List.mem_singleton.mp hy]
    exact hnew x hx
  · intro x hx k hk
    rcases List.mem_append.mp hx with hx | hx
    · exact h.latest_push hnot _ _ hx hk
    · rw [List.mem_singleton.mp hx] at hk ⊢
      rw [pushesOf_record, h.keyPath_eq, if_pos hk, List.getLast?_concat]
  · rw [creators_record, if_pos rfl]
    show List.Forall₂ _ (r.creators ++ [env]) (r.received ++ (r.state.queue ++ [env]))
    rw [← List.append_assoc]
    exact List.rel_append h.slots (.cons ⟨rfl, fun _ => rfl⟩ .nil)
  · intro p hp hnone
    rcases List.mem_append.mp hp with hp | hp
    · exact h.keyless p hp hnone
    · rw [List.mem_singleton.mp hp]
      simp

/-- An envelope with a key not queued, without room, is dropped. -/
theorem Sound.dropped (h : Sound key capacity keyPath r) {env : EventEnvelope δ}
    (hnot : ¬ r.state.Queued key env) :
    Sound key capacity keyPath (r.record env (.dropped, r.state)) := by
  refine ⟨h.alive, h.capacity_eq, h.keyPath_eq, h.bounded, h.distinct, ?_, ?_, ?_⟩
  · intro x hx k hk
    exact h.latest_push hnot _ _ hx hk
  · rw [creators_record, if_neg (by simp), List.append_nil]
    exact h.slots
  · intro p hp hnone
    rcases List.mem_append.mp hp with hp | hp
    · exact h.keyless p hp hnone
    · rw [List.mem_singleton.mp hp]
      simp

/-- **One call keeps the queue sound.** -/
theorem Sound.step (h : Sound key capacity keyPath r) (op : CoalesceOp δ) :
    Sound key capacity keyPath (r.step key op) := by
  -- whatever is popped was received
  have hpop : ∀ env state, r.state.pop = some (env, state) →
      Sound key capacity keyPath (r.receive (some env) state) := by
    intro env state hpop
    unfold CoalesceState.pop at hpop
    split at hpop
    · cases hpop
    · rename_i e rest hqueue
      cases hpop
      exact h.receive hqueue rfl rfl rfl
  have hnone : Sound key capacity keyPath (r.receive none r.state) :=
    h.receive rfl rfl rfl rfl
  cases op with
  | push env =>
    -- the three outcomes of a push to a live receiver
    show Sound key capacity keyPath (r.record env (r.state.push key env))
    rw [r.state.push_of_alive key env h.alive]
    rcases r.state.offer_cases key env with ⟨k, l, e, l', hk, hqueue, he, -, hpush⟩ |
      ⟨hnot, hlen, hpush⟩ | ⟨hnot, hlen, hpush⟩
    · rw [hpush]
      rw [h.keyPath_eq] at hk he
      exact h.replaced hk hqueue he
    · rw [hpush]
      exact h.pushed hnot hlen
    · rw [hpush]
      exact h.dropped hnot
  | recv =>
    unfold CoalesceRun.step CoalesceState.recvPass
    rcases hp : r.state.pop with _ | ⟨env, state⟩
    · cases r.state.closed
      · exact hnone
      · exact hnone
    · exact hpop env state hp
  | tryRecv =>
    unfold CoalesceRun.step CoalesceState.tryRecv
    rcases hp : r.state.pop with _ | ⟨env, state⟩
    · exact hnone
    · exact hpop env state hp

theorem sound_run (key : EventEnvelope δ → FieldPath → Option κ) (capacity : ℕ)
    (keyPath : FieldPath) (ops : List (CoalesceOp δ)) :
    Sound key capacity keyPath (run key capacity keyPath ops) := by
  unfold run
  have hfold : ∀ {r : CoalesceRun δ}, Sound key capacity keyPath r →
      Sound key capacity keyPath (ops.foldl (CoalesceRun.step key) r) := by
    induction ops with
    | nil => exact id
    | cons op ops ih => exact fun h => ih (h.step op)
  exact hfold (sound_new capacity keyPath)

/-- **What any calls leave**: a sound queue, on which the outcome of the next push says whether its
key was queued and whether there was room. -/
theorem coalesce_queue_invariant (key : EventEnvelope δ → FieldPath → Option κ) (capacity : ℕ)
    (keyPath : FieldPath) (ops : List (CoalesceOp δ)) :
    let r := run key capacity keyPath ops
    r.Sound key capacity keyPath ∧ ∀ env,
      ((r.state.push key env).1 = .replaced ↔ r.state.Queued key env) ∧
      ((r.state.push key env).1 = .pushed ↔
        ¬ r.state.Queued key env ∧ r.state.queue.length < max capacity 1) ∧
      ((r.state.push key env).1 = .dropped ↔
        ¬ r.state.Queued key env ∧ ¬ r.state.queue.length < max capacity 1) ∧
      ((r.state.push key env).1 = .dropped → (r.state.push key env).2 = r.state) := by
  intro r
  have h : r.Sound key capacity keyPath := sound_run key capacity keyPath ops
  refine ⟨h, ?_⟩
  intro env
  have houtcome := r.state.push_outcome key env h.alive
  rwa [h.capacity_eq] at houtcome

end CoalesceRun

end Boardwalk
