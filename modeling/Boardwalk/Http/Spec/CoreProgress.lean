import Boardwalk.Http.Spec.Core
import Boardwalk.Runtime.Spec.Replies

/-!
# The requests to a node come to an end

`Runtime.Spec.Replies` says that no caller of one actor hangs.  The operations of a node call one
actor after the other, wait for the mutex of a join handle and read and write the storage; here they
are followed to their end, any number of them at once, over any number of actors.  What an operation
has still to go through is a number (`Op.effort`): a call it makes adds to what is left for the
actor, so a loop pays for the calls of its rounds in advance.
-/

namespace Boardwalk.Core

variable {ι ο δ : Type*} {s t : Core ι ο δ} {j : ℕ} {ok : Bool}

/-! ### What is left to do -/

/-- A call costs 6, a round of a loop costs 10. -/
def Frame.starting (entries : ℕ) : Frame ι ο δ → ℕ
  | .listResources _ _ _ _ => 10 * entries + 2
  | .getResource _ _ => 9
  | .runResourceTransition _ _ _ _ _ => 17
  | .shutdown _ => 10 * entries + 1

def Frame.awaiting : Frame ι ο δ → ℕ
  | .listResources _ todo reads _ => 10 * todo.length + 2 * reads.length + 4
  | .getResource _ _ => 2
  -- a completed transition calls once more
  | .runResourceTransition _ _ _ _ none => 10
  | .runResourceTransition _ _ _ _ (some _) => 2
  | .shutdown todo => 10 * todo.length + 3

/-- What follows the persist of a snapshot. -/
def Frame.persisting : Frame ι ο δ → ℕ
  | .listResources _ _ reads _ => 2 * reads.length + 1
  | _ => 0

/-- What an operation has still to go through in a node with so many entries. -/
def Op.effort (entries : ℕ) (op : Op ι ο δ) : ℕ :=
  match op.pc with
  | .start => op.frame.starting entries
  | .await _ _ => op.frame.awaiting
  | .collect => op.frame.persisting
  | .write _ => op.frame.persisting + 1
  | .lock _ => 10 * op.frame.todo.length + 2
  | .join _ => 10 * op.frame.todo.length + 1
  | .done _ | .abandoned _ => 0

/-- What the actors and their callers have still to go through. -/
def work (s : Core ι ο δ) : ℕ := (s.entries.map fun n => n.actor.effort).sum

def effort (s : Core ι ο δ) : ℕ := s.work + (s.ops.map (Op.effort s.entries.length)).sum

/-- The variables of an operation are those of its place. -/
def Op.Placed (entries : ℕ) (op : Op ι ο δ) : Prop :=
  match op.pc with
  | .collect => ∃ seen todo reads out, op.frame = .listResources seen todo reads out
  | .write p => (op.frame.afterPersist p.snapshot).isSome = true
  | .lock i | .join i => i < entries ∧ ∃ todo, op.frame = .shutdown todo
  | _ => True

/-! ### What an operation does to the actors -/

/-- Modifying one place of a list leaves it alone or sets that place. -/
theorem modify_cases {α : Type*} (l : List α) (i : ℕ) (f : α → α) :
    l.modify i f = l ∨ ∃ x, l[i]? = some x ∧ l.modify i f = l.set i (f x) := by
  cases h : l[i]? with
  | none =>
    refine .inl (List.ext_getElem? fun i' => ?_)
    rw [List.getElem?_modify]
    by_cases hi : i = i'
    · subst hi
      rw [h]
      rfl
    · simp [hi]
  | some x => exact .inr ⟨x, rfl, Executor.modify_eq_set f h⟩

/-- The actors of an operation that waits for no join handle: it makes one call at most. -/
inductive Calls (es : List (Registered ι ο δ)) : List (Registered ι ο δ) → Prop
  | none : Calls es es
  | call (i : ℕ) (n : Registered ι ο δ) (r : Executor.Request ι) (hn : es[i]? = some n) :
      Calls es (es.set i { n with actor := n.actor.call r })

theorem calls_await (s : Core ι ο δ) (j : ℕ) (frame : Frame ι ο δ) (i : ℕ)
    (r : Executor.Request ι) : Calls s.entries (s.await j frame i r).entries := by
  rcases modify_cases s.entries i (fun n => { n with actor := n.actor.call r }) with h | ⟨n, hn, h⟩
  · show Calls s.entries (s.entries.modify i _)
    rw [h]
    exact .none
  · show Calls s.entries (s.entries.modify i _)
    rw [h]
    exact .call i n r hn

theorem calls_nextRead (s : Core ι ο δ) (j seen : ℕ) (todo : List ℕ)
    (reads : List (SnapshotRead δ)) : Calls s.entries (s.nextRead j seen todo reads).entries := by
  cases todo with
  | nil => exact .none
  | cons i todo => exact calls_await s j _ i _

theorem calls_nextStop (s : Core ι ο δ) (j : ℕ) (todo : List ℕ) :
    Calls s.entries (s.nextStop j todo).entries := by
  cases todo with
  | nil => exact .none
  | cons i todo => exact calls_await s j _ i _

theorem entries_afterPersist {frame : Frame ι ο δ} {p : Produced δ}
    (h : s.afterPersist j frame p = some t) : t.entries = s.entries := by
  obtain ⟨op, -, rfl⟩ := afterPersist_some h
  rfl

theorem entries_upsert {frame : Frame ι ο δ} {p : Produced δ}
    (h : s.upsert j frame p ok = some t) : t.entries = s.entries := by
  unfold upsert at h
  split at h
  · obtain ⟨op, -, rfl⟩ := afterPersist_some h
    rfl
  · exact entries_afterPersist h

theorem entries_persistLatest [DecidableEq δ] {frame : Frame ι ο δ} {p : Produced δ}
    (h : s.persistLatest j frame p ok = some t) : t.entries = s.entries := by
  obtain ⟨-, h⟩ | rfl := persistLatest_cases h
  · exact entries_afterPersist h
  · rfl

/-- The join handle is taken, or it was taken before. -/
theorem lock_cases {i : ℕ} {todo : List ℕ} {n : Registered ι ο δ}
    (h : s.lock j i todo n = some t) : n.locked = false ∧
      (n.task = true ∧ t = { s with
          entries := s.entries.set i { n with task := false, locked := true } }.setOp j
            ⟨.shutdown todo, .join i⟩ ∨
        n.task = false ∧ t = s.nextStop j todo) := by
  unfold lock at h
  split at h
  · cases h
  · rename_i hlocked
    split at h
    · rename_i htask
      exact ⟨by simpa using hlocked, .inl ⟨htask, (Option.some.inj h).symm⟩⟩
    · rename_i htask
      exact ⟨by simpa using hlocked, .inr ⟨by simpa using htask, (Option.some.inj h).symm⟩⟩

/-! ### Every step of an operation lowers what is left -/

theorem effort_call (e : Executor ι ο (Snapshot δ)) (r : Executor.Request ι) :
    (e.call r).effort = e.effort + 6 := by
  unfold Executor.effort Executor.call
  rw [List.map_append, List.sum_append]
  show _ + 6 + 3 * e.mailbox.buf.length + e.task.effort = _
  omega

theorem work_set {i : ℕ} {n : Registered ι ο δ} (hn : s.entries[i]? = some n)
    (n' : Registered ι ο δ) :
    { s with entries := s.entries.set i n' }.work + n.actor.effort = s.work + n'.actor.effort :=
  sum_map_set (fun n : Registered ι ο δ => n.actor.effort) hn n'

theorem length_calls {es es' : List (Registered ι ο δ)} (h : Calls es es') :
    es'.length = es.length := by
  cases h with
  | none => rfl
  | call i n r hn => exact List.length_set

theorem sum_calls {es es' : List (Registered ι ο δ)} (h : Calls es es') :
    (es'.map fun n => n.actor.effort).sum ≤ (es.map fun n => n.actor.effort).sum + 6 := by
  cases h with
  | none => exact Nat.le_add_right _ _
  | call i n r hn =>
    have hset := sum_map_set (fun n : Registered ι ο δ => n.actor.effort) hn
      { n with actor := n.actor.call r }
    have hcall := effort_call n.actor r
    dsimp only at hset
    omega

/-- Operation `j`, which had `w` left, moves to a place of its own and has less left, whatever it
left to the actors. -/
def Spends (s t : Core ι ο δ) (j w : ℕ) : Prop :=
  t.entries.length = s.entries.length ∧ ∃ op, t.ops = s.ops.set j op ∧
    op.Placed s.entries.length ∧ t.work + op.effort s.entries.length < s.work + w

theorem spends_setOp {op : Op ι ο δ} {w : ℕ} (hplaced : op.Placed s.entries.length)
    (hw : op.effort s.entries.length < w) : Spends s (s.setOp j op) j w :=
  ⟨rfl, op, rfl, hplaced, Nat.add_lt_add_left hw _⟩

/-- A call is paid for in advance. -/
theorem spends_await {frame : Frame ι ο δ} {i w : ℕ} {r : Executor.Request ι}
    (hw : frame.awaiting + 6 < w) : Spends s (s.await j frame i r) j w := by
  have hcalls := calls_await s j frame i r
  have hwork : (s.await j frame i r).work ≤ s.work + 6 := sum_calls hcalls
  refine ⟨length_calls hcalls, ⟨frame, .await i (s.nextCall i)⟩, rfl, trivial, ?_⟩
  show _ + frame.awaiting < _
  omega

theorem spends_nextRead {seen : ℕ} {todo : List ℕ} {reads : List (SnapshotRead δ)} {w : ℕ}
    (hw : 10 * todo.length + 2 * reads.length + 1 < w) :
    Spends s (s.nextRead j seen todo reads) j w := by
  cases todo with
  | nil =>
    have hplaced : Op.Placed s.entries.length
        (⟨.listResources seen [] reads [], .collect⟩ : Op ι ο δ) := ⟨seen, [], reads, [], rfl⟩
    apply spends_setOp hplaced
    show 2 * reads.length + 1 < w
    rw [List.length_nil] at hw
    omega
  | cons i todo =>
    apply spends_await
    show 10 * todo.length + 2 * reads.length + 4 + 6 < w
    rw [List.length_cons] at hw
    omega

theorem spends_nextStop {todo : List ℕ} {w : ℕ} (hw : 10 * todo.length < w) :
    Spends s (s.nextStop j todo) j w := by
  cases todo with
  | nil => exact spends_setOp trivial hw
  | cons i todo =>
    apply spends_await
    show 10 * todo.length + 3 + 6 < w
    rw [List.length_cons] at hw
    omega

/-- What follows a write is placed, and costs what its frame still has to do. -/
theorem effort_afterPersist {frame : Frame ι ο δ} {snapshot : Snapshot δ} {op : Op ι ο δ}
    (h : frame.afterPersist snapshot = some op) (entries : ℕ) :
    op.Placed entries ∧ op.effort entries = frame.persisting := by
  unfold Frame.afterPersist at h
  split at h
  · cases h
    exact ⟨⟨_, _, _, _, rfl⟩, rfl⟩
  · cases h
    exact ⟨trivial, rfl⟩
  · cases h
    exact ⟨trivial, rfl⟩
  · cases h

theorem spends_afterPersist {frame : Frame ι ο δ} {p : Produced δ} {w : ℕ}
    (h : s.afterPersist j frame p = some t) (hw : frame.persisting < w) : Spends s t j w := by
  obtain ⟨op, hop, rfl⟩ := afterPersist_some h
  obtain ⟨hplaced, heffort⟩ := effort_afterPersist hop s.entries.length
  exact ⟨rfl, op, rfl, hplaced, Nat.add_lt_add_left (heffort ▸ hw) _⟩

theorem spends_upsert {frame : Frame ι ο δ} {p : Produced δ} {w : ℕ}
    (h : s.upsert j frame p ok = some t) (hw : frame.persisting < w) : Spends s t j w := by
  unfold upsert at h
  split at h
  · obtain ⟨op, hop, rfl⟩ := afterPersist_some h
    obtain ⟨hplaced, heffort⟩ := effort_afterPersist hop s.entries.length
    exact ⟨rfl, op, rfl, hplaced, Nat.add_lt_add_left (heffort ▸ hw) _⟩
  · exact spends_afterPersist h hw

theorem spends_persistLatest [DecidableEq δ] {frame : Frame ι ο δ} {p : Produced δ} {w : ℕ}
    (h : s.persistLatest j frame p ok = some t) (hgoes : ∃ op, frame.afterPersist p.snapshot = some op)
    (hw : frame.persisting + 1 < w) : Spends s t j w := by
  obtain ⟨-, h⟩ | rfl := persistLatest_cases h
  · exact spends_afterPersist h (by omega)
  · refine spends_setOp ?_ hw
    obtain ⟨op, hop⟩ := hgoes
    show (frame.afterPersist p.snapshot).isSome = true
    rw [hop]
    rfl

/-- An entry is exchanged for one whose actor has as much left. -/
theorem Spends.of_set {i w : ℕ} {n : Registered ι ο δ} (hn : s.entries[i]? = some n)
    (n' : Registered ι ο δ) (hactor : n'.actor.effort = n.actor.effort)
    (h : Spends { s with entries := s.entries.set i n' } t j w) : Spends s t j w := by
  obtain ⟨hlen, op, hops, hplaced, hwork⟩ := h
  have hset := work_set hn n'
  have hlength : (s.entries.set i n').length = s.entries.length := List.length_set
  refine ⟨hlen.trans hlength, op, hops, ?_, ?_⟩
  · rwa [hlength] at hplaced
  · rw [hlength] at hwork
    omega

variable [DecidableEq δ]

/-- **A step of an operation is paid for.** -/
theorem Move.spends {op : Op ι ο δ} (h : Move s j ok op t) :
    Spends s t j (op.effort s.entries.length) := by
  cases h with
  | listStart seen todo reads out =>
    apply spends_nextRead
    show 10 * (List.range s.entries.length).length + 2 * 0 + 1 < 10 * s.entries.length + 2
    rw [List.length_range]
    omega
  | getMissing id entry _ => exact spends_setOp trivial (Nat.succ_pos 8)
  | getStart id entry i _ => exact spends_await (show 2 + 6 < 9 by omega)
  | transitionMissing id name input invoked output _ =>
    exact spends_setOp trivial (Nat.succ_pos 16)
  | transitionStart id name input invoked output i _ =>
    exact spends_await (show 10 + 6 < 17 by omega)
  | shutdownStart todo =>
    apply spends_nextStop
    show 10 * (List.range s.entries.length).length < 10 * s.entries.length + 1
    rw [List.length_range]
    omega
  | listAnswer seen todo reads out i k n result _ =>
    apply spends_nextRead
    show 10 * todo.length + 2 * (reads ++ [_]).length + 1 < 10 * todo.length + 2 * reads.length + 4
    rw [List.length_append, List.length_singleton]
    omega
  | getAnswer id entry i k n reply _ _ ht =>
    exact spends_persistLatest ht ⟨_, rfl⟩ (show 0 + 1 < 2 by omega)
  | getUnavailable | getFailed => exact spends_setOp trivial (Nat.succ_pos 1)
  | transitionFailed | transitionAccepted => exact spends_setOp trivial (Nat.succ_pos 9)
  | transitionCompleted id name input invoked i k n output snapshot _ =>
    exact spends_await (show 2 + 6 < 10 by omega)
  | followUp id name input invoked output i k n reply _ _ ht =>
    exact spends_persistLatest ht ⟨_, rfl⟩ (show 0 + 1 < 2 by omega)
  | followUpFailed => exact spends_setOp trivial (Nat.succ_pos 1)
  | shutdownAnswer todo i k n acknowledged hans =>
    have hi := (List.getElem?_eq_some_iff.mp hans.1).1
    exact spends_setOp ⟨hi, todo, rfl⟩ (Nat.lt_succ_self _)
  | collectEnd seen todo out => exact spends_setOp trivial (Nat.succ_pos _)
  | collectAvailable seen todo p reads out _ ht =>
    refine spends_persistLatest ht ⟨_, rfl⟩ ?_
    show 2 * reads.length + 1 + 1 < 2 * (reads.length + 1) + 1
    omega
  | collectUnavailable seen todo id placeholder reads out =>
    have hplaced : Op.Placed s.entries.length (⟨.listResources seen todo reads
        (out ++ [((s.latestResourceSnapshot id ok).toOption.join).getD placeholder]), .collect⟩ :
          Op ι ο δ) := ⟨_, _, _, _, rfl⟩
    apply spends_setOp hplaced
    show 2 * reads.length + 1 < 2 * (reads.length + 1) + 1
    omega
  | collectFailed seen todo reads out =>
    have hplaced : Op.Placed s.entries.length
        (⟨.listResources seen todo reads out, .collect⟩ : Op ι ο δ) := ⟨_, _, _, _, rfl⟩
    apply spends_setOp hplaced
    show 2 * reads.length + 1 < 2 * (reads.length + 1) + 1
    omega
  | write frame p _ ht => exact spends_upsert ht (Nat.lt_succ_self _)
  | lock todo i n _ hn ht =>
    obtain ⟨-, ⟨-, rfl⟩ | ⟨-, rfl⟩⟩ := lock_cases ht
    · have hi := (List.getElem?_eq_some_iff.mp hn).1
      have hplaced : Op.Placed (s.entries.set i { n with task := false, locked := true }).length
          (⟨.shutdown todo, .join i⟩ : Op ι ο δ) := ⟨by rwa [List.length_set], todo, rfl⟩
      exact Spends.of_set hn { n with task := false, locked := true } rfl
        (spends_setOp hplaced (Nat.lt_succ_self _))
    · refine spends_nextStop ?_
      show 10 * todo.length < 10 * todo.length + 2
      omega
  | join todo i n hn =>
    unfold Core.join
    refine Spends.of_set hn _ ?_ (spends_nextStop (Nat.lt_succ_self _))
    -- an abort leaves the work to the step at which it takes effect
    show (if _ then _ else _ : Executor ι ο (Snapshot δ)).effort = _
    split <;> rfl

namespace Action

/-- The steps of the operations, and those that actors and callers take by themselves. -/
def ofParties : Action ι ο δ → Prop
  | .op _ _ => True
  | .actor _ x => x.ofParties
  | _ => False

/-- The same, and the handlers return. -/
def cooperative : Action ι ο δ → Prop
  | .op _ _ => True
  | .actor _ x => x.cooperative
  | _ => False

omit [DecidableEq δ] in
theorem ofParties_of_cooperative {a : Action ι ο δ} (h : a.cooperative) : a.ofParties := by
  cases a with
  | op j ok => exact trivial
  | actor i x => exact Executor.Action.ofParties_of_cooperative h
  | register | begin | abandon => cases h

end Action

/-- A step of an actor, or of a caller of its handle. -/
theorem step_actor {i : ℕ} {x : Executor.Action ι ο (Snapshot δ)}
    (h : s.step (.actor i x) = some t) : external x = true ∧ ∃ n e, s.entries[i]? = some n ∧
      n.actor.step x = some e ∧ t = { s with entries := s.entries.set i { n with actor := e } } := by
  simp only [step] at h
  split at h
  · rename_i hx
    obtain ⟨n, hn, h⟩ := Option.bind_eq_some_iff.mp h
    obtain ⟨e, he, rfl⟩ := Option.map_eq_some_iff.mp h
    exact ⟨hx, n, e, hn, he, rfl⟩
  · cases h

/-- **Every step of the operations, the callers and the actors lowers what is left.** -/
theorem effort_lt {a : Action ι ο δ} (ha : a.ofParties) (h : s.step a = some t) :
    t.effort < s.effort := by
  cases a with
  | op j ok =>
    obtain ⟨op, hop, hstep⟩ := Option.bind_eq_some_iff.mp h
    obtain ⟨hlen, op', hops, -, hlt⟩ := (stepOp_move hstep).spends
    have hsum := sum_map_set (Op.effort s.entries.length) hop op'
    unfold effort
    rw [hops, hlen]
    omega
  | actor i x =>
    obtain ⟨-, n, e, hn, he, rfl⟩ := step_actor h
    have hlow := Executor.effort_lt ha he
    have hset := work_set hn { n with actor := e }
    unfold effort
    dsimp only at hset ⊢
    rw [List.length_set]
    omega
  | register | begin | abandon => cases ha

/-! ### What every reachable state satisfies -/

/-- The actor of an entry is one that runs by itself, and the entry has a handle of it. -/
structure Registered.Manned (n : Registered ι ο δ) : Prop where
  handles : n.actor.handles = true
  served : ∃ capacity, n.actor.Served capacity

/-- The task has ended, or the node has given it up. -/
def Registered.Halted (n : Registered ι ο δ) : Prop :=
  n.actor.task = .ended ∨ n.actor.aborted = true

/-- What a step leaves of an entry that is not locked or unlocked by it. -/
structure Registered.Stays (n n' : Registered ι ο δ) : Prop where
  task : n'.task = n.task
  locked : n'.locked = n.locked
  manned : n.Manned → n'.Manned
  halted : n.Manned → n.Halted → n'.Halted

section Stays

omit [DecidableEq δ]

theorem Registered.Stays.refl (n : Registered ι ο δ) : n.Stays n := ⟨rfl, rfl, id, fun _ => id⟩

theorem handles_of_effect {e e' : Executor ι ο (Snapshot δ)}
    {x : Executor.Action ι ο (Snapshot δ)} (h : Executor.Effect e x e') (hx : x ≠ .release) :
    e'.handles = e.handles := by
  cases h with
  | release => exact absurd rfl hx
  | _ => rfl

theorem aborted_of_effect {e e' : Executor ι ο (Snapshot δ)}
    {x : Executor.Action ι ο (Snapshot δ)} (h : Executor.Effect e x e') (ha : e.aborted = true) :
    e'.aborted = true := by
  cases h with
  | abort => rfl
  | _ => exact ha

theorem Registered.Manned.step {n : Registered ι ο δ} {x : Executor.Action ι ο (Snapshot δ)}
    {e : Executor ι ο (Snapshot δ)} (h : n.Manned) (hx : x ≠ .release)
    (he : n.actor.step x = some e) : Registered.Manned { n with actor := e } := by
  obtain ⟨capacity, hserved⟩ := h.served
  refine ⟨?_, capacity, hserved.step he⟩
  show e.handles = true
  rw [handles_of_effect (Executor.step_effect he) hx, h.handles]

theorem Registered.Manned.halted_step {n : Registered ι ο δ}
    {x : Executor.Action ι ο (Snapshot δ)} {e : Executor ι ο (Snapshot δ)} (h : n.Manned)
    (he : n.actor.step x = some e) (hh : n.Halted) : Registered.Halted { n with actor := e } := by
  obtain ⟨capacity, hserved⟩ := h.served
  have heff := Executor.step_effect he
  rcases hh with hended | haborted
  · exact .inl (Executor.ended_of_effect hserved.sound.alive heff hended).1
  · exact .inr (aborted_of_effect heff haborted)

theorem Registered.stays_step {n : Registered ι ο δ} {x : Executor.Action ι ο (Snapshot δ)}
    {e : Executor ι ο (Snapshot δ)} (hx : x ≠ .release) (he : n.actor.step x = some e) :
    n.Stays { n with actor := e } :=
  ⟨rfl, rfl, fun hm => hm.step hx he, fun hm => hm.halted_step he⟩

theorem Registered.stays_call (n : Registered ι ο δ) (r : Executor.Request ι) :
    n.Stays { n with actor := n.actor.call r } := by
  have hstep : n.Manned → n.actor.step (.call r) = some (n.actor.call r) := by
    intro hm
    show (if n.actor.handles = true then _ else _) = _
    rw [if_pos hm.handles]
  exact ⟨rfl, rfl, fun hm => hm.step (by simp) (hstep hm), fun hm => hm.halted_step (hstep hm)⟩

theorem Calls.back {es es' : List (Registered ι ο δ)} (h : Calls es es') {i : ℕ}
    {n' : Registered ι ο δ} (hn' : es'[i]? = some n') : ∃ n, es[i]? = some n ∧ n.Stays n' := by
  cases h with
  | none => exact ⟨n', hn', .refl n'⟩
  | call i' m r hm =>
    rcases Party.getElem?_set_cases hn' with ⟨rfl, rfl⟩ | ⟨-, hn⟩
    · exact ⟨m, hm, m.stays_call r⟩
    · exact ⟨n', hn, .refl n'⟩

end Stays

/-- What an operation's step does to the entries: the two steps around a join handle apart, it
makes one call at most. -/
inductive Handles (s : Core ι ο δ) (j : ℕ) (op : Op ι ο δ) (t : Core ι ο δ) : Prop
  | calls (hjoin : ∀ i, op.pc ≠ .join i) (h : Calls s.entries t.entries)
  | lock (todo : List ℕ) (i : ℕ) (n : Registered ι ο δ) (hop : op = ⟨.shutdown todo, .lock i⟩)
      (hn : s.entries[i]? = some n) (hlocked : n.locked = false)
      (ht : t = { s with
        entries := s.entries.set i { n with task := false, locked := true } }.setOp j
          ⟨.shutdown todo, .join i⟩)
  | join (todo : List ℕ) (i : ℕ) (n : Registered ι ο δ) (hop : op = ⟨.shutdown todo, .join i⟩)
      (hn : s.entries[i]? = some n) (ht : t = s.join j i todo n)

/-- A move handles the actors it takes over and leaves the others alone. -/
theorem Move.handles {op : Op ι ο δ} (h : Move s j ok op t) : Handles s j op t := by
  -- a handle is taken by `lock`, given up by `join`, and touched by nothing else
  cases h with
  | listStart seen todo reads out => exact .calls (by simp) (calls_nextRead _ _ _ _ _)
  | getStart | transitionStart | transitionCompleted =>
    exact .calls (by simp) (calls_await _ _ _ _ _)
  | shutdownStart todo => exact .calls (by simp) (calls_nextStop _ _ _)
  -- the next read is a call, and calls leave the handles alone
  | listAnswer => exact .calls (by simp) (calls_nextRead _ _ _ _ _)
  | getAnswer _ _ _ _ _ _ _ _ ht | followUp _ _ _ _ _ _ _ _ _ _ _ ht
  | collectAvailable _ _ _ _ _ _ ht =>
    refine .calls (by simp) ?_
    rw [entries_persistLatest ht]
    exact .none
  | write frame p _ ht =>
    refine .calls (by simp) ?_
    rw [entries_upsert ht]
    exact .none
  | lock todo i n _ hn ht =>
    obtain ⟨hlocked, ⟨-, rfl⟩ | ⟨-, rfl⟩⟩ := lock_cases ht
    · exact .lock todo i n rfl hn hlocked rfl
    · exact .calls (by simp) (calls_nextStop _ _ _)
  | join todo i n hn => exact .join todo i n rfl hn rfl
  | _ => exact .calls (by simp) .none

/-- A shutdown took the join handle of entry `i`, and was left while it awaited the task. -/
def Detached (s : Core ι ο δ) (i : ℕ) : Prop :=
  ∃ op ∈ s.ops, op.frame.kind = .shutdown ∧ op.pc = .abandoned (some i)

/-- What holds in every run: the handle of a locked entry is awaited by somebody, and a handle is
gone only if it is awaited, its task has been dealt with, or whoever awaited it has left. -/
structure Tended (s : Core ι ο δ) : Prop where
  wf : s.Wf
  placed : ∀ (j : ℕ) (op : Op ι ο δ), s.ops[j]? = some op → op.Placed s.entries.length
  manned : ∀ (i : ℕ) (n : Registered ι ο δ), s.entries[i]? = some n → n.Manned
  taken : ∀ (i : ℕ) (n : Registered ι ο δ), s.entries[i]? = some n → n.task = false →
    n.locked = true ∨ n.Halted ∨ s.Detached i
  held : ∀ (i : ℕ) (n : Registered ι ο δ), s.entries[i]? = some n → n.locked = true →
    ∃ (j : ℕ) (frame : Frame ι ο δ), s.ops[j]? = some ⟨frame, .join i⟩

section Tended

omit [DecidableEq δ]

theorem Op.Placed.mono {op : Op ι ο δ} {entries entries' : ℕ} (h : op.Placed entries)
    (hle : entries ≤ entries') : op.Placed entries' := by
  obtain ⟨frame, pc⟩ := op
  cases pc with
  | lock i | join i => exact ⟨Nat.lt_of_lt_of_le h.1 hle, h.2⟩
  | _ => exact h

/-- An operation that was left stays so, while another moves. -/
theorem Detached.set {i : ℕ} (h : s.Detached i) {op op' : Op ι ο δ} (hop : s.ops[j]? = some op)
    (hne : ∀ taken, op.pc ≠ .abandoned taken) (hops : t.ops = s.ops.set j op') : t.Detached i := by
  obtain ⟨o, ho, hkind, hpc⟩ := h
  obtain ⟨j', hj'⟩ := List.mem_iff_getElem?.mp ho
  have hj : j ≠ j' := by
    rintro rfl
    obtain rfl : op = o := Option.some.inj (hop.symm.trans hj')
    exact hne _ hpc
  refine ⟨o, List.mem_iff_getElem?.mpr ⟨j', ?_⟩, hkind, hpc⟩
  rw [hops, List.getElem?_set_ne hj, hj']

theorem Leaves.not_abandoned {op : Op ι ο δ} (h : Leaves s j op t) (taken : Option ℕ) :
    op.pc ≠ .abandoned taken := by
  cases h with
  | waiting frame pc hpc => rcases hpc with rfl | ⟨i, rfl⟩ <;> simp
  | joining frame i n _ => simp

/-- The entries stay, and whoever awaits a handle goes on to. -/
theorem Tended.of_stays (h : s.Tended) (hwf : t.Wf)
    (hplaced : ∀ (j : ℕ) (op : Op ι ο δ), t.ops[j]? = some op → op.Placed t.entries.length)
    (hback : ∀ (i : ℕ) (n' : Registered ι ο δ), t.entries[i]? = some n' →
      ∃ n, s.entries[i]? = some n ∧ n.Stays n')
    (hheld : ∀ (j : ℕ) (frame : Frame ι ο δ) (i : ℕ), s.ops[j]? = some ⟨frame, .join i⟩ →
      t.ops[j]? = some ⟨frame, .join i⟩)
    (hdetached : ∀ i, s.Detached i → t.Detached i) : t.Tended := by
  refine ⟨hwf, hplaced, fun i n' hn' => ?_, fun i n' hn' htask => ?_, fun i n' hn' hlocked => ?_⟩
  · obtain ⟨n, hn, hstays⟩ := hback i n' hn'
    exact hstays.manned (h.manned i n hn)
  · obtain ⟨n, hn, hstays⟩ := hback i n' hn'
    rcases h.taken i n hn (hstays.task ▸ htask) with hlocked | hhalted | hleft
    · exact .inl (hstays.locked.trans hlocked)
    · exact .inr (.inl (hstays.halted (h.manned i n hn) hhalted))
    · exact .inr (.inr (hdetached i hleft))
  · obtain ⟨n, hn, hstays⟩ := hback i n' hn'
    obtain ⟨j, frame, hj⟩ := h.held i n hn (hstays.locked ▸ hlocked)
    exact ⟨j, frame, hheld j frame i hj⟩

/-- The task of the entry has ended or is given up, and its handle is free. -/
theorem join_calls (s : Core ι ο δ) (j i : ℕ) (todo : List ℕ) (n : Registered ι ο δ) :
    ∃ n' : Registered ι ο δ, Calls (s.entries.set i n') (s.join j i todo n).entries ∧
      n'.locked = false ∧ n'.Halted ∧ (n.Manned → n'.Manned) := by
  have hcalls : ∀ actor, Calls (s.entries.set i { n with actor, locked := false })
      ({ s with entries := s.entries.set i { n with actor, locked := false } }.nextStop j
        todo).entries :=
    fun actor => calls_nextStop { s with
      entries := s.entries.set i { n with actor, locked := false } } j todo
  unfold join
  dsimp only
  split
  · rename_i hended
    exact ⟨{ n with locked := false }, hcalls n.actor, rfl, .inl hended,
      fun hm => ⟨hm.handles, hm.served⟩⟩
  · have habort : n.actor.step .abort = some { n.actor with aborted := true } := rfl
    refine ⟨_, hcalls { n.actor with aborted := true }, rfl, .inr rfl, fun hm => ?_⟩
    have hmanned := hm.step (by simp) habort
    exact ⟨hmanned.handles, hmanned.served⟩

/-- The operations beside `j` stay where they are. -/
theorem ops_other {op : Op ι ο δ} (hops : t.ops = s.ops.set j op) {j' : ℕ} (hne : j' ≠ j) :
    t.ops[j']? = s.ops[j']? := by
  rw [hops, List.getElem?_set_ne (Ne.symm hne)]

/-- Only the operation that awaits a handle gives it back. -/
theorem join_other {op op' : Op ι ο δ} (hop : s.ops[j]? = some op)
    (hops : t.ops = s.ops.set j op') {j' i : ℕ} {frame : Frame ι ο δ} (hne : op.pc ≠ .join i)
    (ho : s.ops[j']? = some ⟨frame, .join i⟩) : t.ops[j']? = some ⟨frame, .join i⟩ := by
  have hj : j' ≠ j := by
    rintro rfl
    obtain rfl : op = ⟨frame, .join i⟩ := Option.some.inj (hop.symm.trans ho)
    exact hne rfl
  rw [ops_other hops hj, ho]

/-- The operations are placed, if the one that moves is. -/
theorem Tended.placed_set (h : s.Tended) {op' : Op ι ο δ}
    (hlen : t.entries.length = s.entries.length) (hops : t.ops = s.ops.set j op')
    (hplaced : op'.Placed s.entries.length) :
    ∀ (j' : ℕ) (o : Op ι ο δ), t.ops[j']? = some o → o.Placed t.entries.length := by
  intro j' o ho
  rw [hlen]
  rcases ops_set_cases hops ho with ⟨-, rfl⟩ | ⟨-, ho⟩
  · exact hplaced
  · exact h.placed j' o ho

end Tended

theorem Move.not_abandoned {op : Op ι ο δ} (h : Move s j ok op t) (taken : Option ℕ) :
    op.pc ≠ .abandoned taken := by
  cases h <;> simp

/-- A move of one operation leaves every actor tended. -/
theorem Tended.op_step (h : s.Tended) {op : Op ι ο δ} (hop : s.ops[j]? = some op)
    (hm : Move s j ok op t) : t.Tended := by
  have hwf : t.Wf := h.wf.step (.op j ok op t hop hm)
  obtain ⟨hlen, op', hops, hplaced', -⟩ := hm.spends
  have hplaced := h.placed_set hlen hops hplaced'
  have hdetached : ∀ i, s.Detached i → t.Detached i :=
    fun i hi => hi.set hop hm.not_abandoned hops
  cases hm.handles with
  | calls hjoin hcalls =>
    exact h.of_stays hwf hplaced (fun i n' hn' => hcalls.back hn')
      (fun j' frame i => join_other hop hops (hjoin i)) hdetached
  | lock todo i n hop' hn hlocked ht =>
    subst hop' ht
    have hlt : j < s.ops.length := (List.getElem?_eq_some_iff.mp hop).1
    refine ⟨hwf, hplaced, fun i' m hm' => ?_, fun i' m hm' htask => ?_, fun i' m hm' hl => ?_⟩
    · rcases set_entries_cases hn hm' with ⟨-, rfl⟩ | ⟨-, hm'⟩
      · have hmanned := h.manned i n hn
        exact ⟨hmanned.handles, hmanned.served⟩
      · exact h.manned i' m hm'
    · rcases set_entries_cases hn hm' with ⟨-, rfl⟩ | ⟨-, hm'⟩
      · exact .inl rfl
      · exact (h.taken i' m hm' htask).imp id (.imp id (hdetached i'))
    · rcases set_entries_cases hn hm' with ⟨rfl, rfl⟩ | ⟨-, hm'⟩
      · refine ⟨j, .shutdown todo, ?_⟩
        show (s.ops.set j _)[j]? = _
        rw [List.getElem?_set_self hlt]
      · obtain ⟨j', frame, ho⟩ := h.held i' m hm' hl
        exact ⟨j', frame, join_other hop hops (by simp) ho⟩
  | join todo i n hop' hn ht =>
    subst hop'
    obtain ⟨n₁, hcalls, hfree, hhalted, hmanned⟩ := join_calls s j i todo n
    rw [← ht] at hcalls
    -- the entry is unlocked, its task is dealt with; the others stay
    have hback : ∀ (i' : ℕ) (m' : Registered ι ο δ), t.entries[i']? = some m' →
        ∃ m, m.Stays m' ∧ m.Manned ∧ (i' = i ∧ m = n₁ ∨ i' ≠ i ∧ s.entries[i']? = some m) := by
      intro i' m' hm'
      obtain ⟨m, hm₁, hstays⟩ := hcalls.back hm'
      rcases set_entries_cases hn hm₁ with ⟨rfl, rfl⟩ | ⟨hne, hm₁⟩
      · exact ⟨m, hstays, hmanned (h.manned i' n hn), .inl ⟨rfl, rfl⟩⟩
      · exact ⟨m, hstays, h.manned i' m hm₁, .inr ⟨hne, hm₁⟩⟩
    refine ⟨hwf, hplaced, fun i' m' hm' => ?_, fun i' m' hm' htask => ?_, fun i' m' hm' hl => ?_⟩
    · obtain ⟨m, hstays, hm₁, -⟩ := hback i' m' hm'
      exact hstays.manned hm₁
    · obtain ⟨m, hstays, hm₁, ⟨rfl, rfl⟩ | ⟨-, hold⟩⟩ := hback i' m' hm'
      · exact .inr (.inl (hstays.halted hm₁ hhalted))
      · rcases h.taken i' m hold (hstays.task ▸ htask) with hl | hh | hleft
        · exact .inl (hstays.locked.trans hl)
        · exact .inr (.inl (hstays.halted hm₁ hh))
        · exact .inr (.inr (hdetached i' hleft))
    · obtain ⟨m, hstays, -, ⟨rfl, rfl⟩ | ⟨hne, hold⟩⟩ := hback i' m' hm'
      · rw [hstays.locked, hfree] at hl
        cases hl
      · obtain ⟨j', frame, ho⟩ := h.held i' m hold (hstays.locked ▸ hl)
        refine ⟨j', frame, join_other hop hops ?_ ho⟩
        rintro ⟨rfl⟩
        exact hne rfl

/-- Whoever leaves while it awaits a task gives the mutex back, and takes the handle along. -/
theorem Tended.abandon_step (h : s.Tended) {op : Op ι ο δ} (hop : s.ops[j]? = some op)
    (hl : Leaves s j op t) : t.Tended := by
  have hwf : t.Wf := h.wf.step (.abandon j op t hop hl)
  obtain ⟨taken, hops⟩ := hl.ops
  have hdetached : ∀ i, s.Detached i → t.Detached i :=
    fun i hi => hi.set hop hl.not_abandoned hops
  have hplaced := h.placed_set hl.keeps.length hops trivial
  -- nothing is held yet, or the handle of the entry goes with the future
  cases hl with
  | waiting frame pc hpc =>
    have hjoin : ∀ i, pc ≠ .join i := by rcases hpc with rfl | ⟨i, rfl⟩ <;> simp
    exact h.of_stays hwf hplaced (fun i n' hn' => ⟨n', hn', .refl n'⟩)
      (fun j' frame i => join_other hop hops (hjoin i)) hdetached
  | joining frame i n hn =>
    have hlt : j < s.ops.length := (List.getElem?_eq_some_iff.mp hop).1
    obtain ⟨-, todo, hframe⟩ := h.placed j _ hop
    have hframe : frame = .shutdown todo := hframe
    subst hframe
    have hleft : ({ s with entries := s.entries.set i { n with locked := false } }.setOp j
        ⟨.shutdown todo, .abandoned (some i)⟩ : Core ι ο δ).Detached i :=
      ⟨_, List.mem_iff_getElem?.mpr ⟨j, List.getElem?_set_self hlt⟩, rfl, rfl⟩
    refine ⟨hwf, hplaced, fun i' m hm => ?_, fun i' m hm htask => ?_, fun i' m hm hlocked => ?_⟩
    · rcases set_entries_cases hn hm with ⟨-, rfl⟩ | ⟨-, hm⟩
      · have hmanned := h.manned i n hn
        exact ⟨hmanned.handles, hmanned.served⟩
      · exact h.manned i' m hm
    · -- its own entry is detached from here on
      rcases set_entries_cases hn hm with ⟨rfl, -⟩ | ⟨-, hm⟩
      · exact .inr (.inr hleft)
      · exact (h.taken i' m hm htask).imp id (.imp id (hdetached i'))
    · rcases set_entries_cases hn hm with ⟨-, rfl⟩ | ⟨hne, hm⟩
      · cases hlocked
      · obtain ⟨j', frame', ho⟩ := h.held i' m hm hlocked
        -- whoever holds another handle is still there
        refine ⟨j', frame', join_other hop hops ?_ ho⟩
        rintro ⟨rfl⟩
        exact hne rfl

/-- Every step leaves every actor tended. -/
theorem Tended.step {a : Action ι ο δ} (h : s.Tended) (hs : s.step a = some t) : t.Tended := by
  cases a with
  | op j ok =>
    obtain ⟨op, hop, hstep⟩ := Option.bind_eq_some_iff.mp hs
    exact h.op_step hop (stepOp_move hstep)
  | abandon j =>
    obtain ⟨op, hop, hstep⟩ := Option.bind_eq_some_iff.mp hs
    exact h.abandon_step hop (abandon_leaves hstep)
  | actor i x =>
    have hwf := h.wf.step (step_steps hs)
    obtain ⟨hx, n, e, hn, he, rfl⟩ := step_actor hs
    have hne : x ≠ .release := by
      rintro rfl
      cases hx
    -- the actor steps under the entry, whose handle is as it was
    refine h.of_stays hwf ?_ ?_ (fun _ _ _ ho => ho) fun _ hi => hi
    · intro j op ho
      show op.Placed (s.entries.set i _).length
      rw [List.length_set]
      exact h.placed j op ho
    · intro i' n' hn'
      rcases set_entries_cases hn hn' with ⟨rfl, rfl⟩ | ⟨-, hn'⟩
      · exact ⟨n, hn, Registered.stays_step hne he⟩
      · exact ⟨n', hn', .refl n'⟩
  | begin r =>
    have hwf := h.wf.step (step_steps hs)
    cases hs
    refine h.of_stays hwf ?_ (fun i n' hn' => ⟨n', hn', .refl n'⟩) ?_ ?_
    · intro j op ho
      rcases append_cases ho with ⟨-, rfl⟩ | ho
      · exact trivial
      · exact h.placed j op ho
    · intro j frame i ho
      have hlt := (List.getElem?_eq_some_iff.mp ho).1
      show (s.ops ++ _)[j]? = _
      rw [List.getElem?_append_left hlt, ho]
    · rintro i ⟨op, ho, hpc⟩
      exact ⟨op, List.mem_append_left _ ho, hpc⟩
  | register entry spec =>
    have hwf := h.wf.step (step_steps hs)
    simp only [Core.step] at hs
    split at hs
    · cases hs
    · cases hs
      -- a new entry has its handle, and nobody waits for it
      refine ⟨hwf, fun j op ho => ?_, fun i n hn => ?_, fun i n hn htask => ?_,
        fun i n hn hlocked => ?_⟩
      · exact (h.placed j op ho).mono (by simp)
      · rcases append_cases hn with ⟨-, rfl⟩ | hn
        · exact ⟨rfl, _, Executor.sound_spawn _, Executor.slots_spawn _⟩
        · exact h.manned i n hn
      · rcases append_cases hn with ⟨-, rfl⟩ | hn
        · cases htask
        · exact h.taken i n hn htask
      · rcases append_cases hn with ⟨-, rfl⟩ | hn
        · cases hlocked
        · exact h.held i n hn hlocked

section Run

variable {node : String} {actorQueueCapacity : ℕ} {persistent : Bool} {store : SnapshotStore δ}

theorem tended_of_reachable
    (h : (machine ι ο node actorQueueCapacity persistent store).Reachable s) : s.Tended := by
  refine h.inv ?_ fun _ _ _ => Tended.step
  exact ⟨wf_init _ _ _ _, by simp [machine], by simp [machine], by simp [machine],
    by simp [machine]⟩

theorem ranks_ofParties (ι ο : Type*) {δ : Type*} [DecidableEq δ] (node : String)
    (actorQueueCapacity : ℕ) (persistent : Bool) (store : SnapshotStore δ) :
    (machine ι ο node actorQueueCapacity persistent store).Ranks Action.ofParties Tended effort where
  keeps _ _ _ h _ hs := h.step hs
  lowers _ _ _ _ ha hs := effort_lt ha hs

end Run

/-! ### At rest -/

/-- The answer is one that a call of `r` can get. -/
def Yields (r : Executor.Request ι) (ans : Executor.Answer ο (Snapshot δ)) : Prop :=
  match r with
  | .transitionWithCtx _ _ | .tryTransition _ _ => ∃ result, ans = .transition result
  | .snapshot => ∃ result, ans = .snapshot result
  | .shutdown => ∃ acknowledged, ans = .shutdown acknowledged

omit [DecidableEq δ] in
/-- What a call returns is an answer to its request. -/
theorem yields_of_returned {e : Executor ι ο (Snapshot δ)} (h : e.Sound) {k : ℕ}
    {c : Executor.Call ι ο (Snapshot δ)} {ans : Executor.Answer ο (Snapshot δ)}
    (hr : e.Returned k c ans) : Yields c.request ans := by
  -- the answer is the handler's, or the executor's in its place
  cases hr with
  | own hlog =>
    have hfits := h.fits_of_ended hlog
    cases hreq : c.request with
    | transitionWithCtx name input | tryTransition name input =>
      rw [hreq] at hfits
      cases ans with
      | transition result => exact ⟨result, rfl⟩
      | snapshot _ | shutdown _ => cases hfits
    | snapshot =>
      rw [hreq] at hfits
      cases ans with
      | snapshot result => exact ⟨result, rfl⟩
      | transition _ | shutdown _ => cases hfits
    | shutdown =>
      rw [hreq] at hfits
      cases ans with
      | shutdown acknowledged => exact ⟨acknowledged, rfl⟩
      | transition _ | snapshot _ => cases hfits
  | refused _ ha =>
    rcases ha with rfl | ⟨⟨name, input, hreq⟩, rfl⟩
    · cases hreq : c.request <;> exact ⟨_, rfl⟩
    · rw [hreq]
      exact ⟨_, rfl⟩
  | lost _ ha =>
    subst ha
    cases hreq : c.request <;> exact ⟨_, rfl⟩
  | unacknowledged hreq ha =>
    subst ha
    rw [hreq]
    exact ⟨_, rfl⟩

omit [DecidableEq δ] in
theorem isSome_upsert {frame : Frame ι ο δ} {p : Produced δ}
    (h : (frame.afterPersist p.snapshot).isSome = true) : (s.upsert j frame p ok).isSome = true := by
  unfold upsert afterPersist
  split
  · rw [Option.isSome_map, h]
  · rw [Option.isSome_map, h]

theorem isSome_persistLatest {frame : Frame ι ο δ} {p : Produced δ}
    (h : (frame.afterPersist p.snapshot).isSome = true) :
    (s.persistLatest j frame p ok).isSome = true := by
  unfold persistLatest afterPersist
  split
  · rfl
  · rw [Option.isSome_map, h]

/-- An operation goes on once its call has an answer. -/
theorem isSome_resume {frame : Frame ι ο δ} {n : Registered ι ο δ} {i k : ℕ}
    {ans : Executor.Answer ο (Snapshot δ)} (h : Yields frame.request ans) :
    (s.resume j frame n i k ok ans).isSome = true := by
  -- each operation takes the answers to what it asked
  cases frame with
  | listResources seen todo reads out =>
    obtain ⟨result, rfl⟩ := h
    rfl
  | getResource id entry =>
    obtain ⟨result, rfl⟩ := h
    cases result with
    | ok reply => exact isSome_persistLatest rfl
    | error err => cases err <;> rfl
  | runResourceTransition id name input invoked output =>
    cases output with
    | none =>
      obtain ⟨result, rfl⟩ := h
      cases result with
      | ok outcome => cases outcome <;> rfl
      | error err => rfl
    | some output =>
      obtain ⟨result, rfl⟩ := h
      cases result with
      | ok reply => exact isSome_persistLatest rfl
      | error err => rfl
  | shutdown todo =>
    obtain ⟨acknowledged, rfl⟩ := h
    rfl

/-- The operation awaits a call that has not returned. -/
def Waits (s : Core ι ο δ) (op : Op ι ο δ) (n : Registered ι ο δ) (k : ℕ)
    (c : Executor.Call ι ο (Snapshot δ)) : Prop :=
  ∃ i, op.pc = .await i k ∧ s.entries[i]? = some n ∧ n.actor.calls[k]? = some c ∧
    c.request = op.frame.request ∧ ∀ ans, c.phase ≠ .returned ans

/-- No operation can take a step. -/
def OpsRest (s : Core ι ο δ) : Prop := ∀ j ok, s.step (.op j ok) = none

/-- A locked join handle is awaited by an operation that can go on. -/
theorem OpsRest.unlocked (h : s.Tended) (hrest : s.OpsRest) {i : ℕ} {n : Registered ι ο δ}
    (hn : s.entries[i]? = some n) : n.locked = false := by
  cases hlocked : n.locked with
  | false => rfl
  | true =>
    obtain ⟨j, frame, hj⟩ := h.held i n hn hlocked
    obtain ⟨-, todo, hframe⟩ := h.placed j _ hj
    have hframe : frame = .shutdown todo := hframe
    subst hframe
    have hnone := hrest j true
    simp [Core.step, hj, stepOp, hn] at hnone

/-- **What an operation waits for**: where none can take a step, each is over, was left, or awaits a
call. -/
theorem OpsRest.waits (h : s.Tended) (hrest : s.OpsRest) {op : Op ι ο δ}
    (hop : s.ops[j]? = some op) : (∃ result, op.pc = .done result) ∨
      (∃ taken, op.pc = .abandoned taken) ∨ ∃ n k c, s.Waits op n k c := by
  have hnone := hrest j true
  simp only [Core.step, hop, Option.bind_some] at hnone
  have hplaced := h.placed j op hop
  have hawait := (h.wf.ops j op hop).await
  -- where the operation stands, it could go on, unless it is over or waits for an actor
  obtain ⟨frame, pc⟩ := op
  cases pc with
  | done result => exact .inl ⟨result, rfl⟩
  | abandoned taken => exact .inr (.inl ⟨taken, rfl⟩)
  | start => cases hnone
  | await i k =>
    obtain ⟨n, c, hn, hc, hreq⟩ := hawait i k rfl
    refine .inr (.inr ⟨n, k, c, i, rfl, hn, hc, hreq, fun ans hp => ?_⟩)
    have hreturned := (h.wf.sound i n hn).answered k c hc
    simp only [Executor.CallOk, hp] at hreturned
    have hyields := yields_of_returned (h.wf.sound i n hn) hreturned
    rw [hreq] at hyields
    have hgoes : (s.resume j frame n i k true ans).isSome = true := isSome_resume hyields
    simp only [stepOp, hn, Option.bind_some, hc, hp] at hnone
    rw [hnone] at hgoes
    cases hgoes
  | collect =>
    obtain ⟨seen, todo, reads, out, hframe⟩ := hplaced
    have hframe : frame = .listResources seen todo reads out := hframe
    subst hframe
    cases reads with
    -- what is read goes to the store or into the result
    | nil => cases hnone
    | cons read reads =>
      cases read with
      | available p =>
        have hgoes : (s.persistLatest j (.listResources seen todo reads out) p true).isSome = true :=
          isSome_persistLatest rfl
        have hnone : s.persistLatest j (.listResources seen todo reads out) p true = none := hnone
        rw [hnone] at hgoes
        cases hgoes
      | unavailable id placeholder => cases hnone
      | failed => cases hnone
  | write p =>
    have hgoes : (s.upsert j frame p true).isSome = true := isSome_upsert hplaced
    have hnone : s.upsert j frame p true = none := hnone
    rw [hnone] at hgoes
    cases hgoes
  | lock i =>
    obtain ⟨hi, todo, hframe⟩ := hplaced
    have hframe : frame = .shutdown todo := hframe
    subst hframe
    have hn := List.getElem?_eq_getElem hi
    -- at rest nobody holds the mutex, so it could be taken
    have hfree := hrest.unlocked h hn
    cases htask : s.entries[i].task <;> simp [stepOp, hn, lock, hfree, htask] at hnone
  | join i =>
    obtain ⟨hi, todo, hframe⟩ := hplaced
    have hframe : frame = .shutdown todo := hframe
    subst hframe
    simp [stepOp, List.getElem?_eq_getElem hi] at hnone

/-- No operation, no caller and no actor can go on. -/
def Resting (s : Core ι ο δ) : Prop := ∀ a : Action ι ο δ, a.cooperative → s.step a = none

omit [DecidableEq δ] in
theorem external_of_cooperative {x : Executor.Action ι ο (Snapshot δ)} (h : x.cooperative) :
    external x = true := by
  cases x with
  | call r | abort | release => cases h
  | _ => rfl

theorem Resting.actor (h : s.Resting) {i : ℕ} {n : Registered ι ο δ}
    (hn : s.entries[i]? = some n) : n.actor.Resting := by
  intro x hx
  have hnone := h (.actor i x) hx
  simp only [Core.step, if_pos (external_of_cooperative hx), hn, Option.bind_some] at hnone
  exact Option.map_eq_none_iff.mp hnone

/-- The caller of the operation left, and with it the call the operation awaits, if any. -/
def Dropped (s : Core ι ο δ) (op : Op ι ο δ) : Prop :=
  (∃ taken, op.pc = .abandoned taken) ∨ ∃ n k c, s.Waits op n k c ∧ c.phase = .abandoned

/-- **The requests to a node come to an end.**  Let a run have led to any state: any number of
resources, of operations in any phase and of other callers, operations whose callers left, panics,
aborts and failures of the storage.  From there a schedule of steps of the operations, of the
callers and of the actors is no longer than the effort, and it can be completed with handlers that
return until none of them can go on.  In every such state each operation is over, or its caller
left; each actor waits at an empty mailbox or has ended; no join handle is locked, and one is gone
only if its task has ended, was aborted, or was awaited by a shutdown whose caller left. -/
theorem requests_finish (ι ο : Type*) {δ : Type*} [DecidableEq δ] (node : String)
    (actorQueueCapacity : ℕ) (persistent : Bool) (store : SnapshotStore δ) {s t : Core ι ο δ}
    (h : (machine ι ο node actorQueueCapacity persistent store).Reachable s)
    {as : List (Action ι ο δ)} (has : ∀ a ∈ as, a.ofParties)
    (hr : (machine ι ο node actorQueueCapacity persistent store).run s as = some t) :
    as.length ≤ s.effort ∧
      (∃ bs u, (∀ a ∈ bs, a.cooperative) ∧
        (machine ι ο node actorQueueCapacity persistent store).run t bs = some u ∧ u.Resting) ∧
      (t.Resting →
        (∀ op ∈ t.ops, (∃ result, op.pc = .done result) ∨ t.Dropped op) ∧
        ∀ (i : ℕ) (n : Registered ι ο δ), t.entries[i]? = some n → n.locked = false ∧
          (n.task = true ∨ n.Halted ∨ t.Detached i) ∧
          (n.actor.task = .idle ∧ n.actor.mailbox.buf = [] ∨ n.actor.task = .ended)) := by
  -- the ranks bound the run; `exists_atRest` runs the parties of `t` out
  have hranks := ranks_ofParties ι ο node actorQueueCapacity persistent store
  obtain ⟨hlen, ht, -⟩ := hranks.settles (tended_of_reachable h) has hr
  obtain ⟨bs, u, hbs, hrun, hrest⟩ :=
    (hranks.mono fun a ha => Action.ofParties_of_cooperative ha).exists_atRest ht
  refine ⟨hlen, ⟨bs, u, hbs, hrun, hrest⟩, fun hresting => ⟨fun op hop => ?_, fun i n hi => ?_⟩⟩
  · obtain ⟨j, hj⟩ := List.mem_iff_getElem?.mp hop
    have hops : t.OpsRest := fun j ok => hresting (.op j ok) trivial
    rcases hops.waits ht hj with hdone | hleft | ⟨n, k, c, hwaits⟩
    · exact .inl hdone
    · exact .inr (.inl hleft)
    · -- the call it awaits was answered, or somebody dropped it
      obtain ⟨i, -, hn, hc, -, hnot⟩ := id hwaits
      obtain ⟨capacity, hserved⟩ := (ht.manned i n hn).served
      rcases (hresting.actor hn).answered hserved hc with ⟨ans, hp, -⟩ | hp
      · exact absurd hp (hnot ans)
      · exact .inr (.inr ⟨n, k, c, hwaits, hp⟩)
  · have hops : t.OpsRest := fun j ok => hresting (.op j ok) trivial
    have hfree := hops.unlocked ht hi
    refine ⟨hfree, ?_, ?_⟩
    · -- an empty task slot is held open by a `shutdown`, or the task was given up
      cases htask : n.task with
      | true => exact .inl rfl
      | false =>
        rcases ht.taken i n hi htask with hlocked | hgone
        · rw [hfree] at hlocked
          cases hlocked
        · exact .inr hgone
    · rcases (hresting.actor hi).task with ⟨hidle, -, hbuf⟩ | hended
      · exact .inl ⟨hidle, hbuf⟩
      · exact .inr hended

/-- A listing and a shutdown have called the lamp. -/
def listThenStop : List (Action String String String) :=
  [.register lamp lampReports, .begin .listResources, .begin .shutdown, .op 0 true, .op 1 true]

/-- The lamp answers both, and both go on to their end. -/
def listThenStopEnd : List (Action String String String) :=
  [.actor 0 .start, .actor 0 (.reserve 0), .actor 0 (.send 0), .actor 0 (.reserve 1),
    .actor 0 (.send 1), .actor 0 .recv, .actor 0 (.reply (.snapshot (.ok (lampSnapshot "on")))),
    .actor 0 (.receive 0), .op 0 true, .actor 0 .recv, .actor 0 (.reply (.shutdown true)),
    .actor 0 .finish, .actor 0 (.receive 1), .op 1 true, .op 0 true, .op 0 true, .op 0 true,
    .op 1 true, .op 1 true]

/-- What an operation that is over returned. -/
def Op.result? (op : Op ι ο δ) : Option (Result ο δ) :=
  match op.pc with
  | .done result => some result
  | _ => none

/-- A listing and a shutdown, run one after the other: both return their results. -/
theorem requests_finish_listThenStop : ∃ s t : Core String String String,
    lampMachine.run lampMachine.init listThenStop = some s ∧
    lampMachine.run s listThenStopEnd = some t ∧
    t.ops.map Op.result? =
      [some (.listed [{ lampSnapshot "on" with id := "lamp", node := "hub" }]), some .stopped] ∧
    listThenStopEnd.length ≤ s.effort := by
  have hfirst : (lampMachine.run lampMachine.init listThenStop).isSome = true := by decide
  obtain ⟨s, hs⟩ := Option.isSome_iff_exists.mp hfirst
  have hboth : (lampMachine.run lampMachine.init (listThenStop ++ listThenStopEnd)).map
      (fun t => t.ops.map Op.result?) = some
        [some (.listed [{ lampSnapshot "on" with id := "lamp", node := "hub" }]), some .stopped] := by
    decide
  rw [Machine.run_append hs] at hboth
  obtain ⟨t, ht, hops⟩ := Option.map_eq_some_iff.mp hboth
  have hparties : ∀ a ∈ listThenStopEnd, a.ofParties := by
    simp [listThenStopEnd, Action.ofParties, Executor.Action.ofParties]
  exact ⟨s, t, hs, ht, hops,
    (requests_finish String String "hub" 32 true .empty ⟨_, hs⟩ hparties ht).1⟩

end Boardwalk.Core
