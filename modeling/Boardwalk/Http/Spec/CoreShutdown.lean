import Boardwalk.Http.Spec.CoreProgress

/-!
# What the shutdown of a node does and what it waits for

`Node::shutdown` goes through the entries it found, one after the other: it asks the actor to stop,
takes the join handle of the task, waits for the task and aborts it when the time is over.  When it
returns, no actor it found goes on (`shutdown_stops_actors`), also when several shutdowns run at
once and share the handles.  There is one exception: a caller that drops its shutdown while that
awaits a task takes the handle along, and no later shutdown finds it.

The time limit covers the reply of the actor and the end of its task, not the send of the request:
`shutdown_waits_only_for_mailbox` says that a shutdown which gets no further waits for a slot of a
mailbox that is full.
-/

namespace Boardwalk.Core

variable {ι ο δ : Type*} [DecidableEq δ] {s t : Core ι ο δ} {j : ℕ} {ok : Bool}

/-! ### A task that is dealt with stays so -/

omit [DecidableEq δ] in
/-- An entry after a move was there before, and stays halted if it was manned and halted. -/
theorem Handles.back {op : Op ι ο δ} (h : Handles s j op t) {i : ℕ} {n' : Registered ι ο δ}
    (hn' : t.entries[i]? = some n') :
    ∃ n, s.entries[i]? = some n ∧ (n.Manned → n.Halted → n'.Halted) := by
  cases h with
  | calls hjoin hcalls =>
    obtain ⟨n, hn, hstays⟩ := hcalls.back hn'
    exact ⟨n, hn, hstays.halted⟩
  | lock todo i' m hop hm hlocked ht =>
    subst ht
    rcases set_entries_cases hm hn' with ⟨rfl, rfl⟩ | ⟨-, hn⟩
    · exact ⟨m, hm, fun _ => id⟩
    · exact ⟨n', hn, fun _ => id⟩
  | join todo i' m hop hm ht =>
    obtain ⟨m', hcalls, -, hhalted, hmanned⟩ := join_calls s j i' todo m
    rw [← ht] at hcalls
    obtain ⟨n, hn, hstays⟩ := hcalls.back hn'
    rcases set_entries_cases hm hn with ⟨rfl, rfl⟩ | ⟨-, hn⟩
    · exact ⟨m, hm, fun hm₁ _ => hstays.halted (hmanned hm₁) hhalted⟩
    · exact ⟨n, hn, hstays.halted⟩

/-- The task of entry `i` has ended or was aborted. -/
def HaltedAt (s : Core ι ο δ) (i : ℕ) : Prop := ∃ n, s.entries[i]? = some n ∧ n.Halted

omit [DecidableEq δ] in
/-- Whoever is left gives the mutex of an entry back, and does nothing to its task. -/
theorem Leaves.back {op : Op ι ο δ} (h : Leaves s j op t) {i : ℕ} {n' : Registered ι ο δ}
    (hn' : t.entries[i]? = some n') :
    ∃ n, s.entries[i]? = some n ∧ (n.Halted → n'.Halted) := by
  cases h with
  | waiting frame pc _ => exact ⟨n', hn', id⟩
  | joining frame i' m hm =>
    rcases set_entries_cases hm hn' with ⟨rfl, rfl⟩ | ⟨-, hn⟩
    · exact ⟨m, hm, id⟩
    · exact ⟨n', hn, id⟩

/-- An actor that has halted stays halted over every step. -/
theorem HaltedAt.step {a : Action ι ο δ} {i : ℕ} (h : s.HaltedAt i) (hs : s.Tended)
    (hstep : s.step a = some t) : t.HaltedAt i := by
  obtain ⟨n, hn, hhalted⟩ := h
  have hmanned := hs.manned i n hn
  obtain ⟨n', hn', -⟩ := (step_steps hstep).grows.entries i n hn
  refine ⟨n', hn', ?_⟩
  cases a with
  | op j ok =>
    obtain ⟨op, hop, hop'⟩ := Option.bind_eq_some_iff.mp hstep
    obtain ⟨m, hm, hstays⟩ := (stepOp_move hop').handles.back hn'
    obtain rfl : n = m := Option.some.inj (hn.symm.trans hm)
    exact hstays hmanned hhalted
  | abandon j =>
    -- the caller leaves: its entry keeps the actor as it was
    obtain ⟨op, hop, hop'⟩ := Option.bind_eq_some_iff.mp hstep
    obtain ⟨m, hm, hstays⟩ := (abandon_leaves hop').back hn'
    obtain rfl : n = m := Option.some.inj (hn.symm.trans hm)
    exact hstays hhalted
  | actor i' x =>
    obtain ⟨hx, m, e, hm, he, rfl⟩ := step_actor hstep
    -- only the step of its own actor touches the task
    rcases set_entries_cases hm hn' with ⟨rfl, rfl⟩ | ⟨-, hsame⟩
    · obtain rfl : n = m := Option.some.inj (hn.symm.trans hm)
      exact hmanned.halted_step he hhalted
    · obtain rfl : n = n' := Option.some.inj (hn.symm.trans hsame)
      exact hhalted
  | begin r =>
    cases hstep
    obtain rfl : n = n' := Option.some.inj (hn.symm.trans hn')
    exact hhalted
  | register entry spec =>
    simp only [Core.step] at hstep
    split at hstep
    · cases hstep
    · cases hstep
      rcases append_cases hn' with ⟨hi, -⟩ | hsame
      · have hlt := (List.getElem?_eq_some_iff.mp hn).1
        omega
      · obtain rfl : n = n' := Option.some.inj (hn.symm.trans hsame)
        exact hhalted

/-- An actor whose join handle is gone stays detached over every step. -/
theorem Detached.step {a : Action ι ο δ} {i : ℕ} (h : s.Detached i) (hstep : s.step a = some t) :
    t.Detached i := by
  cases a with
  | op j ok =>
    obtain ⟨op, hop, hop'⟩ := Option.bind_eq_some_iff.mp hstep
    have hm := stepOp_move hop'
    obtain ⟨-, op', hops, -⟩ := hm.spends
    exact h.set hop hm.not_abandoned hops
  | abandon j =>
    obtain ⟨op, hop, hop'⟩ := Option.bind_eq_some_iff.mp hstep
    have hl := abandon_leaves hop'
    obtain ⟨taken, hops⟩ := hl.ops
    exact h.set hop hl.not_abandoned hops
  | actor i' x =>
    obtain ⟨-, n, e, -, -, rfl⟩ := step_actor hstep
    exact h
  | begin r =>
    cases hstep
    obtain ⟨op, hop, hpc⟩ := h
    exact ⟨op, List.mem_append_left _ hop, hpc⟩
  | register entry spec =>
    simp only [Core.step] at hstep
    split at hstep
    · cases hstep
    · cases hstep
      exact h

/-- No shutdown has to deal with the task of entry `i` any more: it has ended or was aborted, or its
handle is gone with a shutdown that was left. -/
def GivenUp (s : Core ι ο δ) (i : ℕ) : Prop := s.HaltedAt i ∨ s.Detached i

theorem GivenUp.step {a : Action ι ο δ} {i : ℕ} (h : s.GivenUp i) (hs : s.Tended)
    (hstep : s.step a = some t) : t.GivenUp i :=
  h.imp (fun hh => hh.step hs hstep) fun hd => hd.step hstep

/-! ### What a shutdown has still to go through -/

/-- The shutdown has still to deal with entry `i`, or was left. -/
def Op.Owes (op : Op ι ο δ) (i : ℕ) : Prop :=
  match op.pc with
  | .start | .abandoned _ => True
  | .await i' _ | .lock i' | .join i' => i = i' ∨ i ∈ op.frame.todo
  | _ => False

/-- Operation `j` is a shutdown, and each of the first `entries` entries is dealt with, or will
be. -/
def Stopping (entries j : ℕ) (s : Core ι ο δ) : Prop :=
  entries ≤ s.entries.length ∧ ∃ op, s.ops[j]? = some op ∧ op.frame.kind = .shutdown ∧
    ∀ i < entries, op.Owes i ∨ s.GivenUp i

omit [DecidableEq δ] in
theorem stopping_nextStop {entries : ℕ} {todo : List ℕ} (hj : j < s.ops.length)
    (hle : entries ≤ (s.nextStop j todo).entries.length)
    (h : ∀ i < entries, i ∈ todo ∨ (s.nextStop j todo).GivenUp i) :
    (s.nextStop j todo).Stopping entries j := by
  cases todo with
  | nil =>
    refine ⟨hle, ⟨.shutdown [], .done .stopped⟩, List.getElem?_set_self hj, rfl, fun i hi => ?_⟩
    exact (h i hi).imp (fun hmem => absurd hmem List.not_mem_nil) id
  | cons i' todo =>
    refine ⟨hle, ⟨.shutdown todo, .await i' (s.nextCall i')⟩, List.getElem?_set_self hj, rfl,
      fun i hi => ?_⟩
    exact (h i hi).imp List.mem_cons.mp id

omit [DecidableEq δ] in
/-- An operation of another kind, or a step of somebody else, leaves the shutdown where it is. -/
theorem Stopping.other {entries : ℕ} (h : s.Stopping entries j) (hgrows : Grows s t)
    (hops : ∀ op, s.ops[j]? = some op → t.ops[j]? = some op)
    (hgiven : ∀ i, s.GivenUp i → t.GivenUp i) : t.Stopping entries j := by
  obtain ⟨hle, op, hop, hkind, howes⟩ := h
  exact ⟨Nat.le_trans hle hgrows.length, op, hops op hop, hkind,
    fun i hi => (howes i hi).imp id (hgiven i)⟩

/-- A step of the shutdown itself. -/
theorem Stopping.move {entries : ℕ} (h : s.Stopping entries j) (hs : s.Tended) {op : Op ι ο δ}
    (hop : s.ops[j]? = some op) (hm : Move s j ok op t)
    (hgiven : ∀ i, s.GivenUp i → t.GivenUp i) : t.Stopping entries j := by
  obtain ⟨hle, op', hop', hkind, howes⟩ := h
  obtain rfl : op = op' := Option.some.inj (hop.symm.trans hop')
  have hj : j < s.ops.length := (List.getElem?_eq_some_iff.mp hop).1
  have hle' : entries ≤ t.entries.length := Nat.le_trans hle (hm.keeps.grows).length
  cases hm with
  | shutdownStart todo =>
    refine stopping_nextStop hj hle' fun i hi => .inl ?_
    exact List.mem_range.mpr (Nat.lt_of_lt_of_le hi hle)
  | shutdownAnswer todo i k n acknowledged hans =>
    exact ⟨hle', ⟨.shutdown todo, .lock i⟩, List.getElem?_set_self hj, rfl,
      fun i' hi' => (howes i' hi').imp id (hgiven i')⟩
  | lock todo i n _ hn ht =>
    obtain ⟨hlocked, ⟨-, rfl⟩ | ⟨htask, rfl⟩⟩ := lock_cases ht
    · exact ⟨hle', ⟨.shutdown todo, .join i⟩, List.getElem?_set_self hj, rfl,
        fun i' hi' => (howes i' hi').imp id (hgiven i')⟩
    · -- somebody else took the handle, and is through with the task or has left
      have hdone : s.GivenUp i := by
        rcases hs.taken i n hn htask with hl | hh | hleft
        · rw [hlocked] at hl
          cases hl
        · exact .inl ⟨n, hn, hh⟩
        · exact .inr hleft
      refine stopping_nextStop hj hle' fun i' hi' => ?_
      rcases howes i' hi' with (rfl | htodo) | hh
      · exact .inr (hgiven i' hdone)
      · exact .inl htodo
      · exact .inr (hgiven i' hh)
  | join todo i n hn =>
    obtain ⟨n', hcalls, -, hn', hmanned⟩ := join_calls s j i todo n
    have hdone : (s.join j i todo n).HaltedAt i := by
      have hlt : i < (s.join j i todo n).entries.length := by
        rw [length_calls hcalls, List.length_set]
        exact (List.getElem?_eq_some_iff.mp hn).1
      have hget := List.getElem?_eq_getElem hlt
      obtain ⟨m, hm', hstays⟩ := hcalls.back hget
      rcases set_entries_cases hn hm' with ⟨-, rfl⟩ | ⟨hne, -⟩
      · exact ⟨_, hget, hstays.halted (hmanned (hs.manned i n hn)) hn'⟩
      · exact absurd rfl hne
    refine stopping_nextStop hj hle' fun i' hi' => ?_
    rcases howes i' hi' with (rfl | htodo) | hh
    · exact .inr (.inl hdone)
    · exact .inl htodo
    · exact .inr (hgiven i' hh)
  | write frame p _ ht =>
    -- a shutdown writes nothing: it owes every entry still, or none
    have hplaced := hs.placed j _ hop
    obtain ⟨todo, rfl⟩ : ∃ todo, frame = .shutdown todo := by
      cases frame with
      | shutdown todo => exact ⟨todo, rfl⟩
      | _ => cases hkind
    cases hplaced
  | _ => cases hkind

/-- A shutdown goes on stopping all that it started with, whatever else steps. -/
theorem Stopping.step {entries : ℕ} {a : Action ι ο δ} (h : s.Stopping entries j) (hs : s.Tended)
    (hstep : s.step a = some t) : t.Stopping entries j := by
  have hgrows := (step_steps hstep).grows
  have hgiven : ∀ i, s.GivenUp i → t.GivenUp i := fun i hi => hi.step hs hstep
  cases a with
  | op j' ok =>
    obtain ⟨op, hop, hop'⟩ := Option.bind_eq_some_iff.mp hstep
    have hm := stepOp_move hop'
    -- the shutdown's own step, or another operation's
    by_cases hj : j = j'
    · subst hj
      exact h.move hs hop hm hgiven
    · obtain ⟨-, op', hops, -⟩ := hm.spends
      exact h.other hgrows (fun o ho => by rw [ops_other hops hj, ho]) hgiven
  | abandon j' =>
    obtain ⟨op, hop, hop'⟩ := Option.bind_eq_some_iff.mp hstep
    obtain ⟨taken, hops⟩ := (abandon_leaves hop').ops
    by_cases hj : j = j'
    · subst hj
      obtain ⟨hle, op', hop', hkind, -⟩ := h
      obtain rfl : op = op' := Option.some.inj (hop.symm.trans hop')
      refine ⟨Nat.le_trans hle hgrows.length, ⟨op.frame, .abandoned taken⟩, ?_, hkind,
        fun i _ => .inl trivial⟩
      rw [hops, List.getElem?_set_self (List.getElem?_eq_some_iff.mp hop).1]
    · exact h.other hgrows (fun o ho => by rw [ops_other hops hj, ho]) hgiven
  | actor i x =>
    obtain ⟨-, n, e, -, -, rfl⟩ := step_actor hstep
    exact h.other hgrows (fun o ho => ho) hgiven
  | begin r =>
    cases hstep
    refine h.other hgrows (fun o ho => ?_) hgiven
    show (s.ops ++ _)[j]? = _
    rw [List.getElem?_append_left (List.getElem?_eq_some_iff.mp ho).1, ho]
  | register entry spec =>
    simp only [Core.step] at hstep
    split at hstep
    · cases hstep
    · cases hstep
      exact h.other hgrows (fun o ho => ho) hgiven

/-- **A shutdown stops the actors it found.**  Let operation `j` be a shutdown that has not begun in
a state of a run, and let it be over in a later one.  Then the task of each entry that was
registered in the first has ended, or was aborted, in the second, or its join handle went with a
shutdown whose caller left while it awaited that task: whatever other operations, shutdowns among
them, ran beside it, and whatever the actors did. -/
theorem shutdown_stops_actors (ι ο : Type*) {δ : Type*} [DecidableEq δ] (node : String)
    (actorQueueCapacity : ℕ) (persistent : Bool) (store : SnapshotStore δ) {s t : Core ι ο δ}
    (h : (machine ι ο node actorQueueCapacity persistent store).Reachable s)
    {as : List (Action ι ο δ)}
    (hr : (machine ι ο node actorQueueCapacity persistent store).run s as = some t) {j : ℕ}
    {todo : List ℕ} (hstart : s.ops[j]? = some ⟨.shutdown todo, .start⟩) {op : Op ι ο δ}
    (hop : t.ops[j]? = some op) {result : Result ο δ} (hdone : op.pc = .done result) :
    ∀ i < s.entries.length, ∃ n, t.entries[i]? = some n ∧
      (n.actor.task = .ended ∨ n.actor.aborted = true ∨ t.Detached i) := by
  have hstopping : s.Stopping s.entries.length j :=
    ⟨Nat.le_refl _, _, hstart, rfl, fun i _ => .inl trivial⟩
  -- what the shutdown still owes is an invariant of the run from its start
  have hleads : (machine ι ο node actorQueueCapacity persistent store).Leads s t := ⟨as, hr⟩
  have hinv : t.Tended ∧ t.Stopping s.entries.length j := by
    refine Machine.Leads.inv (I := fun u : Core ι ο δ => u.Tended ∧ u.Stopping s.entries.length j)
      ?_ ⟨tended_of_reachable h, hstopping⟩ hleads
    intro u a v hu hstep
    exact ⟨hu.1.step hstep, hu.2.step hu.1 hstep⟩
  obtain ⟨hle, op', hop', -, howes⟩ := hinv.2
  obtain rfl : op = op' := Option.some.inj (hop.symm.trans hop')
  intro i hi
  rcases howes i hi with hstill | hgiven
  · -- a finished shutdown owes nothing, so each entry was given up
    simp [Op.Owes, hdone] at hstill
  · rcases hgiven with ⟨n, hn, hended | haborted⟩ | hleft
    · exact ⟨n, hn, .inl hended⟩
    · exact ⟨n, hn, .inr (.inl haborted)⟩
    · have hlt : i < t.entries.length := Nat.lt_of_lt_of_le hi hle
      exact ⟨_, List.getElem?_eq_getElem hlt, .inr (.inr hleft)⟩

/-- Two shutdowns of a node with a lamp. -/
def twoShutdowns : List (Action String String String) :=
  [.register lamp lampReports, .begin .shutdown, .begin .shutdown]

/-- The lamp does not return from its handler: the first shutdown aborts its task, and the second
finds the handle taken. -/
def twoShutdownsEnd : List (Action String String String) :=
  [.op 0 true, .op 1 true, .actor 0 .start, .actor 0 (.reserve 0), .actor 0 (.send 0),
    .actor 0 .recv, .actor 0 (.timeout 0), .op 0 true, .op 0 true, .actor 0 (.reserve 1),
    .actor 0 (.send 1), .actor 0 (.timeout 1), .op 1 true, .op 0 true, .op 1 true]

/-- Two shutdowns that overlap: the actor ends or is aborted all the same. -/
theorem shutdown_stops_actors_twoShutdowns : ∃ s t : Core String String String,
    lampMachine.run lampMachine.init twoShutdowns = some s ∧
    lampMachine.run s twoShutdownsEnd = some t ∧
    ∃ n, t.entries[0]? = some n ∧ (n.actor.task = .ended ∨ n.actor.aborted = true) := by
  obtain ⟨s, hs, hstart, hlen⟩ : ∃ s, lampMachine.run lampMachine.init twoShutdowns = some s ∧
      s.ops[1]? = some ⟨.shutdown [], .start⟩ ∧ s.entries.length = 1 := ⟨_, rfl, rfl, rfl⟩
  -- the two runs together end with both shutdowns over
  have hend : (lampMachine.run lampMachine.init (twoShutdowns ++ twoShutdownsEnd)).map
      (fun t => t.ops.map Op.result?) = some [some .stopped, some .stopped] := by
    decide
  rw [Machine.run_append hs] at hend
  obtain ⟨t, ht, hresults⟩ := Option.map_eq_some_iff.mp hend
  have hover : ∀ op ∈ t.ops, op.pc = .done .stopped := by
    intro op hop
    have hmem : op.result? ∈ t.ops.map Op.result? := List.mem_map_of_mem hop
    rw [hresults] at hmem
    have hresult : op.result? = some .stopped := by simpa using hmem
    unfold Op.result? at hresult
    split at hresult
    · rename_i result hpc
      rw [hpc, Option.some.inj hresult]
    · cases hresult
  have hlt : 1 < t.ops.length := by
    have hlength := congrArg List.length hresults
    rw [List.length_map] at hlength
    rw [hlength]
    decide
  obtain ⟨n, hn, htask⟩ := shutdown_stops_actors String String "hub" 32 true .empty ⟨_, hs⟩ ht
    hstart (List.getElem?_eq_getElem hlt) (hover _ (List.getElem_mem hlt)) 0 (hlen ▸ Nat.one_pos)
  refine ⟨s, t, hs, ht, n, hn, ?_⟩
  rcases htask with hended | haborted | ⟨op, hop, -, hleft⟩
  · exact .inl hended
  · exact .inr haborted
  · -- both callers stay to the end
    rw [hover op hop] at hleft
    cases hleft

/-- The caller of the first shutdown leaves while that awaits the task: the second finds no handle,
and the lamp runs on. -/
def leftAtJoin : List (Action String String String) :=
  twoShutdowns ++ [.op 0 true, .op 1 true, .actor 0 .start, .actor 0 (.reserve 0),
    .actor 0 (.send 0), .actor 0 .recv, .actor 0 (.timeout 0), .op 0 true, .op 0 true, .abandon 0,
    .actor 0 (.reserve 1), .actor 0 (.send 1), .actor 0 (.timeout 1), .op 1 true, .op 1 true]

theorem runs_on_leftAtJoin : ∃ t : Core String String String,
    lampMachine.run lampMachine.init leftAtJoin = some t ∧
    t.ops.map Op.result? = [none, some .stopped] ∧ t.Detached 0 ∧
    ∃ n, t.entries[0]? = some n ∧ n.actor.task ≠ .ended ∧ n.actor.aborted = false := by
  refine ⟨_, rfl, by decide, ⟨_, List.mem_cons_self, rfl, rfl⟩, _, rfl, by decide,
    rfl⟩

/-! ### What a shutdown waits for -/

/-- The steps of the operations and of the callers, time limits among them, but none of an
actor. -/
def Action.ofCallers : Action ι ο δ → Prop
  | .op _ _ => True
  | .actor _ (.reserve _) | .actor _ (.send _) | .actor _ (.receive _) | .actor _ (.timeout _) => True
  | _ => False

omit [DecidableEq δ] in
theorem Action.ofParties_of_ofCallers {a : Action ι ο δ} (h : a.ofCallers) : a.ofParties := by
  cases a with
  | op j ok => exact trivial
  | register | begin | abandon => cases h
  | actor i x =>
    cases x with
    | reserve k | send k | receive k | timeout k => exact trivial
    | _ => cases h

/-- No operation and no caller can go on, whatever the actors may still do. -/
def CallersRest (s : Core ι ο δ) : Prop := ∀ a : Action ι ο δ, a.ofCallers → s.step a = none

/-- The operation waits for a slot of a mailbox that is full, and whose actor has not ended. -/
def WaitsForMailbox (s : Core ι ο δ) (op : Op ι ο δ) : Prop :=
  ∃ n k c, s.Waits op n k c ∧ c.phase = .calling ∧ n.actor.task ≠ .ended ∧
    n.actor.mailbox.buf.length = n.actor.mailbox.capacity

theorem CallersRest.actor (h : s.CallersRest) {i : ℕ} {n : Registered ι ο δ}
    (hn : s.entries[i]? = some n) {x : Executor.Action ι ο (Snapshot δ)}
    (hx : (Action.actor i x : Action ι ο δ).ofCallers) (hext : external x = true) :
    n.actor.step x = none := by
  have hnone := h (.actor i x) hx
  simp only [Core.step, if_pos hext, hn, Option.bind_some] at hnone
  exact Option.map_eq_none_iff.mp hnone

omit [DecidableEq δ] in
/-- The mailbox of a call that can neither send nor be given a slot is full. -/
theorem mailbox_full {e : Executor ι ο (Snapshot δ)} {capacity k : ℕ}
    {c : Executor.Call ι ο (Snapshot δ)} (hs : e.Served capacity) (hc : e.calls[k]? = some c)
    (hrequest : c.request = .shutdown) (hcalling : c.phase = .calling)
    (hsend : ∀ k, e.step (.send k) = none) (hreserve : e.step (.reserve k) = none) :
    e.task ≠ .ended ∧ e.mailbox.buf.length = e.mailbox.capacity := by
  have hpoll := hsend k
  simp only [Executor.step, hc, Option.bind_some, Executor.pollSend, hrequest, hcalling] at hpoll
  simp only [Executor.step, hc, Option.bind_some, Executor.reserve, hrequest, hcalling] at hreserve
  split at hpoll
  · rename_i halive
    rw [if_pos halive] at hreserve
    have hnone := Option.map_eq_none_iff.mp hreserve
    have hzero := Executor.reserved_of_send hs hsend
    have hbound := hs.slots.bounded
    refine ⟨hs.sound.alive.mp halive, ?_⟩
    -- every slot is taken, and none of them is only assigned
    by_contra hne
    have hroom : e.mailbox.hasRoom = true := by
      show decide (_ < _) = true
      rw [decide_eq_true_eq]
      omega
    simp [Mpsc.reserve, hroom] at hnone
  · cases hpoll

/-- **A shutdown waits for nothing but a mailbox.**  Whatever the actors do, and if no handler ever
returns: from every reachable state a schedule of steps of the operations and of the callers, time
limits among them, is bounded, and it can be completed until none of them can go on.  In every such
state each shutdown is over, or its caller left, or its request to stop waits for a slot of a mailbox
that is full.  No time limit covers that wait. -/
theorem shutdown_waits_only_for_mailbox (ι ο : Type*) {δ : Type*} [DecidableEq δ] (node : String)
    (actorQueueCapacity : ℕ) (persistent : Bool) (store : SnapshotStore δ) {s t : Core ι ο δ}
    (h : (machine ι ο node actorQueueCapacity persistent store).Reachable s)
    {as : List (Action ι ο δ)} (has : ∀ a ∈ as, a.ofCallers)
    (hr : (machine ι ο node actorQueueCapacity persistent store).run s as = some t) :
    as.length ≤ s.effort ∧
      (∃ bs u, (∀ a ∈ bs, a.ofCallers) ∧
        (machine ι ο node actorQueueCapacity persistent store).run t bs = some u ∧
          u.CallersRest) ∧
      (t.CallersRest → ∀ op ∈ t.ops, op.frame.kind = .shutdown →
        (∃ result, op.pc = .done result) ∨ t.Dropped op ∨ t.WaitsForMailbox op) := by
  have hranks := (ranks_ofParties ι ο node actorQueueCapacity persistent store).mono
    fun a (ha : a.ofCallers) => Action.ofParties_of_ofCallers ha
  obtain ⟨hlen, ht, bs, u, hbs, hrun, -, hrest⟩ := hranks.settles (tended_of_reachable h) has hr
  refine ⟨hlen, ⟨bs, u, hbs, hrun, hrest⟩, fun hcallers op hop hkind => ?_⟩
  obtain ⟨j, hj⟩ := List.mem_iff_getElem?.mp hop
  have hops : t.OpsRest := fun j ok => hcallers (.op j ok) trivial
  rcases hops.waits ht hj with hdone | hleft | ⟨n, k, c, hwaits⟩
  · exact .inl hdone
  · exact .inr (.inl (.inl hleft))
  · obtain ⟨i, hpc, hn, hc, hrequest, hnot⟩ := id hwaits
    have hshutdown : c.request = .shutdown := by
      rw [hrequest]
      cases hframe : op.frame with
      | shutdown todo => rfl
      | _ =>
        rw [hframe] at hkind
        cases hkind
    obtain ⟨capacity, hserved⟩ := (ht.manned i n hn).served
    have hsend : ∀ k, n.actor.step (.send k) = none := fun k => hcallers.actor hn trivial rfl
    have hreserve : n.actor.step (.reserve k) = none := hcallers.actor hn trivial rfl
    have hreceive : n.actor.step (.receive k) = none := hcallers.actor hn trivial rfl
    have htimeout : n.actor.step (.timeout k) = none := hcallers.actor hn trivial rfl
    cases hp : c.phase with
    | calling =>
      obtain ⟨htask, hfull⟩ := mailbox_full hserved hc hshutdown hp hsend hreserve
      exact .inr (.inr ⟨n, k, c, hwaits, hp, htask, hfull⟩)
    | permitted => exact absurd hp (Executor.not_permitted_of_send (hsend k) hc)
    | waiting slot =>
      -- an answer is received, and a wait without one runs into its time limit
      cases slot with
      | pending => simp [Executor.step, hc, Executor.timeout, hshutdown, hp] at htimeout
      | sent ans => simp [Executor.step, hc, Executor.receive, hp] at hreceive
      | dropped => simp [Executor.step, hc, Executor.receive, hp] at hreceive
    | returned ans => exact absurd hp (hnot ans)
    | abandoned => exact .inr (.inl (.inr ⟨n, k, c, hwaits, hp⟩))

/-- Whether callers and operations are at rest can be computed: only those that are there can take
a step. -/
theorem callersRest_iff (s : Core ι ο δ) : s.CallersRest ↔
    (∀ j < s.ops.length, ∀ ok, (s.step (.op j ok)).isNone = true) ∧
    ∀ i < s.entries.length, ∀ k < s.nextCall i,
      ∀ x ∈ [Executor.Action.reserve k, .send k, .receive k, .timeout k],
        (s.step (.actor i x)).isNone = true := by
  constructor
  · intro h
    refine ⟨fun j _ ok => by rw [h (.op j ok) trivial]; rfl, fun i _ k _ x hx => ?_⟩
    simp only [List.mem_cons, List.not_mem_nil, or_false] at hx
    rcases hx with rfl | rfl | rfl | rfl
    · exact Option.isNone_iff_eq_none.mpr (h (.actor i (.reserve k)) trivial)
    · exact Option.isNone_iff_eq_none.mpr (h (.actor i (.send k)) trivial)
    · exact Option.isNone_iff_eq_none.mpr (h (.actor i (.receive k)) trivial)
    · exact Option.isNone_iff_eq_none.mpr (h (.actor i (.timeout k)) trivial)
  · rintro ⟨hops, hactors⟩ a ha
    cases a with
    | register | begin | abandon => cases ha
    | op j ok =>
      by_cases hj : j < s.ops.length
      · exact Option.isNone_iff_eq_none.mp (hops j hj ok)
      · simp [Core.step, List.getElem?_eq_none (Nat.le_of_not_lt hj)]
    | actor i x =>
      -- a call that is not there is not polled
      have hcall : ∀ k (f : Executor ι ο (Snapshot δ) → Executor.Call ι ο (Snapshot δ) →
          Option (Executor ι ο (Snapshot δ))), external x = true →
          (∀ e, e.step x = e.calls[k]?.bind (f e)) →
          x ∈ [Executor.Action.reserve k, .send k, .receive k, .timeout k] →
          s.step (.actor i x) = none := by
        intro k f hext hstep hmem
        by_cases hi : i < s.entries.length
        · have hn := List.getElem?_eq_getElem hi
          by_cases hk : k < s.nextCall i
          · exact Option.isNone_iff_eq_none.mp (hactors i hi k hk x hmem)
          · simp only [nextCall, hn, Option.map_some, Option.getD_some] at hk
            have hnone : s.entries[i].actor.step x = none := by
              rw [hstep, List.getElem?_eq_none (Nat.le_of_not_lt hk)]
              rfl
            simp [Core.step, hext, hn, hnone]
        · simp [Core.step, hext, List.getElem?_eq_none (Nat.le_of_not_lt hi)]
      cases x with
      | reserve k => exact hcall k (fun e c => e.reserve k c) rfl (fun e => rfl) (by simp)
      | send k => exact hcall k (fun e c => e.pollSend k c) rfl (fun e => rfl) (by simp)
      | receive k => exact hcall k (fun e c => e.receive k c) rfl (fun e => rfl) (by simp)
      | timeout k => exact hcall k (fun e c => e.timeout k c) rfl (fun e => rfl) (by simp)
      | _ => cases ha

instance (s : Core ι ο δ) : Decidable s.CallersRest := decidable_of_iff _ (callersRest_iff s).symm

/-- A lamp with one slot, in a handler that does not return, with a request behind it. -/
def hungLamp : List (Action String String String) :=
  [.register lamp lampReports, .begin (.getResource "lamp"), .begin (.getResource "lamp"),
    .begin .shutdown,
    .op 0 true, .op 1 true, .op 2 true, .actor 0 .start, .actor 0 (.reserve 0), .actor 0 (.send 0),
    .actor 0 .recv, .actor 0 (.reserve 1), .actor 0 (.send 1)]

abbrev smallMachine : Machine (Core String String String) (Action String String String) :=
  machine String String "hub" 1 true .empty

/-- The shutdown waits, and for as long as the handler does not return. -/
theorem shutdown_waits_only_for_mailbox_hungLamp : ∃ s : Core String String String,
    smallMachine.run smallMachine.init hungLamp = some s ∧ s.CallersRest ∧
    ∃ op, s.ops[2]? = some op ∧ s.WaitsForMailbox op := by
  have hfacts : ∃ s : Core String String String,
      smallMachine.run smallMachine.init hungLamp = some s ∧ s.CallersRest ∧
      (∃ op, s.ops[2]? = some op ∧ op.frame.kind = .shutdown ∧ op.result? = none ∧
        ∀ taken, op.pc ≠ .abandoned taken) ∧
      ∀ n ∈ s.entries, ∀ c ∈ n.actor.calls, c.phase ≠ .abandoned := by
    refine ⟨_, rfl, ?_, ⟨_, rfl, rfl, rfl, ?_⟩, ?_⟩
    · decide
    · rintro taken ⟨⟩
    · decide
  obtain ⟨s, hs, hrest, ⟨op, hop, hkind, hresult, hstays⟩, hkept⟩ := hfacts
  refine ⟨s, hs, hrest, op, hop, ?_⟩
  have hstay : smallMachine.run s [] = some s := rfl
  have hwaits := (shutdown_waits_only_for_mailbox String String "hub" 1 true .empty ⟨_, hs⟩
    (by simp) hstay).2.2 hrest op (List.mem_of_getElem? hop) hkind
  -- the first disjunct is not reached, nobody left, and no call was dropped
  rcases hwaits with ⟨result, hdone⟩ | (⟨taken, hleft⟩ |
    ⟨n, k, c, ⟨i, -, hn, hc, -⟩, habandoned⟩) | hwaits
  · simp [Op.result?, hdone] at hresult
  · exact absurd hleft (hstays taken)
  · exact absurd habandoned (hkept n (List.mem_of_getElem? hn) c (List.mem_of_getElem? hc))
  · exact hwaits

end Boardwalk.Core
