import Boardwalk.Runtime.Spec.PublishEnvelope

/-!
# The order of replay

A publisher takes its sequence number and records its envelope under different locks, so another
publisher of the stream may record in between.  A ring is in the order of the sequence numbers
throughout a run exactly when every record of the run is (`replay_inOrder_iff`).
-/

namespace Boardwalk

namespace StreamReplayCache

variable {δ : Type} {cache : StreamReplayCache δ} {env : EventEnvelope δ}

/-- Replay gives the envelopes of a stream in strictly increasing sequence order, and the envelope
that the next eviction takes has the smallest number. -/
structure InOrder (cache : StreamReplayCache δ) : Prop where
  increasing : ∀ id n, (cache.eventsAfter id n).Pairwise fun e e' => e.sequence < e'.sequence
  oldest : ∀ id, ∀ e ∈ (cache.perStream id).head?, ∀ e' ∈ (cache.perStream id).tail,
    e.sequence < e'.sequence

/-- The envelopes of a ring that stay there when the next one is recorded. -/
def staying (cache : StreamReplayCache δ) (id : StreamId) : List (EventEnvelope δ) :=
  if cache.capacityPerStream ≤ (cache.perStream id).length then (cache.perStream id).tail
  else cache.perStream id

theorem perStream_record (cache : StreamReplayCache δ) (env : EventEnvelope δ) :
    (cache.record env).1.perStream = Function.update cache.perStream env.streamId
      (cache.staying env.streamId ++ [env]) := by
  simp only [record, staying, decide_eq_true_eq]

theorem staying_sublist (cache : StreamReplayCache δ) (id : StreamId) :
    List.Sublist (cache.staying id) (cache.perStream id) := by
  unfold staying
  split
  · exact List.tail_sublist _
  · exact List.Sublist.refl _

/-- The sequence numbers start at one, so that a read after zero gives the whole ring; a ring is in
order exactly when its numbers increase. -/
theorem inOrder_iff : cache.InOrder ↔
    ∀ id, (cache.perStream id).Pairwise fun e e' => e.sequence < e'.sequence := by
  constructor
  · intro h id
    cases hring : cache.perStream id with
    | nil => exact List.Pairwise.nil
    | cons e rest =>
      have hfirst : ∀ e' ∈ rest, e.sequence < e'.sequence := fun e' he' =>
        h.oldest id e (by rw [hring]; rfl) e' (by rw [hring]; exact he')
      refine List.pairwise_cons.mpr ⟨hfirst, ?_⟩
      -- behind the first envelope no number is zero, so the read after zero has them all
      have hread := h.increasing id 0
      rw [eventsAfter, hring] at hread
      have hall : rest.filter (fun e => decide (0 < e.sequence)) = rest :=
        List.filter_eq_self.mpr fun e' he' =>
          decide_eq_true (UInt64.lt_of_le_of_lt UInt64.zero_le (hfirst e' he'))
      rw [← hall]
      exact hread.sublist ((List.sublist_cons_self e rest).filter _)
  · intro h
    refine ⟨fun id n => (h id).sublist List.filter_sublist, fun id e he e' he' => ?_⟩
    have hring := h id
    cases hr : cache.perStream id with
    | nil => simp [hr] at he
    | cons first rest =>
      rw [hr] at hring he he'
      obtain rfl : first = e := by simpa using he
      exact (List.pairwise_cons.mp hring).1 e' he'

/-- **A record keeps the order** exactly when the envelope comes after those that stay. -/
theorem InOrder.record_iff (h : cache.InOrder) (env : EventEnvelope δ) :
    (cache.record env).1.InOrder ↔
      ∀ e ∈ cache.staying env.streamId, e.sequence < env.sequence := by
  rw [inOrder_iff] at h ⊢
  rw [perStream_record]
  constructor
  · intro hrecord e he
    have hring := hrecord env.streamId
    rw [Function.update_self, List.pairwise_append] at hring
    exact hring.2.2 e he env (List.mem_singleton_self env)
  · intro hlater id
    by_cases hid : id = env.streamId
    · subst hid
      rw [Function.update_self, List.pairwise_append]
      refine ⟨(h _).sublist (cache.staying_sublist _), List.pairwise_singleton _ _, ?_⟩
      intro e he e' he'
      rw [List.mem_singleton.mp he']
      exact hlater e he
    · rw [Function.update_of_ne hid]
      exact h id

/-- What a record of the envelope evicts has the smallest number of its ring. -/
def EvictsSmallest (cache : StreamReplayCache δ) (env : EventEnvelope δ) : Prop :=
  ∀ id ∈ (cache.record env).2, ∃ e ∈ cache.perStream env.streamId, e.eventId = id ∧
    ∀ e' ∈ cache.perStream env.streamId, e.sequence ≤ e'.sequence

/-- A ring in order evicts the event with the smallest sequence. -/
theorem InOrder.evictsSmallest (h : cache.InOrder) (env : EventEnvelope δ) :
    cache.EvictsSmallest env := by
  intro id hid
  have holdest := h.oldest env.streamId
  unfold record at hid
  cases hring : cache.perStream env.streamId with
  | nil => simp [hring] at hid
  | cons e rest =>
    simp only [hring, Option.mem_def] at hid
    split at hid
    · refine ⟨e, List.mem_cons_self, by simpa using hid, fun e' he' => ?_⟩
      rcases List.mem_cons.mp he' with rfl | he'
      · exact UInt64.le_refl _
      · exact UInt64.le_of_lt (holdest e (by rw [hring]; rfl) e' (by rw [hring]; exact he'))
    · cases hid

end StreamReplayCache

namespace Publishing

variable {τ κ : Type} [DecidableEq κ] {ops : BusOps Json τ κ} {s s' : Publishing τ}

/-- When the step records an envelope, the envelopes that stay in its ring have smaller numbers. -/
def RecordsInOrder (s : Publishing τ) (a : PublishingAction τ) : Prop :=
  ∀ env ∈ s.recording a, ∀ e ∈ s.bus.replayCache.staying env.streamId, e.sequence < env.sequence

/-- When the step evicts an envelope from a ring, its number is the smallest there. -/
def EvictsSmallest (s : Publishing τ) (a : PublishingAction τ) : Prop :=
  ∀ env ∈ s.recording a, s.bus.replayCache.EvictsSmallest env

theorem inOrder_step {a : PublishingAction τ} (hasync : s.bus.AllAsync)
    (h : s.bus.replayCache.InOrder) (hs : step ops s a = some s') :
    s'.bus.replayCache.InOrder ↔ s.RecordsInOrder a := by
  rw [(replayCache_of_step hasync hs).2, RecordsInOrder]
  cases s.recording a with
  | none => simp [h]
  | some env => simpa using h.record_iff env

/-- **When replay is in sequence order.** In a run of a node every read of a ring is in strictly
increasing sequence order, and every ring has its smallest number in front, exactly when each record
of the run comes after those that stay in its ring; and then every eviction takes the smallest
number. -/
theorem replay_inOrder_iff (ops : BusOps Json τ κ) (replayCapacity : ℕ)
    (as : List (PublishingAction τ)) :
    ((machine ops replayCapacity).StatesMeet (fun s => s.bus.replayCache.InOrder)
        (machine ops replayCapacity).init as ↔
      (machine ops replayCapacity).StepsMeet RecordsInOrder
        (machine ops replayCapacity).init as) ∧
    ((machine ops replayCapacity).StepsMeet RecordsInOrder (machine ops replayCapacity).init as →
      (machine ops replayCapacity).StepsMeet EvictsSmallest
        (machine ops replayCapacity).init as) := by
  have hasync : (machine ops replayCapacity).init.bus.AllAsync := by
    simp [Bus.AllAsync, machine, Bus.machine]
  have hinit : (machine ops replayCapacity).init.bus.replayCache.InOrder :=
    StreamReplayCache.inOrder_iff.mpr fun _ => List.Pairwise.nil
  have hiff : (machine ops replayCapacity).StatesMeet (fun s => s.bus.replayCache.InOrder)
      (machine ops replayCapacity).init as ↔ (machine ops replayCapacity).StepsMeet RecordsInOrder
        (machine ops replayCapacity).init as := by
    refine Machine.statesMeet_iff_stepsMeet (A := fun _ => True) (I := fun s => s.bus.AllAsync)
      (fun s a t _ hs hstep => (replayCache_of_step hs hstep).1)
      (fun s a t _ hs hP hstep => inOrder_step hs hP hstep) (fun _ _ => True.intro) hasync hinit
  refine ⟨hiff, fun hsteps => (hiff.mpr hsteps).stepsMeet fun s a hP env _ => ?_⟩
  exact hP.evictsSmallest env

/-- Three publishers on a ring for two envelopes; the second one records before the first. -/
def overtaken : List (PublishingAction Unit) :=
  [.publishEnvelope (stateEvent .null) {}, .allocate 0, .allocate 0, .allocate 0,
    .publishEnvelope (stateEvent .null) {}, .allocate 1, .allocate 1, .allocate 1,
    .publishEnvelope (stateEvent .null) {}, .allocate 2, .allocate 2, .allocate 2, .publish 1 {},
    .bus (.advance 0), .bus (.advance 0), .publish 0 {}, .bus (.advance 1), .bus (.advance 1),
    .publish 2 {}, .bus (.advance 2)]

theorem isSome_run_overtaken :
    ((machine nullFits 2).run (machine nullFits 2).init overtaken).isSome = true := by decide

theorem isSome_step_overtaken : ((machine nullFits 2).step
    (Option.get _ isSome_run_overtaken) (.bus (.advance 2))).isSome = true := by decide

/-- **Replay is out of order**: it gives the second envelope before the first, and the next record
evicts the second one. -/
theorem replay_overtaken : ∃ s t, (machine nullFits 2).run (machine nullFits 2).init overtaken =
      some s ∧ (machine nullFits 2).step s (.bus (.advance 2)) = some t ∧
    (s.bus.replayCache.eventsAfter (stateEvent .null).streamId 0).map (·.sequence) = [2, 1] ∧
    (t.bus.replayCache.eventsAfter (stateEvent .null).streamId 0).map (·.sequence) = [1, 3] ∧
    ¬ s.bus.replayCache.InOrder ∧ ¬ s.EvictsSmallest (.bus (.advance 2)) := by
  have hread : ((Option.get _ isSome_run_overtaken).bus.replayCache.eventsAfter
      (stateEvent .null).streamId 0).map (·.sequence) = [2, 1] := by decide
  refine ⟨_, _, (Option.some_get isSome_run_overtaken).symm,
    (Option.some_get isSome_step_overtaken).symm, hread, by decide, fun h => ?_, ?_⟩
  · have hpairs := List.pairwise_map.mpr (h.increasing (stateEvent .null).streamId 0)
    rw [hread] at hpairs
    revert hpairs
    decide
  · unfold EvictsSmallest StreamReplayCache.EvictsSmallest
    decide

end Publishing

end Boardwalk
