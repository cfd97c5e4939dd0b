import Boardwalk.Events.Spec.Record
import Boardwalk.Lib.Retention
import Boardwalk.Runtime.PublishEnvelope
import Boardwalk.Runtime.Spec.Sequencer

/-!
# The reverse index and replay retention

Whatever publishers, subscribers and cancellations do, the reverse index of a node has the ids of the
envelopes in its rings and those that a call in progress answers for (`Retained`), as long as no
counter has wrapped.  When no call is in progress the two are the same (`index_eq_rings`).
-/

namespace Boardwalk

/-! ### Rings -/

namespace StreamReplayCache

variable {δ : Type}

/-- **A record appends to the ring of its stream**, and returns the id of what it drops in front. -/
theorem record_split (cache : StreamReplayCache δ) (env : EventEnvelope δ) :
    ∃ dropped kept, cache.perStream env.streamId = dropped ++ kept ∧
      (cache.record env).1.perStream =
        Function.update cache.perStream env.streamId (kept ++ [env]) ∧
      (cache.record env).2.toList = dropped.map (·.eventId) ∧
      dropped.length =
        if cache.capacityPerStream ≤ (cache.perStream env.streamId).length
          then min (cache.perStream env.streamId).length 1 else 0 := by
  by_cases hfull : cache.capacityPerStream ≤ (cache.perStream env.streamId).length
  · cases hring : cache.perStream env.streamId with
    | nil => exact ⟨[], [], rfl, by simp [record, hring], by simp [record, hring], by simp⟩
    | cons e rest =>
      rw [hring, List.length_cons] at hfull
      exact ⟨[e], rest, rfl, by simp [record, hring, hfull], by simp [record, hring, hfull],
        by simp [hfull]⟩
  · exact ⟨[], cache.perStream env.streamId, rfl, by simp [record, hfull], by simp [record, hfull],
      by simp [hfull]⟩

/-- Each ring holds the most recent envelopes of its stream, as many as fit. -/
def HoldsLatest (cache : StreamReplayCache δ) (recorded : List (EventEnvelope δ)) : Prop :=
  ∀ id, cache.perStream id <:+ recorded.filter (·.streamId = id) ∧
    (cache.perStream id).length =
      min (recorded.filter (·.streamId = id)).length (max cache.capacityPerStream 1)

/-- A ring that holds the latest of its events still does with one more. -/
theorem HoldsLatest.record {cache : StreamReplayCache δ} {recorded : List (EventEnvelope δ)}
    (h : cache.HoldsLatest recorded) (env : EventEnvelope δ) :
    (cache.record env).1.HoldsLatest (recorded ++ [env]) := by
  intro id
  obtain ⟨dropped, kept, hring, hcache, -, hdropped⟩ := cache.record_split env
  have hcapacity : (cache.record env).1.capacityPerStream = cache.capacityPerStream := rfl
  rw [hcache, hcapacity, List.filter_append]
  -- the ring of the recorded envelope moves on, the others stay
  by_cases hid : id = env.streamId
  · subst hid
    obtain ⟨hsuffix, hlen⟩ := h env.streamId
    have hkept : kept <:+ recorded.filter (·.streamId = env.streamId) :=
      (hring ▸ List.suffix_append dropped kept).trans hsuffix
    have hself : [env].filter (·.streamId = env.streamId) = [env] := by simp
    rw [Function.update_self, hself]
    refine ⟨?_, ?_⟩
    · obtain ⟨front, hfront⟩ := hkept
      exact ⟨front, by rw [← List.append_assoc, hfront]⟩
    · have hsum := congrArg List.length hring
      rw [List.length_append] at hsum
      simp only [List.length_append, List.length_singleton]
      split at hdropped <;> omega
  · rw [Function.update_of_ne hid]
    have hother : [env].filter (·.streamId = id) = [] := by simp [Ne.symm hid]
    rw [hother, List.append_nil]
    exact h id

end StreamReplayCache

namespace Publishing

variable {τ κ : Type}

/-- The entry of the reverse index that a publisher answers for before it calls `publish`. -/
def pendingOf (x : EnvelopePublisher × AllocateCall) : Option (EventId × StreamId) :=
  if x.1.published then none else x.2.result.map fun a => (a.eventId, x.2.streamId)

def pending (s : Publishing τ) : List (EventId × StreamId) :=
  (s.publishers.zip s.sequencer.calls).filterMap pendingOf

/-- The reverse index and the rings of the node. -/
def retention (s : Publishing τ) : Retention EventId StreamId where
  index := s.bus.registry.byEventId
  held := s.pending ++ s.bus.indexed
  ring id := (s.bus.replayCache.perStream id).map (·.eventId)

def Entered (s : Publishing τ) (id : EventId) (streamId : StreamId) : Prop :=
  (id, streamId) ∈ s.sequencer.entered

/-- The reverse index has what it should. -/
structure Retained (s : Publishing τ) : Prop where
  counting : s.sequencer.Counting
  async : s.bus.AllAsync
  aligned : s.sequencer.calls.map (·.streamId) = s.publishers.map (·.plan.streamId)
  /-- A publisher that has called `publish` has its number. -/
  called : ∀ (k : ℕ) (p : EnvelopePublisher), s.publishers[k]? = some p → p.published = true →
    ∃ c : AllocateCall, s.sequencer.calls[k]? = some c ∧ c.result.isSome = true
  placed : ∀ id, ∀ e ∈ s.bus.replayCache.perStream id, e.streamId = id
  balanced : s.retention.Balanced s.Entered

variable {s s' : Publishing τ} {k : ℕ}

theorem Retained.length_eq (h : s.Retained) : s.publishers.length = s.sequencer.calls.length := by
  have hlen := congrArg List.length h.aligned
  rw [List.length_map, List.length_map] at hlen
  exact hlen.symm

theorem Retained.publisher_at (h : s.Retained) {c : AllocateCall}
    (hk : s.sequencer.calls[k]? = some c) :
    ∃ p, s.publishers[k]? = some p ∧ p.plan.streamId = c.streamId := by
  have hmap := congrArg (fun l => l[k]?) h.aligned
  simp only [List.getElem?_map, hk, Option.map_some] at hmap
  obtain ⟨p, hp, heq⟩ := Option.map_eq_some_iff.mp hmap.symm
  exact ⟨p, hp, heq⟩

/-- The entries stay with those who answered for them. -/
theorem Retained.balanced_of_eq (h : s.Retained) (hretention : s'.retention = s.retention)
    (hentered : s'.sequencer.entered = s.sequencer.entered) :
    s'.retention.Balanced s'.Entered := by
  have hsame : s'.Entered = s.Entered := by
    funext id streamId
    rw [Entered, hentered]
    rfl
  rw [hretention, hsame]
  exact h.balanced

/-- The envelope that a step records. -/
def recording (s : Publishing τ) : PublishingAction τ → Option (EventEnvelope Json)
  | .bus action => s.bus.recording action
  | _ => none

section Steps

variable [DecidableEq κ] {ops : BusOps Json τ κ}

/-! ### Publishers -/

/-- A publish that starts keeps the index to the rings and the calls in progress. -/
theorem Retained.start (h : s.Retained) (plan : EnvelopePlan) (ctx : EmissionContext) :
    Retained { s with
      sequencer := s.sequencer.allocate plan.streamId
      publishers := s.publishers ++ [{ plan, ctx }] } := by
  -- the new publisher has no envelope to publish yet
  have hpending : pending { s with
      sequencer := s.sequencer.allocate plan.streamId
      publishers := s.publishers ++ [{ plan, ctx }] } = s.pending := by
    simp only [pending, Sequencer.allocate, List.zip_append h.length_eq, List.filterMap_append]
    simp [pendingOf, AllocateCall.result]
  -- nothing is entered by an allocation that has just begun
  refine ⟨h.counting.allocate _, h.async, ?_, fun k p hk hp => ?_, h.placed, ?_⟩
  · simp only [Sequencer.allocate, List.map_append, List.map_cons, List.map_nil, h.aligned]
  · dsimp only at hk
    rw [List.getElem?_append] at hk
    split at hk
    · obtain ⟨c, hc, hres⟩ := h.called k p hk hp
      refine ⟨c, ?_, hres⟩
      change (s.sequencer.calls ++ [_])[k]? = some c
      rw [List.getElem?_append_left (List.getElem?_eq_some_iff.mp hc).1, hc]
    · obtain rfl := List.mem_singleton.mp (List.mem_of_getElem? hk)
      cases hp
  · refine h.balanced_of_eq ?_ ?_
    · rw [retention, hpending]
      rfl
    · simp [Sequencer.entered, Sequencer.allocate, List.filterMap_append, AllocateCall.result]

/-- Call `k` of the registry moves; its publisher has not called `publish`. -/
theorem Retained.moveCall {c : AllocateCall} {phase : AllocatePhase} {sequencer : Sequencer}
    {bus : Bus Json τ} (h : s.Retained) (hk : s.sequencer.calls[k]? = some c)
    (hres : c.result = none)
    (hcounting : sequencer.Counting)
    (hcalls : sequencer.calls = s.sequencer.calls.set k { c with phase })
    (hasync : bus.AllAsync)
    (hplaced : ∀ id, ∀ e ∈ bus.replayCache.perStream id, e.streamId = id)
    (hbalanced : (retention { s with sequencer, bus }).Balanced
      (Entered { s with sequencer, bus })) :
    Retained { s with sequencer, bus } := by
  refine ⟨hcounting, hasync, ?_, fun j p hj hp => ?_, hplaced, hbalanced⟩
  · have hmap : (s.sequencer.calls.set k { c with phase }).map (·.streamId) =
        s.sequencer.calls.map (·.streamId) := Party.map_set_of_eq hk rfl
    dsimp only
    rw [hcalls, hmap, h.aligned]
  · obtain ⟨d, hd, hd'⟩ := h.called j p hj hp
    -- call `k` had no result, so no publisher's entry is `k`
    have hne : k ≠ j := by
      rintro rfl
      rw [Option.some.inj (hd.symm.trans hk), hres] at hd'
      cases hd'
    refine ⟨d, ?_, hd'⟩
    dsimp only
    rw [hcalls, List.getElem?_set_ne hne, hd]

/-- **One operation of an allocation.** -/
theorem Retained.allocate {sequencer : Sequencer} {registry : StreamRegistry} (h : s.Retained)
    (hcount : s.sequencer.calls.length < 2 ^ 64)
    (hs : s.sequencer.advance s.bus.registry k = some (sequencer, registry)) :
    Retained { s with sequencer, bus := { s.bus with registry } } := by
  have hcounting := h.counting.advance hs
  obtain ⟨c, hk, hadv⟩ := Sequencer.advance_cases hs
  obtain ⟨p, hp, hplan⟩ := h.publisher_at hk
  have hzip : (s.publishers.zip s.sequencer.calls)[k]? = some (p, c) :=
    List.getElem?_zip_eq_some.mpr ⟨hp, hk⟩
  -- before the last operation the call answers for nothing
  have hquiet : ∀ {phase : AllocatePhase} {sequencer : Sequencer}, sequencer.Counting →
      sequencer.calls = s.sequencer.calls.set k { c with phase } → c.result = none →
      { c with phase }.result = none →
      Retained { s with sequencer, bus := { s.bus with registry := s.bus.registry } } := by
    intro phase sequencer hcounting hcalls hold hnew
    refine h.moveCall hk hold hcounting hcalls h.async h.placed (h.balanced_of_eq ?_ ?_)
    · have hpending : pending { s with sequencer } = s.pending := by
        simp only [pending]
        rw [hcalls, Party.zip_set_right hp]
        refine Party.filterMap_set_of_eq hzip ?_
        simp only [pendingOf, hold, hnew]
      change Retention.mk _ (pending { s with sequencer } ++ _) _ = _
      rw [hpending]
      rfl
    · simp only [Sequencer.entered]
      rw [hcalls]
      exact Party.filterMap_set_of_eq hk (by rw [hold, hnew])
  cases hadv with
  | found state hphase =>
    exact hquiet hcounting rfl (by simp [AllocateCall.result, hphase]) rfl
  | created hphase =>
    exact hquiet hcounting rfl (by simp [AllocateCall.result, hphase]) rfl
  | taken state sequence hphase =>
    exact hquiet hcounting rfl (by simp [AllocateCall.result, hphase]) rfl
  | inserted a hphase =>
    have hres : c.result = none := by simp [AllocateCall.result, hphase]
    have hunpublished : p.published = false := by
      by_contra hpub
      obtain ⟨d, hd, hd'⟩ := h.called k p hp (by simpa using hpub)
      rw [Option.some.inj (hd.symm.trans hk), hres] at hd'
      cases hd'
    have hentered : (s.sequencer.setPhase k c (.returned a)).entered.Perm
        ((a.eventId, c.streamId) :: s.sequencer.entered) :=
      Party.filterMap_set_perm hk (by rw [hres]; rfl) rfl
    refine h.moveCall hk hres hcounting rfl h.async h.placed ?_
    have hnew : ∀ id, ¬ s.Entered a.eventId id := h.counting.not_entered hcount hk hphase
    refine h.balanced.enter hnew (fun y id => ?_) ?_
    · change (y, id) ∈ (s.sequencer.setPhase k c (.returned a)).entered ↔
        (y, id) ∈ s.sequencer.entered ∨ y = a.eventId ∧ id = c.streamId
      rw [hentered.mem_iff, List.mem_cons, Prod.mk.injEq]
      exact or_comm
    · change ((s.publishers.zip (s.sequencer.calls.set k _)).filterMap pendingOf ++ _).Perm
        ((a.eventId, c.streamId) :: s.pending ++ s.bus.indexed)
      refine List.Perm.append_right _ ?_
      rw [Party.zip_set_right hp]
      refine Party.filterMap_set_perm hzip ?_ ?_
      · simp [pendingOf, hunpublished, hres]
      · simp [pendingOf, hunpublished, AllocateCall.result]

/-- **A publisher calls `publish`**: the bus answers for its entry now. -/
theorem Retained.publish {p : EnvelopePublisher} {a : Allocated} {c : AllocateCall}
    {now : OffsetDateTime} {bus : Bus Json τ} (h : s.Retained) (hp : s.publishers[k]? = some p)
    (hk : s.sequencer.calls[k]? = some c) (hres : c.result = some a)
    (hunpublished : p.published = false)
    (hs : Bus.step ops s.bus (.publish (p.plan.envelope p.ctx a now)) = some bus) :
    Retained { s with bus, publishers := s.publishers.set k { p with published := true } } := by
  have hasync := Bus.allAsync_step h.async (by simp) hs
  obtain rfl := Option.some.inj hs
  have hzip : (s.publishers.zip s.sequencer.calls)[k]? = some (p, c) :=
    List.getElem?_zip_eq_some.mpr ⟨hp, hk⟩
  -- the publisher's stream is that of its call
  have hstream : p.plan.streamId = c.streamId := by
    obtain ⟨q, hq, heq⟩ := h.publisher_at hk
    rw [Option.some.inj (hp.symm.trans hq), heq]
  refine ⟨h.counting, hasync, ?_, fun j q hj hq => ?_, h.placed, ?_⟩
  · have hmap : (s.publishers.set k { p with published := true }).map (·.plan.streamId) =
        s.publishers.map (·.plan.streamId) := Party.map_set_of_eq hp rfl
    dsimp only
    rw [hmap, h.aligned]
  · rcases Party.getElem?_set_cases hj with ⟨rfl, rfl⟩ | ⟨-, hj⟩
    · exact ⟨c, hk, by rw [hres]; rfl⟩
    · exact h.called j q hj hq
  · -- the entry leaves the pending ones and is held by the call of the bus
    refine h.balanced.perm ?_
    obtain ⟨others, hold, hnew⟩ := Party.exists_others pendingOf hzip
    have hset := hnew ({ p with published := true }, c)
    have hentry : pendingOf (p, c) = some (a.eventId, c.streamId) := by
      simp [pendingOf, hunpublished, hres]
    rw [hentry] at hold
    have hindexed : Bus.indexed { s.bus with
        calls := s.bus.calls ++ [{ api := .publish, envelope := p.plan.envelope p.ctx a now }] } =
          s.bus.indexed ++ [(a.eventId, c.streamId)] := by
      rw [Bus.indexed, List.filterMap_append, ← hstream]
      rfl
    change (s.pending ++ s.bus.indexed).Perm (((s.publishers.set k _).zip _).filterMap pendingOf ++
      Bus.indexed _)
    rw [Party.zip_set_left hk, hindexed]
    refine (hold.append_right _).trans (List.Perm.trans ?_ (hset.append_right _).symm)
    rw [← List.append_assoc]
    exact (List.perm_append_singleton (a.eventId, c.streamId) (others ++ s.bus.indexed)).symm

/-! ### The bus -/

/-- A step of the bus that publishes nothing keeps the index to the rings and the calls in progress.
-/
theorem Retained.busStep {bus : Bus Json τ} {a : BusAction Json τ} (h : s.Retained)
    (ha : ∀ env, a ≠ .publish env) (ha' : ∀ env, a ≠ .tryPublish env)
    (hs : Bus.step ops s.bus a = some bus) : Retained { s with bus } := by
  have hasync := Bus.allAsync_step h.async ha' hs
  -- the four ways the books of the bus can change
  cases Bus.books_of_step h.async ha' hs with
  | quiet _ hcache hregistry hindexed =>
    refine ⟨h.counting, hasync, h.aligned, h.called, by rw [hcache]; exact h.placed,
      h.balanced_of_eq ?_ rfl⟩
    simp only [retention, hcache, hregistry, hindexed]
    rfl
  | publish env haction => exact absurd haction (ha env)
  | forget id streamId _ hcache hregistry hindexed =>
    refine ⟨h.counting, hasync, h.aligned, h.called, by rw [hcache]; exact h.placed, ?_⟩
    have hheld : s.retention.held.Perm ((id, streamId) :: (s.pending ++ bus.indexed)) :=
      (hindexed.append_left _).trans List.perm_middle
    have hforget := h.balanced.forget hheld
    have hretention : retention { s with bus } = { s.retention with
        index := Function.update s.retention.index id none
        held := s.pending ++ bus.indexed } := by
      simp only [retention, hcache, hregistry]
      rfl
    rw [hretention]
    exact hforget
  | record env others _ hcache hregistry hold hnew =>
    -- the recorded entry goes into its ring, and what the ring drops is held until forgotten
    obtain ⟨dropped, kept, hring, hrecord, hevicted, -⟩ := s.bus.replayCache.record_split env
    refine ⟨h.counting, hasync, h.aligned, h.called, fun id e he => ?_, ?_⟩
    · change e ∈ bus.replayCache.perStream id at he
      rw [hcache, hrecord] at he
      by_cases hid : id = env.streamId
      · subst hid
        rw [Function.update_self, List.mem_append, List.mem_singleton] at he
        rcases he with he | rfl
        · exact h.placed _ e (by rw [hring]; exact List.mem_append_right _ he)
        · rfl
      · rw [Function.update_of_ne hid] at he
        exact h.placed id e he
    · have hdropped : ((s.bus.replayCache.record env).2.map fun id => (id, env.streamId)).toList =
          (dropped.map (·.eventId)).map (·, env.streamId) := by
        rw [← hevicted]
        cases (s.bus.replayCache.record env).2 <;> rfl
      have hringIds : s.retention.ring env.streamId =
          dropped.map (·.eventId) ++ kept.map (·.eventId) := by
        simp only [retention, hring, List.map_append]
      -- the entry was held by the call that records
      have hheld : s.retention.held.Perm
          ((env.eventId, env.streamId) :: (s.pending ++ others)) :=
        (hold.append_left _).trans List.perm_middle
      have hheld' : (s.pending ++ bus.indexed).Perm
          ((dropped.map (·.eventId)).map (·, env.streamId) ++ (s.pending ++ others)) := by
        rw [hdropped] at hnew
        refine (hnew.append_left _).trans ?_
        rw [← List.append_assoc, ← List.append_assoc]
        exact List.perm_append_comm.append_right _
      have hretention : retention { s with bus } = { s.retention with
          held := s.pending ++ bus.indexed
          ring := Function.update s.retention.ring env.streamId
            (kept.map (·.eventId) ++ [env.eventId]) } := by
        simp only [retention, hcache, hregistry, hrecord, Retention.mk.injEq, true_and]
        refine ⟨rfl, funext fun id => ?_⟩
        by_cases hid : id = env.streamId
        · subst hid
          simp
        · rw [Function.update_of_ne hid, Function.update_of_ne hid]
      rw [hretention]
      exact h.balanced.record hringIds hheld hheld'

/-- A step of the bus is no new publish. -/
theorem bus_of_step {action : BusAction Json τ} (hs : step ops s (.bus action) = some s') :
    (∀ env, action ≠ .publish env) ∧ (∀ env, action ≠ .tryPublish env) ∧
      ∃ bus, Bus.step ops s.bus action = some bus ∧ s' = { s with bus } := by
  have hstep : (∀ env, action ≠ .publish env) → (∀ env, action ≠ .tryPublish env) →
      step ops s (.bus action) = (Bus.step ops s.bus action).map fun bus => { s with bus } := by
    intro ha ha'
    cases action with
    | publish env => exact absurd rfl (ha env)
    | tryPublish env => exact absurd rfl (ha' env)
    | subscribe | unsubscribe | advance | visit | cancel | recv | dropRx | withMaxEventSize => rfl
  have ha : ∀ env, action ≠ .publish env := by rintro env rfl; cases hs
  have ha' : ∀ env, action ≠ .tryPublish env := by rintro env rfl; cases hs
  rw [hstep ha ha'] at hs
  obtain ⟨bus, hbus, rfl⟩ := Option.map_eq_some_iff.mp hs
  exact ⟨ha, ha', bus, hbus, rfl⟩

/-- A step that is none of the bus leaves the rings. -/
theorem bus_of_other {a : PublishingAction τ} (ha : ∀ action, a ≠ .bus action)
    (hs : step ops s a = some s') : s'.bus.replayCache = s.bus.replayCache ∧
      (s.bus.AllAsync → s'.bus.AllAsync) := by
  cases a with
  | publishEnvelope plan ctx =>
    obtain rfl := Option.some.inj hs
    exact ⟨rfl, id⟩
  | allocate k =>
    obtain ⟨⟨sequencer, registry⟩, -, rfl⟩ := Option.map_eq_some_iff.mp hs
    exact ⟨rfl, id⟩
  | publish k now =>
    simp only [step] at hs
    split at hs
    · split at hs
      · cases hs
      · obtain ⟨bus, hbus, rfl⟩ := Option.map_eq_some_iff.mp hs
        refine ⟨?_, fun hasync => Bus.allAsync_step hasync (by simp) hbus⟩
        obtain rfl := Option.some.inj hbus
        rfl
    · cases hs
  | bus action => exact absurd rfl (ha action)

/-- **What a step does to the rings**: nothing, or it records an envelope. -/
theorem replayCache_of_step {a : PublishingAction τ} (h : s.bus.AllAsync)
    (hs : step ops s a = some s') : s'.bus.AllAsync ∧ s'.bus.replayCache =
      match s.recording a with
      | none => s.bus.replayCache
      | some env => (s.bus.replayCache.record env).1 := by
  cases a with
  | publishEnvelope | allocate | publish =>
    obtain ⟨hcache, hasync⟩ := bus_of_other (by simp) hs
    exact ⟨hasync h, hcache⟩
  | bus action =>
    obtain ⟨ha, ha', bus, hbus, rfl⟩ := bus_of_step hs
    refine ⟨Bus.allAsync_step h ha' hbus, ?_⟩
    dsimp only [recording]
    cases Bus.books_of_step h ha' hbus with
    | quiet hrecording hcache => rw [hrecording]; exact hcache
    | publish env haction => exact absurd haction (ha env)
    | forget id streamId hrecording hcache => rw [hrecording]; exact hcache
    | record env others hrecording hcache => rw [hrecording]; exact hcache

/-- **Every step keeps the index right.** -/
theorem Retained.step {a : PublishingAction τ} (h : s.Retained)
    (hcount : s'.sequencer.calls.length < 2 ^ 64) (hs : Publishing.step ops s a = some s') :
    s'.Retained := by
  cases a with
  | publishEnvelope plan ctx =>
    -- a publisher begins, takes its number, hands its envelope over, or the bus steps
    obtain rfl := Option.some.inj hs
    exact h.start plan ctx
  | allocate k =>
    obtain ⟨⟨sequencer, registry⟩, hadv, rfl⟩ := Option.map_eq_some_iff.mp hs
    refine h.allocate ?_ hadv
    rw [← Sequencer.length_advance hadv]
    exact hcount
  | publish k now =>
    simp only [Publishing.step] at hs
    split at hs
    · rename_i p a hp hres
      obtain ⟨c, hk, hres⟩ := Option.bind_eq_some_iff.mp hres
      split at hs
      · cases hs
      · rename_i hpub
        obtain ⟨bus, hbus, rfl⟩ := Option.map_eq_some_iff.mp hs
        exact h.publish hp hk hres (by simpa using hpub) hbus
    · cases hs
  | bus action =>
    obtain ⟨ha, ha', bus, hbus, rfl⟩ := bus_of_step hs
    exact h.busStep ha ha' hbus

/-- The index of a new node is that of its empty rings. -/
theorem retained_init (ops : BusOps Json τ κ) (replayCapacity : ℕ) :
    (machine ops replayCapacity).init.Retained where
  counting := Sequencer.counting_init
  async := by simp [Bus.AllAsync, machine, Bus.machine]
  aligned := rfl
  called := by simp [machine]
  placed := by simp [machine, Bus.machine]
  balanced := by
    have hnone : (machine ops replayCapacity).init.Entered = fun _ _ => False := by
      funext id streamId
      simp [Entered, machine, Sequencer.entered]
    rw [hnone]
    exact Retention.balanced_empty

/-! ### Runs -/

/-- A node with the history of what was recorded. -/
abbrev history (ops : BusOps Json τ κ) (replayCapacity : ℕ) :
    Machine (Publishing τ × List (EventEnvelope Json)) (PublishingAction τ) :=
  (machine ops replayCapacity).withHistory [] fun s a recorded => recorded ++ (s.recording a).toList

/-- The cache has its capacity, and the rings hold what was recorded last. -/
def Latest (replayCapacity : ℕ) (x : Publishing τ × List (EventEnvelope Json)) : Prop :=
  x.1.bus.AllAsync ∧ x.1.bus.replayCache.capacityPerStream = replayCapacity ∧
    x.1.bus.replayCache.HoldsLatest x.2

/-- Every step keeps each ring at the latest of its events. -/
theorem Latest.step {replayCapacity : ℕ} {x y : Publishing τ × List (EventEnvelope Json)}
    {a : PublishingAction τ} (h : Latest replayCapacity x)
    (hs : (history ops replayCapacity).step x a = some y) : Latest replayCapacity y := by
  obtain ⟨hstep, hrecorded⟩ := Machine.step_withHistory.mp hs
  obtain ⟨hasync, hcapacity, hlatest⟩ := h
  obtain ⟨hasync', hcache⟩ := replayCache_of_step hasync hstep
  refine ⟨hasync', ?_⟩
  rw [← hrecorded, hcache]
  cases x.1.recording a with
  | none =>
    rw [Option.toList_none, List.append_nil]
    exact ⟨hcapacity, hlatest⟩
  | some env => exact ⟨hcapacity, hlatest.record env⟩

end Steps

/-- No call of `publish_envelope` is in progress. -/
def Idle (s : Publishing τ) : Prop :=
  (∀ p ∈ s.publishers, p.published = true) ∧ ∀ c ∈ s.bus.calls, c.phase.ended = true

instance (s : Publishing τ) : Decidable s.Idle := inferInstanceAs (Decidable (_ ∧ _))

theorem Idle.held (h : s.Idle) : s.retention.held = [] := by
  refine List.append_eq_nil_iff.mpr ⟨?_, ?_⟩
  · refine List.filterMap_eq_nil_iff.mpr fun x hx => ?_
    rw [pendingOf, if_pos (h.1 x.1 (List.of_mem_zip hx).1)]
  · exact List.filterMap_eq_nil_iff.mpr fun c hc => Call.indexed_of_ended (h.2 c hc)

section Runs

variable [DecidableEq κ] {ops : BusOps Json τ κ} {replayCapacity : ℕ}

/-- No step takes back an allocation. -/
theorem length_calls_of_step {a : PublishingAction τ} (hs : step ops s a = some s') :
    s.sequencer.calls.length ≤ s'.sequencer.calls.length := by
  cases a with
  | publishEnvelope plan ctx =>
    obtain rfl := Option.some.inj hs
    simp [Sequencer.allocate]
  | allocate k =>
    obtain ⟨⟨sequencer, registry⟩, hadv, rfl⟩ := Option.map_eq_some_iff.mp hs
    exact le_of_eq (Sequencer.length_advance hadv).symm
  | publish k now =>
    simp only [step] at hs
    split at hs
    · split at hs
      · cases hs
      · obtain ⟨bus, -, rfl⟩ := Option.map_eq_some_iff.mp hs
        exact le_rfl
    · cases hs
  | bus action =>
    obtain ⟨-, -, bus, -, rfl⟩ := bus_of_step hs
    exact le_rfl

/-- In every reachable state the rings hold what was recorded last, and below 2^64 allocations the
index is right. -/
theorem reachable_history {x : Publishing τ × List (EventEnvelope Json)}
    (h : (history ops replayCapacity).Reachable x) :
    Latest replayCapacity x ∧ (x.1.sequencer.calls.length < 2 ^ 64 → x.1.Retained) := by
  refine h.inv (I := fun x => Latest replayCapacity x ∧
      (x.1.sequencer.calls.length < 2 ^ 64 → x.1.Retained))
    ⟨⟨?_, rfl, fun id => ⟨List.suffix_rfl, rfl⟩⟩, fun _ => retained_init ops _⟩ ?_
  · simp [Bus.AllAsync, history, Machine.withHistory, machine, Bus.machine]
  · intro x a y hx hs
    have hstep := (Machine.step_withHistory.mp hs).1
    refine ⟨hx.1.step hs, fun hcount => ?_⟩
    have hle := length_calls_of_step hstep
    exact (hx.2 (lt_of_le_of_lt hle hcount)).step hcount hstep

/-- **The reverse index is bounded by replay retention.** In every reachable state of a node with
fewer than `2 ^ 64` allocations and no call in progress, the reverse index has exactly the ids of the
envelopes in the rings, each with its stream; and each ring holds the last envelopes recorded on its
stream, as many as there are up to the capacity, and at least one. -/
theorem index_eq_rings {x : Publishing τ × List (EventEnvelope Json)}
    (h : (history ops replayCapacity).Reachable x) (hcount : x.1.sequencer.calls.length < 2 ^ 64)
    (hidle : x.1.Idle) :
    (∀ id streamId, x.1.bus.registry.streamFor id = some streamId ↔
      ∃ e ∈ x.1.bus.replayCache.perStream streamId, e.eventId = id ∧ e.streamId = streamId) ∧
    ∀ id, x.1.bus.replayCache.perStream id <:+ x.2.filter (·.streamId = id) ∧
      (x.1.bus.replayCache.perStream id).length =
        min (x.2.filter (·.streamId = id)).length (max replayCapacity 1) := by
  obtain ⟨⟨-, hcapacity, hlatest⟩, hretained⟩ := reachable_history h
  have hkept := hretained hcount
  refine ⟨fun id streamId => ?_, fun id => ?_⟩
  · refine (hkept.balanced.index_iff_ring hidle.held).trans ?_
    constructor
    · intro hmem
      obtain ⟨e, he, rfl⟩ := List.mem_map.mp hmem
      exact ⟨e, he, rfl, hkept.placed streamId e he⟩
    · rintro ⟨e, he, rfl, -⟩
      exact List.mem_map_of_mem he
  · rw [← hcapacity]
    exact hlatest id

end Runs

/-! ### A counter that wraps -/

section Wrap

/-- Every payload but `null` is too large. -/
def nullFits : BusOps Json Unit Unit where
  matchesEvent _ _ _ := true
  extractKey _ _ := none
  serializedSize e :=
    match e.data with
    | .null => 0
    | _ => DEFAULT_MAX_EVENT_SIZE_BYTES + 1

/-- An event of one stream. -/
def stateEvent (data : Json) : EnvelopePlan where
  nodeId := ⟨"hub"⟩
  resourceId := "r1"
  resourceKind := "led"
  stream := "state"
  payloadKind := "state"
  payloadVersion := 1
  data := data

/-- Three publishers on a ring for one envelope: two that fit, in turn, and an oversized one that
takes its number between them. -/
def mixed : List (PublishingAction Unit) :=
  [.publishEnvelope (stateEvent .null) {}, .publishEnvelope (stateEvent (.bool true)) {},
    .publishEnvelope (stateEvent .null) {}, .allocate 0, .allocate 1, .allocate 0, .allocate 1,
    .allocate 2, .allocate 0, .allocate 1, .allocate 2, .publish 1 {}, .publish 0 {}, .allocate 2,
    .publish 2 {}, .bus (.advance 0), .bus (.advance 1), .bus (.advance 1), .bus (.advance 0),
    .bus (.advance 2), .bus (.advance 1), .bus (.advance 2), .bus (.advance 2), .bus (.advance 1),
    .bus (.advance 2), .bus (.advance 2)]

theorem isSome_run_mixed :
    ((history nullFits 1).run (history nullFits 1).init mixed).isSome = true := by decide

theorem index_eq_rings_mixed : ∃ x, (history nullFits 1).run (history nullFits 1).init mixed =
    some x ∧ x.1.Idle ∧
      (x.1.bus.replayCache.perStream (stateEvent .null).streamId).map (·.sequence) = [3] ∧
      x.2.map (·.sequence) = [1, 3] ∧
      ∀ id streamId, x.1.bus.registry.streamFor id = some streamId ↔
        ∃ e ∈ x.1.bus.replayCache.perStream streamId, e.eventId = id ∧ e.streamId = streamId := by
  have hrun := (Option.some_get isSome_run_mixed).symm
  refine ⟨_, hrun, by decide, by decide, by decide, ?_⟩
  exact (index_eq_rings ⟨mixed, hrun⟩ (by decide) (by decide)).1

/-- The stream has the counter at `sequence`, and no call is in progress. -/
structure Counted (sequence : UInt64) (s : Publishing Unit) : Prop where
  entry : s.sequencer.perStream.get? (stateEvent .null).streamId = some 0
  states : s.sequencer.states = [sequence]
  aligned : s.publishers.length = s.sequencer.calls.length
  idle : s.Idle
  limit : s.bus.maxEventSize = DEFAULT_MAX_EVENT_SIZE_BYTES

/-- The node after an oversized publish with the number `sequence`, run alone. -/
def afterOversized (s : Publishing Unit) (sequence : UInt64) : Publishing Unit :=
  let plan := stateEvent (.bool true)
  let a : Allocated := .numbered plan.streamId sequence
  { sequencer := { s.sequencer with
      states := [sequence + 1]
      calls := s.sequencer.calls ++ [{ streamId := plan.streamId, phase := .returned a }] }
    bus := { s.bus with
      registry := (s.bus.registry.insert a.eventId plan.streamId).evict a.eventId
      calls := s.bus.calls ++ [{
        api := .publish
        envelope := plan.envelope {} a {}
        phase := .rejected (.tooLarge DEFAULT_MAX_EVENT_SIZE_BYTES) }] }
    publishers := s.publishers ++ [{ plan, ctx := {}, published := true }] }

/-- A publish whose bus refuses the event runs to its end all the same. -/
theorem Counted.run_oversized {sequence : UInt64} {s : Publishing Unit} (replayCapacity : ℕ)
    (h : s.Counted sequence) : (machine nullFits replayCapacity).run s
      [.publishEnvelope (stateEvent (.bool true)) {}, .allocate s.publishers.length,
        .allocate s.publishers.length, .allocate s.publishers.length,
        .publish s.publishers.length {}, .bus (.advance s.bus.calls.length),
        .bus (.advance s.bus.calls.length)] = some (s.afterOversized sequence) := by
  obtain ⟨⟨perStream, states, calls⟩, bus, publishers⟩ := s
  obtain ⟨hentry, hstates, hlen, -, hlimit⟩ := h
  dsimp only at hentry hstates hlen hlimit
  subst hstates
  have hstream : (stateEvent (.bool true)).streamId = (stateEvent .null).streamId := rfl
  -- the payload is too large for the limit
  have hsize : ∀ a : Allocated, nullFits.serializedSize ((stateEvent (.bool true)).envelope {} a {}) =
    DEFAULT_MAX_EVENT_SIZE_BYTES + 1 := fun _ => rfl
  have heventId : ∀ a : Allocated, ((stateEvent (.bool true)).envelope {} a {}).eventId = a.eventId :=
    fun _ => rfl
  have hset : ∀ p q : EnvelopePublisher, (publishers ++ [p]).set calls.length q =
      publishers ++ [q] := fun p q => by
    rw [← hlen]
    simp
  simp [Machine.run, machine, step, Sequencer.allocate, Sequencer.advance, Sequencer.setPhase,
    hlen, hstream, hentry, AllocateCall.result, hset, Bus.step, Bus.advance, Bus.setCall,
    hlimit, hsize, heventId, Publishing.afterOversized]

/-- The sequence of an event the bus refused is still spent. -/
theorem Counted.afterOversized {sequence : UInt64} {s : Publishing Unit} (h : s.Counted sequence) :
    (s.afterOversized sequence).Counted (sequence + 1) where
  entry := h.entry
  states := rfl
  aligned := by simp [Publishing.afterOversized, h.aligned]
  idle := by
    refine ⟨fun p hp => ?_, fun c hc => ?_⟩
    · rcases List.mem_append.mp hp with hp | hp
      · exact h.idle.1 p hp
      · rw [List.mem_singleton.mp hp]
    · rcases List.mem_append.mp hc with hc | hc
      · exact h.idle.2 c hc
      · rw [List.mem_singleton.mp hc]
        rfl
  limit := h.limit

/-- Any number of oversized publishes, one after another. -/
theorem Counted.exhaust {sequence : UInt64} {s : Publishing Unit} (replayCapacity : ℕ)
    (h : s.Counted sequence) (n : ℕ) : ∃ t, (machine nullFits replayCapacity).Leads s t ∧
      t.Counted (sequence + UInt64.ofNat n) ∧ t.bus.replayCache = s.bus.replayCache := by
  induction n with
  | zero => exact ⟨s, .refl s, by simpa using h, rfl⟩
  | succ n ih =>
    obtain ⟨t, hleads, ht, hcache⟩ := ih
    refine ⟨t.afterOversized _, hleads.trans ⟨_, ht.run_oversized replayCapacity⟩, ?_, hcache⟩
    have hnext := ht.afterOversized
    rw [UInt64.add_assoc] at hnext
    rw [UInt64.ofNat_add]
    exact hnext

/-- One publish that fits, by itself. -/
def once : List (PublishingAction Unit) :=
  [.publishEnvelope (stateEvent .null) {}, .allocate 0, .allocate 0, .allocate 0, .publish 0 {},
    .bus (.advance 0), .bus (.advance 0), .bus (.advance 0), .bus (.advance 0)]

/-- A node with rings of the default capacity. -/
abbrev node : Machine (Publishing Unit) (PublishingAction Unit) :=
  machine nullFits DEFAULT_REPLAY_CAPACITY

theorem isSome_run_once : (node.run node.init once).isSome = true := by decide

/-- **Without a bound the index and the rings drift apart**: after `2 ^ 64 - 1` oversized publishes
the counter is at one again, and the next oversized publish evicts the id of the envelope in the
ring. -/
theorem index_drifts : ¬ ∀ s, node.Reachable s → s.Idle → ∀ id streamId,
    (s.bus.registry.streamFor id = some streamId ↔
      ∃ e ∈ s.bus.replayCache.perStream streamId, e.eventId = id ∧ e.streamId = streamId) := by
  intro h
  have hrun := (Option.some_get isSome_run_once).symm
  -- one envelope, and then 2^64 - 1 allocations that publish nothing
  have hcounted : ((node.run node.init once).get isSome_run_once).Counted 2 :=
    ⟨by decide, by decide, by decide, by decide, by decide⟩
  obtain ⟨t, hleads, ht, hcache⟩ := hcounted.exhaust DEFAULT_REPLAY_CAPACITY (2 ^ 64 - 1)
  have hone : (2 : UInt64) + UInt64.ofNat (2 ^ 64 - 1) = 1 := by decide
  rw [hone] at ht
  have hreach : node.Reachable (t.afterOversized 1) := by
    have hfirst : node.Leads node.init _ := ⟨once, hrun⟩
    exact (hfirst.trans hleads).trans ⟨_, ht.run_oversized _⟩
  -- the first number comes again, and its oversized envelope is evicted at once
  let id := (Allocated.numbered (stateEvent .null).streamId 1).eventId
  have hmem : (id, (stateEvent .null).streamId) ∈
      ((t.afterOversized 1).bus.replayCache.perStream (stateEvent .null).streamId).map
        fun e => (e.eventId, e.streamId) := by
    change _ ∈ (t.bus.replayCache.perStream (stateEvent .null).streamId).map _
    rw [hcache]
    decide
  obtain ⟨e, he, heq⟩ := List.mem_map.mp hmem
  have hindexed := (h _ hreach ht.afterOversized.idle id (stateEvent .null).streamId).mpr
    ⟨e, he, Prod.mk.inj heq⟩
  -- the eviction took the index entry of the envelope that the ring still has
  have hnone : (t.afterOversized 1).bus.registry.streamFor id = none := by
    have hevict :=
      Sequencer.streamFor_evict (t.bus.registry.insert id (stateEvent .null).streamId) id id
    rw [if_pos rfl] at hevict
    exact hevict
  rw [hnone] at hindexed
  cases hindexed

end Wrap

end Publishing

end Boardwalk
