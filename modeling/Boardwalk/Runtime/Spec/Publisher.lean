import Boardwalk.Events.Spec.Lossless
import Boardwalk.Runtime.Sequencer

/-!
# Published envelopes

`publish_envelope` takes a sequence number and then calls `publish`.  `Published` is what holds of
the envelopes on the two sides of that call while no counter wraps: each is below the counter of its
stream, and no two have the same position.  On one stream an event id names one envelope
(`Published.eq_of_eventId`).
-/

namespace Boardwalk

/-- The decimal text of a number determines it. -/
theorem toString_inj_uint64 {m n : UInt64} (h : toString m = toString n) : m = n := by
  have hrepr : m.toNat.repr = n.toNat.repr := h
  have hdigits : Nat.toDigits 10 m.toNat = Nat.toDigits 10 n.toNat := by
    rw [← Nat.toList_repr, ← Nat.toList_repr, hrepr]
  have hnat : Nat.ofDigitChars 10 (Nat.toDigits 10 m.toNat) 0 =
      Nat.ofDigitChars 10 (Nat.toDigits 10 n.toNat) 0 := by
    rw [hdigits]
  rw [Nat.ofDigitChars_toDigits (by omega) (by omega),
    Nat.ofDigitChars_toDigits (by omega) (by omega)] at hnat
  exact UInt64.toNat_inj.mp hnat

/-- The ids of an envelope are those that `publish_envelope` gives it. -/
structure EventEnvelope.Addressed {δ : Type} (e : EventEnvelope δ) : Prop where
  streamId : e.streamId = .forResource e.nodeId e.resourceId e.stream
  eventId : e.eventId = ⟨e.streamId.raw ++ "-" ++ toString e.sequence⟩

/-- On one stream an event id determines the sequence number. -/
theorem EventEnvelope.Addressed.position_eq {δ : Type} {e e' : EventEnvelope δ} (h : e.Addressed)
    (h' : e'.Addressed) (hstream : e.streamId = e'.streamId) (hid : e.eventId = e'.eventId) :
    e.position = e'.position := by
  have htext : e.streamId.raw ++ "-" ++ toString e.sequence =
      e.streamId.raw ++ "-" ++ toString e'.sequence := by
    rw [h.eventId, h'.eventId, ← hstream] at hid
    exact EventId.mk.inj hid
  have hseq : e.sequence = e'.sequence :=
    toString_inj_uint64 ((String.append_right_inj _).mp htext)
  rw [position, position, hstream, hseq]

theorem StreamSequences.nextSequence_allocate_self (s : StreamSequences) (id : StreamId) :
    (s.allocate id).1.nextSequence id = s.nextSequence id + 1 := Function.update_self ..

theorem StreamSequences.nextSequence_allocate_of_ne (s : StreamSequences) {id id' : StreamId}
    (h : id' ≠ id) : (s.allocate id).1.nextSequence id' = s.nextSequence id' :=
  Function.update_of_ne h ..

variable {τ κ : Type} [DecidableEq κ]

/-! ### The registry and the subscriptions -/

section Registry

variable {δ : Type} {b : Bus δ τ} (registry : StreamRegistry)

/-- The registry says nothing of the subscriptions. -/
theorem Bus.WellFormed.withRegistry (h : b.WellFormed) : { b with registry }.WellFormed :=
  { h with untouched := fun i hi => { h.untouched i hi with } }

theorem Bus.RecordsOnce.withRegistry (h : b.RecordsOnce) : { b with registry }.RecordsOnce :=
  { h with }

end Registry

/-! ### Sequence numbers -/

/-- The envelopes that have a sequence number: before the call of `publish`, and from it on. -/
def Bus.published (minted : List (EventEnvelope Json)) (b : Bus Json τ) :
    List (EventEnvelope Json) :=
  minted ++ b.calls.map (·.envelope)

/-- The envelopes of the bus all come from `publish_envelope`, and no counter has wrapped. -/
structure Published (sequences : StreamSequences) (minted : List (EventEnvelope Json))
    (b : Bus Json τ) : Prop where
  wellFormed : b.WellFormed
  fresh : b.FreshQueues
  recordsOnce : b.RecordsOnce
  counting : ∀ id, 0 < sequences.nextSequence id
  addressed : ∀ e ∈ b.published minted, e.Addressed
  numbered : ∀ e ∈ b.published minted, 0 < e.sequence ∧
    e.sequence < sequences.nextSequence e.streamId
  distinct : ((b.published minted).map (·.position)).Nodup

section Steps

variable {ops : BusOps Json τ κ} {b b' : Bus Json τ} {a : BusAction Json τ}
  {sequences : StreamSequences} {minted : List (EventEnvelope Json)}

theorem published_init (ops : BusOps Json τ κ) (replayCapacity : ℕ) :
    Published {} [] (Bus.machine ops replayCapacity).init where
  wellFormed := Bus.wellFormed_init ops replayCapacity
  fresh _ _ := rfl
  recordsOnce := Bus.recordsOnce_init ops replayCapacity
  counting _ := (by decide : (0 : UInt64) < 1)
  addressed := by simp [Bus.published, Bus.machine]
  numbered := by simp [Bus.published, Bus.machine]
  distinct := by simp [Bus.published, Bus.machine]

/-- **On one stream an event id names one envelope.** -/
theorem Published.eq_of_eventId (h : Published sequences minted b) {e e' : EventEnvelope Json}
    (he : e ∈ b.published minted) (he' : e' ∈ b.published minted)
    (hstream : e.streamId = e'.streamId) (hid : e.eventId = e'.eventId) : e = e' :=
  List.inj_on_of_nodup_map h.distinct he he'
    ((h.addressed e he).position_eq (h.addressed e' he') hstream hid)

theorem mem_published_of_call {c : Call Json} (hc : c ∈ b.calls) :
    c.envelope ∈ b.published minted :=
  List.mem_append_right _ (List.mem_map_of_mem hc)

/-- What a ring holds was published on its stream. -/
theorem Published.mem_of_ring (h : Published sequences minted b) {id : StreamId}
    {e : EventEnvelope Json} (he : e ∈ b.replayCache.perStream id) :
    e ∈ b.published minted ∧ e.streamId = id := by
  obtain ⟨hid, c, hc, rfl, -⟩ := h.recordsOnce.source id e he
  exact ⟨mem_published_of_call hc, hid⟩

/-- The read of the cache skips nothing: sequence numbers start at one. -/
theorem Published.eventsAfter_zero (h : Published sequences minted b) (id : StreamId) :
    b.replayCache.eventsAfter id 0 = b.replayCache.perStream id := by
  refine List.filter_eq_self.mpr fun e he => ?_
  exact decide_eq_true (h.numbered e (h.mem_of_ring he).1).1

/-- A step of the bus that is not the call of a publisher leaves the published envelopes. -/
theorem Published.envelopes_eq (h : Published sequences minted b)
    (ha : ∀ env, a ≠ .publish env) (ha' : ∀ env, a ≠ .tryPublish env)
    (hs : Bus.step ops b a = some b') : b'.published minted = b.published minted := by
  rcases (Bus.callsMove_of_step h.recordsOnce.async ha' hs).envelopes with heq | ⟨env, haction, -⟩
  · rw [Bus.published, Bus.published, heq]
  · exact absurd haction (ha env)

theorem Published.bus_step (h : Published sequences minted b) (ha : ∀ env, a ≠ .publish env)
    (ha' : ∀ env, a ≠ .tryPublish env) (hs : Bus.step ops b a = some b') :
    Published sequences minted b' := by
  have heq := h.envelopes_eq ha ha' hs
  refine ⟨Bus.wellFormed_step h.wellFormed hs, Bus.freshQueues_step h.wellFormed h.fresh hs,
    h.recordsOnce.step ha' (fun env henv => absurd henv (ha env)) hs, h.counting, ?_, ?_, ?_⟩
  · rw [heq]; exact h.addressed
  · rw [heq]; exact h.numbered
  · rw [heq]; exact h.distinct

/-- The publisher of a minted envelope calls `publish`. -/
theorem published_perm {n : ℕ} {env : EventEnvelope Json} (hn : minted[n]? = some env)
    (hs : Bus.step ops b (.publish env) = some b') :
    (b'.published (minted.eraseIdx n)).Perm (b.published minted) := by
  obtain ⟨hlt, rfl⟩ := List.getElem?_eq_some_iff.mp hn
  obtain rfl := Option.some.inj hs
  have hsplit : (minted[n] :: minted.eraseIdx n).Perm minted := List.getElem_cons_eraseIdx_perm hlt
  rw [Bus.published, Bus.published, List.map_append, List.map_singleton, ← List.append_assoc]
  exact (List.perm_append_singleton _ _).trans (hsplit.append_right _)

/-- A publish takes its envelope from those minted to those published. -/
theorem Published.publish (h : Published sequences minted b) {n : ℕ} {env : EventEnvelope Json}
    (hn : minted[n]? = some env) (hs : Bus.step ops b (.publish env) = some b') :
    Published sequences (minted.eraseIdx n) b' := by
  have hperm := published_perm hn hs
  have hmem : ∀ e ∈ b'.published (minted.eraseIdx n), e ∈ b.published minted := fun e he =>
    hperm.mem_iff.mp he
  have hfresh : env.position ∉ (b.calls.map (·.envelope)).map (·.position) := by
    intro hpos
    have hdistinct := h.distinct
    rw [Bus.published, List.map_append, List.nodup_append] at hdistinct
    exact hdistinct.2.2 _ (List.mem_map_of_mem (List.mem_of_getElem? hn)) _ hpos rfl
  refine ⟨Bus.wellFormed_step h.wellFormed hs, Bus.freshQueues_step h.wellFormed h.fresh hs,
    h.recordsOnce.step (by simp) (fun env' henv => ?_) hs, h.counting,
    fun e he => h.addressed e (hmem e he), fun e he => h.numbered e (hmem e he),
    (hperm.map _).nodup_iff.mpr h.distinct⟩
  obtain rfl := BusAction.publish.inj henv
  exact hfresh

/-- The envelopes after an allocation. -/
theorem mem_published_mint {env e : EventEnvelope Json} :
    e ∈ b.published (minted ++ [env]) ↔ e ∈ b.published minted ∨ e = env := by
  simp only [Bus.published, List.mem_append, List.mem_singleton]
  tauto

/-- **A publisher takes a sequence number**: the envelope is new, and beyond all others of its
stream. -/
theorem Published.mint (h : Published sequences minted b) (plan : EnvelopePlan)
    (ctx : EmissionContext) (now : OffsetDateTime) (registry : StreamRegistry)
    (hwrap : (sequences.nextSequence plan.streamId).toNat + 1 < 2 ^ 64) :
    Published (sequences.allocate plan.streamId).1
      (minted ++ [plan.envelope ctx (sequences.allocate plan.streamId).2 now])
      { b with registry } := by
  let env := plan.envelope ctx (sequences.allocate plan.streamId).2 now
  -- the counter does not wrap, so it grows
  have hsucc : (sequences.nextSequence plan.streamId + 1).toNat =
      (sequences.nextSequence plan.streamId).toNat + 1 := by
    rw [UInt64.toNat_add]
    exact Nat.mod_eq_of_lt hwrap
  have hmono : ∀ id, sequences.nextSequence id ≤
      (sequences.allocate plan.streamId).1.nextSequence id := by
    intro id
    by_cases hid : id = plan.streamId
    · subst hid
      rw [StreamSequences.nextSequence_allocate_self, UInt64.le_iff_toNat_le, hsucc]
      exact Nat.le_succ _
    · rw [StreamSequences.nextSequence_allocate_of_ne _ hid]
      exact UInt64.le_refl _
  have hnew : sequences.nextSequence plan.streamId <
      (sequences.allocate plan.streamId).1.nextSequence plan.streamId := by
    rw [StreamSequences.nextSequence_allocate_self, UInt64.lt_iff_toNat_lt, hsucc]
    exact Nat.lt_succ_self _
  -- no envelope of the stream has the number that is taken now
  have hlater : ∀ e ∈ b.published minted, e.position ≠ env.position := by
    intro e he heq
    have hlt := (h.numbered e he).2
    rw [show e.streamId = env.streamId from congrArg Prod.fst heq,
      show e.sequence = env.sequence from congrArg Prod.snd heq] at hlt
    exact UInt64.lt_irrefl _ hlt
  refine ⟨h.wellFormed.withRegistry registry, h.fresh, h.recordsOnce.withRegistry registry,
    fun id => ?_, fun e he => ?_, fun e he => ?_, ?_⟩
  · exact UInt64.lt_of_lt_of_le (h.counting id) (hmono id)
  · rcases mem_published_mint.mp he with he | rfl
    · exact h.addressed e he
    · exact ⟨rfl, rfl⟩
  · rcases mem_published_mint.mp he with he | rfl
    · exact ⟨(h.numbered e he).1, UInt64.lt_of_lt_of_le (h.numbered e he).2 (hmono _)⟩
    · exact ⟨h.counting plan.streamId, hnew⟩
  · -- the new envelope stands before the calls of the bus
    have hperm : (b.published (minted ++ [env])).Perm (env :: b.published minted) := by
      rw [Bus.published, Bus.published, List.append_assoc]
      exact List.perm_middle
    refine (hperm.map _).nodup_iff.mpr (List.nodup_cons.mpr ⟨fun hpos => ?_, h.distinct⟩)
    obtain ⟨e, he, heq⟩ := List.mem_map.mp hpos
    exact hlater e he heq

end Steps

/-! ### Publishes that take turns -/

/-- No envelope of the stream has a greater sequence number. -/
def Bus.Latest (minted : List (EventEnvelope Json)) (b : Bus Json τ) (id : StreamId)
    (e : EventEnvelope Json) : Prop :=
  ∀ e' ∈ b.published minted, e'.streamId = id → e'.sequence ≤ e.sequence

/-- No publish on the stream overlaps another one: an envelope whose publish has not ended is the
latest. -/
structure Bus.TakesTurns (minted : List (EventEnvelope Json)) (b : Bus Json τ) (id : StreamId) :
    Prop where
  waiting : ∀ e ∈ minted, e.streamId = id → b.Latest minted id e
  calls : ∀ c ∈ b.calls, c.phase.ended = false → c.envelope.streamId = id →
    b.Latest minted id c.envelope

/-- The envelopes are in the order of their sequence numbers. -/
def InSequence (l : List (EventEnvelope Json)) : Prop :=
  l.Pairwise fun e e' => e.sequence < e'.sequence

theorem InSequence.concat {l : List (EventEnvelope Json)} {e : EventEnvelope Json}
    (h : InSequence l) (he : ∀ e' ∈ l, e'.sequence < e.sequence) : InSequence (l ++ [e]) :=
  List.pairwise_append.mpr ⟨h, List.pairwise_singleton _ _, fun x hx y hy => by
    rw [List.mem_singleton.mp hy]
    exact he x hx⟩

section Turns

variable {ops : BusOps Json τ κ} {b b' : Bus Json τ} {a : BusAction Json τ}
  {sequences : StreamSequences} {minted : List (EventEnvelope Json)} {id : StreamId}
  {i : SubscriptionId} {p : τ} {opts : SubscribeOpts}

/-- The others come before the latest. -/
theorem Published.lt_of_latest (hb : Published sequences minted b) {e e' : EventEnvelope Json}
    (h : b.Latest minted id e) (he : e ∈ b.published minted) (hid : e.streamId = id)
    (he' : e' ∈ b.published minted) (hid' : e'.streamId = id) (hne : e' ≠ e) :
    e'.sequence < e.sequence := by
  refine UInt64.lt_of_le_of_ne (h e' he' hid') fun hseq => hne ?_
  have hpos : e'.position = e.position := by
    rw [EventEnvelope.position, EventEnvelope.position, hid, hid', hseq]
  exact List.inj_on_of_nodup_map hb.distinct he' he hpos

theorem Bus.TakesTurns.bus_step (h : b.TakesTurns minted id) (hb : Published sequences minted b)
    (ha : ∀ env, a ≠ .publish env) (ha' : ∀ env, a ≠ .tryPublish env)
    (hs : Bus.step ops b a = some b') : b'.TakesTurns minted id := by
  have heq := hb.envelopes_eq ha ha' hs
  refine ⟨fun e he hid => ?_, fun c' hc' hrun hid => ?_⟩
  · rw [Bus.Latest, heq]
    exact h.waiting e he hid
  · obtain ⟨c, hc, henv, hrun'⟩ := Bus.unended_of_step ha ha' hb.recordsOnce.async hs c' hc' hrun
    rw [Bus.Latest, heq, ← henv]
    exact h.calls c hc hrun' (henv ▸ hid)

/-- A publish of the next envelope leaves the others waiting their turn. -/
theorem Bus.TakesTurns.publish (h : b.TakesTurns minted id) {n : ℕ} {env : EventEnvelope Json}
    (hn : minted[n]? = some env) (hs : Bus.step ops b (.publish env) = some b') :
    b'.TakesTurns (minted.eraseIdx n) id := by
  have hperm := published_perm hn hs
  have hlatest : ∀ e, b.Latest minted id e → b'.Latest (minted.eraseIdx n) id e :=
    fun e hl e' he' => hl e' (hperm.mem_iff.mp he')
  obtain rfl := Option.some.inj hs
  refine ⟨fun e he hid => hlatest e (h.waiting e (List.mem_of_mem_eraseIdx he) hid), ?_⟩
  intro c hc hrun hid
  rcases List.mem_append.mp hc with hc | hc
  · exact hlatest _ (h.calls c hc hrun hid)
  · obtain rfl := List.mem_singleton.mp hc
    exact hlatest env (h.waiting env (List.mem_of_getElem? hn) hid)

/-- A publish starts when no other on the stream is in progress. -/
theorem Bus.TakesTurns.mint (h : b.TakesTurns minted id) (hb : Published sequences minted b)
    (plan : EnvelopePlan) (ctx : EmissionContext) (now : OffsetDateTime)
    (registry : StreamRegistry) (hturn : plan.streamId = id →
      (∀ e ∈ minted, e.streamId ≠ id) ∧ ∀ c ∈ b.calls, c.envelope.streamId = id →
        c.phase.ended = true) :
    { b with registry }.TakesTurns
      (minted ++ [plan.envelope ctx (sequences.allocate plan.streamId).2 now]) id := by
  let env := plan.envelope ctx (sequences.allocate plan.streamId).2 now
  -- an envelope on another stream is latest as it was
  have hold : ∀ e, plan.streamId ≠ id → b.Latest minted id e →
      { b with registry }.Latest (minted ++ [env]) id e := by
    intro e hother hl e' he' hid
    rcases mem_published_mint.mp he' with he' | rfl
    · exact hl e' he' hid
    · exact absurd hid hother
  refine ⟨fun e he hid => ?_, fun c hc hrun hid => ?_⟩
  · -- minted and not published, or being published: in turn there is no other on the stream
    rcases List.mem_append.mp he with he | he
    · by_cases hplan : plan.streamId = id
      · exact absurd hid ((hturn hplan).1 e he)
      · exact hold e hplan (h.waiting e he hid)
    · -- the new envelope has the next number
      obtain rfl := List.mem_singleton.mp he
      intro e' he' hid'
      rcases mem_published_mint.mp he' with he' | rfl
      · have hlt := (hb.numbered e' he').2
        have hplan : plan.streamId = id := hid
        rw [hid', ← hplan] at hlt
        exact UInt64.le_of_lt hlt
      · exact UInt64.le_refl _
  · by_cases hplan : plan.streamId = id
    · rw [(hturn hplan).2 c hc hid] at hrun
      cases hrun
    · exact hold _ hplan (h.calls c hc hrun hid)

/-- **The ring stays in sequence.** -/
theorem Bus.TakesTurns.ring_step (h : b.TakesTurns minted id) (hb : Published sequences minted b)
    (hr' : b'.RecordsOnce) (hs : Bus.step ops b a = some b')
    (hring : InSequence (b.replayCache.perStream id)) :
    InSequence (b'.replayCache.perStream id) := by
  cases Bus.cacheMove_of_step hb.recordsOnce.async hs with
  -- a step records at most one envelope, and in turn it is the latest
  | same hcache => rwa [hcache]
  | record k c c' hk hp _ _ _ hcache =>
    obtain ⟨kept, hsuf, hper⟩ := b.replayCache.record_perStream c.envelope
    rw [← hcache] at hper
    by_cases hid : id = c.envelope.streamId
    · subst hid
      have honce := (hr'.once c.envelope.streamId).of_map
      rw [hper, Function.update_self] at honce ⊢
      have hc := List.mem_of_getElem? hk
      refine InSequence.concat (hring.sublist hsuf.sublist) fun e he => ?_
      obtain ⟨hmem, hstream⟩ := hb.mem_of_ring (hsuf.subset he)
      refine hb.lt_of_latest (h.calls c hc (by rw [hp]; rfl) rfl) (mem_published_of_call hc) rfl
        hmem hstream ?_
      rintro rfl
      exact (List.nodup_append.mp honce).2.2 _ he _ List.mem_cons_self rfl
    · rw [hper, Function.update_of_ne hid]
      exact hring

/-- What a step adds to the queue is the envelope of a publish in progress. -/
theorem Bus.Feeds.enqueued_cases (h : b.Feeds ops i p opts) (hr : b.RecordsOnce)
    (hs : Bus.step ops b a = some b') : (b'.mpsc i).enqueued = (b.mpsc i).enqueued ∨
      ∃ c ∈ b.calls, c.phase.ended = false ∧
        (b'.mpsc i).enqueued = (b.mpsc i).enqueued ++ [c.envelope] := by
  rcases Bus.enqueued_of_effect (h.effect hr hs) with heq | ⟨k, c, c', hk, -, heq, hun, -⟩
  · exact .inl heq
  · have hc := List.mem_of_getElem? hk
    refine .inr ⟨c, hc, ?_, heq⟩
    cases hended : c.phase.ended with
    | false => rfl
    | true =>
      rw [Call.Unsent, (hr.orderly i c hc).ended hended] at hun
      cases hun

end Turns

end Boardwalk
