import Boardwalk.Http.Spec.ReplaySession
import Boardwalk.Http.Spec.StreamLink

/-!
# Replay, then live: nothing twice, nothing lost

A request for a replay subscribes first and reads the ring after.  What is published in between may
come on both ways, and the body drops it from the queue by its id.  So no envelope is shown twice,
and when the body has emptied its queue and no publish is in progress, all that was in the ring or
was offered since has been shown.

The order of the sequence numbers is another matter.  The ring may lose an envelope between the two
steps that is in the queue already; it is then shown after the later ones of the ring
(`replay_out_of_order`).  If what is queued at the read is still in the ring, publishes that do not
overlap are shown in the order of their sequence numbers.
-/

namespace Boardwalk

open Splice

namespace ReplaySession

variable {τ κ : Type}

/-- No counter wraps around, the queue does not overflow, and no publish is dropped that still owes
the stream its envelope. -/
def Undisturbed (s : ReplaySession τ) : SessionAction τ → Prop
  | .mint plan _ _ => (s.sequences.nextSequence plan.streamId).toNat + 1 < 2 ^ 64
  | .stream (.bus a) => s.stream.active = true → Bus.Lossless s.stream.sub s.stream.bus a
  | _ => True

/-- A publish on the stream `id` starts when no other one is in progress there. -/
def InTurn (id : StreamId) (s : ReplaySession τ) : SessionAction τ → Prop
  | .mint plan _ _ => plan.streamId = id → (∀ e ∈ s.minted, e.streamId ≠ id) ∧
      ∀ c ∈ s.stream.bus.calls, c.envelope.streamId = id → c.phase.ended = true
  | _ => True

/-- The next poll reads the cache. -/
def reading (s : ReplaySession τ) : Bool :=
  match s.stream.phase with
  | .subscribed _ => true
  | _ => false

/-- When the cache is read, the ring still has what is queued already. -/
def ReadsQueued (s : ReplaySession τ) : SessionAction τ → Prop
  | .stream (.poll _) => s.reading = true → ∀ e ∈ (s.stream.bus.mpsc s.stream.sub).enqueued,
      e.eventId ∈ s.stream.toRead.map (·.eventId)
  | _ => True

instance (s : ReplaySession τ) : ∀ a, Decidable (s.Undisturbed a)
  | .mint .. => inferInstanceAs (Decidable (_ < _))
  | .stream (.bus _) => inferInstanceAs (Decidable (_ → _))
  | .publish _ | .stream (.subscribe ..) | .stream (.poll _) | .stream .disconnect =>
    isTrue True.intro

instance (id : StreamId) (s : ReplaySession τ) : ∀ a, Decidable (InTurn id s a)
  | .mint .. => inferInstanceAs (Decidable (_ → _))
  | .publish _ | .stream _ => isTrue True.intro

instance (s : ReplaySession τ) : ∀ a, Decidable (s.ReadsQueued a)
  | .stream (.poll _) => inferInstanceAs (Decidable (_ → _))
  | .mint .. | .publish _ | .stream (.bus _) | .stream (.subscribe ..) | .stream .disconnect =>
    isTrue True.intro

/-- If the handler subscribes, it is to `p` with `opts` and with the replay of `id`. -/
def Serves (p : τ) (opts : SubscribeOpts) (id : StreamId) (a : SessionAction τ) : Prop :=
  ∀ topic capacity policy x, a = .stream (.subscribe topic capacity policy x) →
    topic = p ∧ capacity = opts.outboundCapacity ∧ policy = opts.slowConsumerPolicy ∧ x = some id

section Order

variable [DecidableEq κ] {s s' : ReplaySession τ} {ops : BusOps Json τ κ}
  {rfc3339 : OffsetDateTime → Option String} {p : τ} {id : StreamId} {opts : SubscribeOpts}
  {a : SessionAction τ}

/-- **One step keeps the invariant.** -/
theorem SessionInv.step (h : SessionInv ops rfc3339 p id opts s) (hlimit : opts.limit = none)
    (hmpsc : opts.slowConsumerPolicy.isMpsc = true) (hpol : opts.slowConsumerPolicy ≠ .dropNewest)
    (hp : ∀ e : EventEnvelope Json, e.Addressed → ops.Matches p e → e.streamId = id)
    (ha : Serves p opts id a) (hG : s.Undisturbed a)
    (hs : ReplaySession.step ops rfc3339 s a = some s') : SessionInv ops rfc3339 p id opts s' := by
  cases a with
  | mint plan ctx now => exact h.mint hG hs
  | publish n => exact h.publish hmpsc hpol hs
  | stream a =>
    cases a with
    | bus a => exact h.bus hmpsc hpol hG hs
    | subscribe topic capacity policy x =>
      obtain ⟨rfl, rfl, rfl, rfl⟩ := ha topic capacity policy x rfl
      exact h.subscribe hlimit hmpsc hs
    | poll now => exact h.poll hmpsc hpol hp hs
    | disconnect => exact h.disconnect hp hs

/-! ### The order of the lines -/

/-- Publishes on the stream take turns, and what is shown is in the order of the sequence numbers:
the ring, the queue, and beyond the ring that was read what is queued and not in it. -/
structure Ordered (id : StreamId) (s : ReplaySession τ) : Prop where
  turns : s.stream.bus.TakesTurns s.minted id
  ring : InSequence (s.stream.bus.replayCache.perStream id)
  ringAtRead : InSequence s.ringAtRead
  queue : s.stream.active = true → InSequence (s.stream.bus.mpsc s.stream.sub).enqueued
  beyond : s.stream.active = true → (∀ x, s.stream.phase ≠ .subscribed x) →
    ∀ e ∈ s.ringAtRead, ∀ e' ∈ (s.stream.bus.mpsc s.stream.sub).enqueued,
      e'.eventId ∉ s.ringAtRead.map (·.eventId) → e.sequence < e'.sequence
  handed : InSequence s.stream.handed

omit [DecidableEq κ] in
/-- **What is shown is in order** if the ring, the queue and the two together are. -/
theorem Showing.inSequence (h : s.Showing ops p id opts) (hring : InSequence s.ringAtRead)
    (hqueue : InSequence (s.stream.bus.mpsc s.stream.sub).enqueued)
    (hbeyond : (∀ x, s.stream.phase ≠ .subscribed x) →
      ∀ e ∈ s.ringAtRead, ∀ e' ∈ (s.stream.bus.mpsc s.stream.sub).enqueued,
        e'.eventId ∉ s.ringAtRead.map (·.eventId) → e.sequence < e'.sequence) :
    InSequence s.stream.handed := by
  obtain ⟨shown, hshows⟩ := h.shows
  rw [hshows.handed]
  refine pairwise_splice (hring.sublist hshows.ring.sublist)
    (hqueue.sublist (List.sublist_append_left _ _)) fun e he e' he' hnew => ?_
  rcases hshows.whole with hwhole | hnone
  · subst hwhole
    refine hbeyond (fun x hx => ?_) e he e' (List.mem_append_left _ he') hnew
    rw [(hshows.subscribed x hx).1] at he'
    cases he'
  · rw [hnone] at he'
    cases he'

/-- A state is in order if its bus is, and what the stream has shown at its end. -/
theorem Ordered.of_showing (hinv : SessionInv ops rfc3339 p id opts s)
    (hturns : s.stream.bus.TakesTurns s.minted id)
    (hring : InSequence (s.stream.bus.replayCache.perStream id))
    (hread : InSequence s.ringAtRead)
    (hqueue : s.stream.active = true → InSequence (s.stream.bus.mpsc s.stream.sub).enqueued)
    (hbeyond : s.stream.active = true → (∀ x, s.stream.phase ≠ .subscribed x) →
      ∀ e ∈ s.ringAtRead, ∀ e' ∈ (s.stream.bus.mpsc s.stream.sub).enqueued,
        e'.eventId ∉ s.ringAtRead.map (·.eventId) → e.sequence < e'.sequence)
    (hended : s.stream.active = false → InSequence s.stream.handed) : s.Ordered id := by
  refine ⟨hturns, hring, hread, hqueue, hbeyond, ?_⟩
  by_cases hact : s.stream.active = true
  · exact (hinv.showing hact).inSequence hread (hqueue hact) (hbeyond hact)
  · exact hended (by simpa using hact)

/-- A step of the bus keeps the order. -/
theorem Ordered.bus_step (h : s.Ordered id) (hinv : SessionInv ops rfc3339 p id opts s)
    (hp : ∀ e : EventEnvelope Json, e.Addressed → ops.Matches p e → e.streamId = id)
    {a : BusAction Json τ} {b : Bus Json τ} (ha : ∀ env, a ≠ .publish env)
    (ha' : ∀ env, a ≠ .tryPublish env) (hs : s.stream.bus.step ops a = some b) :
    b.TakesTurns s.minted id ∧ InSequence (b.replayCache.perStream id) ∧
      (s.stream.active = true → InSequence (b.mpsc s.stream.sub).enqueued ∧
        ((∀ x, s.stream.phase ≠ .subscribed x) →
          ∀ e ∈ s.ringAtRead, ∀ e' ∈ (b.mpsc s.stream.sub).enqueued,
            e'.eventId ∉ s.ringAtRead.map (·.eventId) → e.sequence < e'.sequence)) := by
  -- the bus step is neither publish
  have hb := hinv.published
  have hpub := hb.bus_step ha ha' hs
  refine ⟨h.turns.bus_step hb ha ha' hs, h.turns.ring_step hb hpub.recordsOnce hs h.ring,
    fun hact => ?_⟩
  have hs' := hinv.showing hact
  have hfeeds := hs'.feeds.step hb.wellFormed hb.recordsOnce hpub.recordsOnce ha' hs
  -- at most one envelope was enqueued, and it is the latest of its stream
  rcases hs'.feeds.enqueued_cases hb.recordsOnce hs with heq | ⟨c, hc, hrun, heq⟩
  · rw [heq]
    exact ⟨h.queue hact, h.beyond hact⟩
  · have hmem : c.envelope ∈ s.stream.bus.published s.minted := mem_published_of_call hc
    have hid : c.envelope.streamId = id := by
      refine (published_of_enqueued hpub hfeeds hp c.envelope ?_).2
      rw [heq]
      exact List.mem_append_right _ List.mem_cons_self
    have hlatest := h.turns.calls c hc hrun hid
    rw [heq]
    refine ⟨(h.queue hact).concat fun e he => ?_, fun hphase e he e' he' hnew => ?_⟩
    · obtain ⟨hmem', hid'⟩ := published_of_enqueued hb hs'.feeds hp e he
      -- two envelopes of one stream: the later minted has the higher sequence
      refine hb.lt_of_latest hlatest hmem hid hmem' hid' ?_
      -- it is not the one in the queue already, which was enqueued once
      rintro rfl
      have honce := hfeeds.once.once.of_map
      rw [heq, List.nodup_append] at honce
      exact honce.2.2 _ he _ List.mem_cons_self rfl
    · rcases List.mem_append.mp he' with he' | he'
      · exact h.beyond hact hphase e he e' he' hnew
      · obtain rfl := List.mem_singleton.mp he'
        obtain ⟨hmem', hid'⟩ := hs'.ring e he
        refine hb.lt_of_latest hlatest hmem hid hmem' hid' ?_
        rintro rfl
        exact hnew (List.mem_map_of_mem he)

/-- What a poll does to the bus, and what it hands over last. -/
theorem polled_bus {t t' : EventsStream Json τ} {now : ℤ}
    (h : EventsStream.Polled ops rfc3339 now t t') : t'.sub = t.sub ∧
      (t'.bus = t.bus ∨ ∃ a, (∀ env, a ≠ .publish env) ∧ (∀ env, a ≠ .tryPublish env) ∧
        t.bus.step ops a = some t'.bus) ∧ (t'.active = false → t'.handed = t.handed) := by
  -- a poll moves the bus by one step, or not at all
  cases h with
  | skip ev b _ hr _ next =>
    subst next
    exact ⟨rfl, .inr ⟨.recv t.sub, by simp, by simp, by simp [Bus.step, hr]⟩, fun _ => rfl⟩
  | yield ev b line _ hr _ _ next =>
    subst next
    refine ⟨rfl, .inr ⟨.recv t.sub, by simp, by simp, by simp [Bus.step, hr]⟩, fun hact => ?_⟩
    simp [EventsStream.active] at hact
  | unsubscribe b _ hstep next =>
    subst next
    exact ⟨rfl, .inr ⟨.unsubscribe t.sub, by simp, by simp, hstep⟩, fun _ => rfl⟩
  | dropRx _ next =>
    subst next
    exact ⟨rfl, .inr ⟨.dropRx t.sub, by simp, by simp, rfl⟩, fun _ => rfl⟩
  | replay _ _ _ _ _ next =>
    subst next
    exact ⟨rfl, .inl rfl, fun hact => by simp [EventsStream.active] at hact⟩
  | read _ _ next | replayed _ next | quiet _ _ next | gap _ _ _ next | gone _ _ next
  | empty _ _ next | ended _ _ next =>
    subst next
    exact ⟨rfl, .inl rfl, fun _ => rfl⟩

omit [DecidableEq κ] in
/-- What was queued before the ring was read is in it, so nothing new is beyond it. -/
theorem beyond_of_readsQueued {x : Option StreamId} {now : ℤ}
    (hphase : s.stream.phase = .subscribed x) (hG : s.ReadsQueued (.stream (.poll now)))
    {ring : List (EventEnvelope Json)}
    (hring : s.stream.ring x = ring) : ∀ e ∈ ring, ∀ e' ∈ (s.stream.bus.mpsc s.stream.sub).enqueued,
      e'.eventId ∉ ring.map (·.eventId) → e.sequence < e'.sequence := by
  intro e _ e' he' hnew
  have hread : s.stream.toRead = ring := by simp only [EventsStream.toRead, hphase, hring]
  have hin := hG (by simp [reading, hphase]) e' he'
  rw [hread] at hin
  exact absurd hin hnew

/-- The stream moves by a poll. -/
theorem Ordered.poll (h : s.Ordered id) (hinv : SessionInv ops rfc3339 p id opts s)
    (hinv' : SessionInv ops rfc3339 p id opts s')
    (hp : ∀ e : EventEnvelope Json, e.Addressed → ops.Matches p e → e.streamId = id) {now : ℤ}
    (hG : s.ReadsQueued (.stream (.poll now)))
    (hs : step ops rfc3339 s (.stream (.poll now)) = some s') : s'.Ordered id := by
  simp only [step, may, if_true] at hs
  obtain ⟨t, ht, rfl⟩ := Option.map_eq_some_iff.mp hs
  have hpolled := EventsStream.polled_of_poll ht
  obtain ⟨hsub, hbus, hended⟩ := polled_bus hpolled
  -- every poll but the last ones finds the stream active
  have hact : s.stream.active = true := by
    unfold EventsStream.active
    cases hpolled <;> simp_all
  -- the bus after the poll, one step on or as it was
  have hmoved : t.bus.TakesTurns s.minted id ∧ InSequence (t.bus.replayCache.perStream id) ∧
      InSequence (t.bus.mpsc s.stream.sub).enqueued ∧
      ((∀ x, s.stream.phase ≠ .subscribed x) →
        ∀ e ∈ s.ringAtRead, ∀ e' ∈ (t.bus.mpsc s.stream.sub).enqueued,
          e'.eventId ∉ s.ringAtRead.map (·.eventId) → e.sequence < e'.sequence) := by
    rcases hbus with heq | ⟨a, ha, ha', hstep⟩
    · rw [heq]
      exact ⟨h.turns, h.ring, h.queue hact, h.beyond hact⟩
    · obtain ⟨hturns, hring, hlive⟩ := h.bus_step hinv hp ha ha' hstep
      exact ⟨hturns, hring, hlive hact⟩
  obtain ⟨hturns, hring, hqueue, hbeyond⟩ := hmoved
  have hhanded : t.active = false → InSequence t.handed := fun hact' => hended hact' ▸ h.handed
  by_cases hread : ∃ x, s.stream.phase = .subscribed x
  · -- this poll reads the ring, so the condition speaks of it
    obtain ⟨x, hx⟩ := hread
    obtain rfl := (hinv.showing hact).replayStreamId x hx
    have hnote : s.noteRead (.poll now) = s.stream.bus.replayCache.perStream id := by
      simp [noteRead, hx]
    have hsame : t.bus = s.stream.bus := by
      simp only [EventsStream.step, EventsStream.poll, hx] at ht
      obtain rfl := Option.some.inj ht
      rfl
    refine .of_showing hinv' hturns hring (hnote ▸ h.ring) (fun _ => hsub ▸ hqueue)
      (fun _ _ => ?_) hhanded
    show ∀ e ∈ s.noteRead (.poll now), ∀ e' ∈ (t.bus.mpsc t.sub).enqueued, _
    rw [hnote, hsub, hsame]
    exact beyond_of_readsQueued hx hG (hinv.published.eventsAfter_zero id)
  · -- the ring was read before
    have hlater : ∀ x, s.stream.phase ≠ .subscribed x := fun x hx => hread ⟨x, hx⟩
    have hnote : s.noteRead (.poll now) = s.ringAtRead := by
      simp only [noteRead]
      split
      · rename_i x hx
        exact absurd hx (hlater _)
      · rfl
    refine .of_showing hinv' hturns hring (hnote ▸ h.ringAtRead) (fun _ => hsub ▸ hqueue)
      (fun _ _ => ?_) hhanded
    show ∀ e ∈ s.noteRead (.poll now), ∀ e' ∈ (t.bus.mpsc t.sub).enqueued, _
    rw [hnote, hsub]
    exact hbeyond hlater

/-- **One step keeps the order** if publishes take turns and the ring still has what is queued when
it is read. -/
theorem Ordered.step (h : s.Ordered id) (hinv : SessionInv ops rfc3339 p id opts s)
    (hinv' : SessionInv ops rfc3339 p id opts s')
    (hp : ∀ e : EventEnvelope Json, e.Addressed → ops.Matches p e → e.streamId = id)
    (ha : Serves p opts id a) (hturn : s.InTurn id a) (hG : s.ReadsQueued a)
    (hs : ReplaySession.step ops rfc3339 s a = some s') : s'.Ordered id := by
  have hb := hinv.published
  -- the mint is in turn; the other actions mint nothing
  cases a with
  | mint plan ctx now =>
    obtain rfl := Option.some.inj hs
    have hturns := h.turns.mint hb plan ctx now (s.stream.bus.registry.insert
      (s.sequences.allocate plan.streamId).2.eventId plan.streamId) hturn
    exact .of_showing hinv' hturns h.ring h.ringAtRead h.queue h.beyond fun _ => h.handed
  | publish n =>
    simp only [ReplaySession.step] at hs
    split at hs
    · cases hs
    · rename_i env hn
      obtain ⟨t, ht, rfl⟩ := Option.map_eq_some_iff.mp hs
      obtain ⟨-, b, hstep, rfl⟩ := EventsStream.step_bus ht
      have hturns := h.turns.publish hn hstep
      obtain rfl := Option.some.inj hstep
      exact .of_showing hinv' hturns h.ring h.ringAtRead h.queue h.beyond fun _ => h.handed
  | stream a =>
    cases a with
    | bus a =>
      simp only [ReplaySession.step] at hs
      split at hs
      · rename_i hmay
        obtain ⟨t, ht, rfl⟩ := Option.map_eq_some_iff.mp hs
        obtain ⟨-, b, hstep, rfl⟩ := EventsStream.step_bus ht
        obtain ⟨hpublish, htry⟩ := not_publish_of_may hmay
        obtain ⟨hturns, hring, hlive⟩ := h.bus_step hinv hp hpublish htry hstep
        exact .of_showing hinv' hturns hring h.ringAtRead (fun hact => (hlive hact).1)
          (fun hact => (hlive hact).2) fun _ => h.handed
      · cases hs
    | subscribe topic capacity policy x =>
      simp only [ReplaySession.step, may, if_true] at hs
      obtain ⟨t, ht, rfl⟩ := Option.map_eq_some_iff.mp hs
      obtain ⟨-, opts', b, -, hstep, hnext⟩ := EventsStream.step_subscribe ht
      obtain ⟨hturns, hring, -⟩ := h.bus_step hinv hp (by simp) (by simp) hstep
      -- a new subscription has an empty queue and has read nothing
      rcases hnext with ⟨hcreated, rfl⟩ | rfl
      · have hnone := (Bus.feeds_subscribe hb.wellFormed hb.fresh hstep hcreated).2
        refine .of_showing hinv' hturns hring h.ringAtRead (fun _ => ?_) (fun _ hphase => ?_)
          fun _ => h.handed
        · show InSequence (b.mpsc s.stream.bus.nextId).enqueued
          rw [hnone]
          exact List.Pairwise.nil
        · exact absurd rfl (hphase x)
      · exact .of_showing hinv' hturns hring h.ringAtRead (fun hact => by cases hact)
          (fun hact => by cases hact) fun _ => h.handed
    | poll now => exact h.poll hinv hinv' hp hG hs
    | disconnect =>
      simp only [ReplaySession.step, may, if_true] at hs
      obtain ⟨t, ht, rfl⟩ := Option.map_eq_some_iff.mp hs
      -- the body is dropped after its first poll, or before any
      obtain ⟨hact, hread, -, phase, -, rfl⟩ := EventsStream.step_disconnect ht
      exact .of_showing hinv' h.turns h.ring h.ringAtRead (fun _ => h.queue hact)
        (fun _ _ => h.beyond hact hread) fun _ => h.handed

/-! ### Exactly once -/

/-- The stream is exactly once: its event lines are those of what was handed over, none of it twice.
When the loop has emptied its queue and no publish is in flight, what the ring had and what was
fanned out since the subscribe has been handed over. -/
structure ExactlyOnce (ops : BusOps Json τ κ) (rfc3339 : OffsetDateTime → Option String) (p : τ)
    (s : ReplaySession τ) : Prop where
  lines : s.stream.body.filter NdjsonLine.isEvent =
    s.stream.handed.filterMap (ndjsonEventLine rfc3339)
  once : (s.stream.handed.map (·.eventId)).Nodup
  complete : s.draining = true → (s.stream.bus.mpsc s.stream.sub).buf = [] → s.stream.bus.Idle →
    ∀ e, e ∈ s.ringAtRead ∨ e ∈ s.offered ∧ ops.Matches p e → e ∈ s.stream.handed

/-- **The invariant is enough.** -/
theorem SessionInv.exactlyOnce (h : SessionInv ops rfc3339 p id opts s)
    (hp : ∀ e : EventEnvelope Json, e.Addressed → ops.Matches p e → e.streamId = id) :
    ExactlyOnce ops rfc3339 p s := by
  -- what is left is completeness: everything offered that matches was handed
  refine ⟨h.lines, h.handedOnce, fun hdrain hempty hidle e he => ?_⟩
  have hb := h.published
  have hl : s.listening = true := by
    unfold ReplaySession.draining at hdrain
    unfold listening
    split at hdrain <;> simp_all
  have hs := h.showing (active_of_listening hl)
  obtain ⟨shown, hshows⟩ := hs.shows
  -- the ring is shown whole once the stream drains
  have hwhole : shown = s.ringAtRead := hshows.draining hdrain
  rw [hshows.handed, hwhole]
  rcases he with hring | ⟨hoffered, hmatch⟩
  · exact mem_splice.mpr (.inl hring)
  · -- an idle bus with an empty queue has handed over all it enqueued
    have henq := (hs.feedsAll hl).enqueued_of_idle hb.recordsOnce hidle hoffered hmatch
    have hreceived : e ∈ s.received := by
      rw [Mpsc.enqueued, hempty, List.append_nil] at henq
      exact henq
    obtain ⟨hmem, hid⟩ := published_of_enqueued hb hs.feeds hp e henq
    -- unless it was shown already
    refine mem_splice_of_mem_live hreceived fun e' he' heq => ?_
    obtain ⟨hmem', hid'⟩ := hs.ring e' he'
    exact hb.eq_of_eventId hmem' hmem (hid'.trans hid.symm) heq

/-- The invariant holds before the request. -/
theorem sessionInv_init (ops : BusOps Json τ κ) (rfc3339 : OffsetDateTime → Option String)
    (replayCapacity : ℕ) (p : τ) (id : StreamId) (opts : SubscribeOpts) :
    SessionInv ops rfc3339 p id opts (machine ops rfc3339 replayCapacity).init where
  published := published_init ops replayCapacity
  idle _ := ⟨rfl, rfl, rfl, rfl⟩
  lines := rfl
  handedOnce := List.nodup_nil
  showing hact := by cases hact

theorem ordered_init (ops : BusOps Json τ κ) (rfc3339 : OffsetDateTime → Option String)
    (replayCapacity : ℕ) (id : StreamId) :
    Ordered id (machine ops rfc3339 replayCapacity).init where
  turns := ⟨fun e he => absurd he List.not_mem_nil, fun c hc => absurd hc List.not_mem_nil⟩
  ring := List.Pairwise.nil
  ringAtRead := List.Pairwise.nil
  queue hact := by cases hact
  beyond hact := by cases hact
  handed := List.Pairwise.nil

end Order

end ReplaySession

namespace EventsRequest

variable {ρ κ : Type} [DecidableEq κ]

/-- Four texts joined by slashes have four parts only if none of them has a slash. -/
theorem address_of_split {node kind resource stream node' kind' resource' stream' : String}
    (h : Str.split '/' (node ++ "/" ++ kind ++ "/" ++ resource ++ "/" ++ stream) =
      [node', kind', resource', stream']) :
    node = node' ∧ kind = kind' ∧ resource = resource' ∧ stream = stream' := by
  rw [split_address] at h
  have hlen := congrArg List.length h
  have hpos : ∀ s : String, 0 < (Str.split '/' s).length := fun s =>
    List.length_pos_iff.mpr (Str.split_ne_nil '/' s)
  have hn := hpos node
  have hk := hpos kind
  have hr := hpos resource
  have hs := hpos stream
  simp only [List.length_append, List.length_cons, List.length_nil] at hlen
  have hparts : Str.split '/' node ++ Str.split '/' kind ++ Str.split '/' resource ++
      Str.split '/' stream = [node'] ++ [kind'] ++ [resource'] ++ [stream'] := h
  obtain ⟨hparts, hstream⟩ := List.append_inj' hparts (by simp; omega)
  obtain ⟨hparts, hresource⟩ := List.append_inj' hparts (by simp; omega)
  obtain ⟨hnode, hkind⟩ := List.append_inj' hparts (by simp; omega)
  exact ⟨(Str.split_eq_singleton_iff.mp hnode).1, (Str.split_eq_singleton_iff.mp hkind).1,
    (Str.split_eq_singleton_iff.mp hresource).1, (Str.split_eq_singleton_iff.mp hstream).1⟩

omit [DecidableEq κ] in
/-- **A concrete topic names one stream**: what an accepted request for a replay matches is on the
stream that it replays. -/
theorem streamId_of_matches {ops : TopicOps ρ} {q : EventsQuery} {req : EventsRequest ρ}
    (extractKey : EventEnvelope Json → FieldPath → Option κ)
    (serializedSize : EventEnvelope Json → ℕ) (hreplay : q.replay = true)
    (h : serverEventsStream ops q = .ok req) :
    ∃ id, req.replayStreamId = some id ∧ ∀ e : EventEnvelope Json, e.Addressed →
      (TopicPattern.busOps ops extractKey serializedSize).Matches req.pattern e →
        e.streamId = id := by
  obtain ⟨-, -, node, kind, resource, stream, hsegs, hid⟩ := replay_of_accepted hreplay h
  refine ⟨_, hid, fun e he hmatch => ?_⟩
  have htopic : req.pattern.matchesTopic ops e.topic = true := (Bool.and_eq_true_iff.mp hmatch).1
  unfold TopicPattern.matchesTopic at htopic
  rw [hsegs, TopicPattern.matchesAt_literals] at htopic
  obtain ⟨hnode, -, hresource, hstream⟩ := address_of_split htopic
  rw [he.streamId, ← hnode, ← hresource, ← hstream]

/-- **Replay, then live, is exactly once.**  In every run of an accepted request for a replay with
the policy `disconnect` or `backpressure` in which the queue does not overflow, no publish is
dropped that owes the stream its envelope and no counter wraps around, nothing is shown twice, and
what was in the ring at the read or was fanned out after the subscribe is shown once the queue is
empty and no publish is in flight.  If publishes on the stream take turns and the ring still has
what is queued when it is read, the lines are in the order of the sequence numbers. -/
theorem replay_then_live (ops : TopicOps ρ) (extractKey : EventEnvelope Json → FieldPath → Option κ)
    (serializedSize : EventEnvelope Json → ℕ) (rfc3339 : OffsetDateTime → Option String)
    (replayCapacity : ℕ) (q : EventsQuery) (req : EventsRequest ρ) (hreplay : q.replay = true)
    (h : serverEventsStream ops q = .ok req)
    (hpol : req.opts.slowConsumerPolicy = .disconnect ∨
      req.opts.slowConsumerPolicy = .backpressure)
    (as : List (SessionAction (TopicPattern ρ))) (has : ∀ a, .stream a ∈ as → req.Serves a) :
    let bus := TopicPattern.busOps ops extractKey serializedSize
    let M := ReplaySession.machine bus rfc3339 replayCapacity
    M.StepsMeet ReplaySession.Undisturbed M.init as →
      M.StatesMeet (ReplaySession.ExactlyOnce bus rfc3339 req.pattern) M.init as ∧
      ∀ id ∈ req.replayStreamId,
        M.StepsMeet (ReplaySession.InTurn id) M.init as →
        M.StepsMeet ReplaySession.ReadsQueued M.init as →
          M.StatesMeet (fun s => InSequence s.stream.handed) M.init as := by
  intro bus M hG
  obtain ⟨-, hlimit, -⟩ := replay_of_accepted hreplay h
  obtain ⟨id, hid, hp⟩ := streamId_of_matches extractKey serializedSize hreplay h
  -- the two policies that keep every envelope and use a queue
  have hmpsc : req.opts.slowConsumerPolicy.isMpsc = true := by
    rcases hpol with hpol | hpol <;> rw [hpol] <;> rfl
  have hkeeps : req.opts.slowConsumerPolicy ≠ .dropNewest := by
    rcases hpol with hpol | hpol <;> rw [hpol] <;> simp
  -- what the request subscribes to is what the session serves
  have hserves : ∀ a ∈ as, ReplaySession.Serves req.pattern req.opts id a := by
    rintro a ha topic capacity policy x rfl
    have hsub := has _ ha topic capacity policy x rfl
    obtain ⟨htopic, hcapacity, hpolicy, hx⟩ := StreamAction.subscribe.inj hsub
    exact ⟨htopic, hcapacity, hpolicy, hx.trans hid⟩
  have hrun : M.StepsMeet (fun s a => ReplaySession.Serves req.pattern req.opts id a ∧
      s.Undisturbed a) M.init as :=
    (Machine.StepsMeet.of_forall_mem fun a ha _ => hserves a ha).and hG
  -- at the start nothing is shown and nothing is owed
  have hinit := ReplaySession.sessionInv_init bus rfc3339 replayCapacity req.pattern id req.opts
  constructor
  · have hinv : M.StatesMeet (ReplaySession.SessionInv bus rfc3339 req.pattern id req.opts)
        M.init as :=
      Machine.statesMeet_of_stepsMeet (fun s a t hs hG ht =>
        hs.step hlimit hmpsc hkeeps hp hG.1 hG.2 ht) hinit hrun
    exact hinv.mono fun s hs => hs.exactlyOnce hp
  · -- for the order, the turns and the read come in as further conditions
    intro id' hid' hturn hread
    obtain rfl := Option.some.inj (hid.symm.trans hid')
    have hord : M.StatesMeet (fun s =>
        ReplaySession.SessionInv bus rfc3339 req.pattern id req.opts s ∧ s.Ordered id) M.init as :=
      Machine.statesMeet_of_stepsMeet (fun s a t hs hG ht => by
        obtain ⟨⟨hserve, hun⟩, hturn, hread⟩ := hG
        have hinv' := hs.1.step hlimit hmpsc hkeeps hp hserve hun ht
        exact ⟨hinv', hs.2.step hs.1 hinv' hp hserve hturn hread ht⟩)
        ⟨hinit, ReplaySession.ordered_init bus rfc3339 replayCapacity id⟩
        (hrun.and (hturn.and hread))
    exact hord.mono fun s hs => hs.2.handed

/-! ### Three runs -/

/-- The sessions of a server whose ring has the capacity `n`. -/
abbrev jsonSession (n : ℕ) : Machine (ReplaySession (TopicPattern Empty))
    (SessionAction (TopicPattern Empty)) :=
  ReplaySession.machine jsonBus (fun _ => none) n

/-- The request for the events of a job, from the first. -/
def jobQuery : EventsQuery where
  topic := some "hub/job/job-1/progress"
  replay := true

/-- The next event of the job: the call `k` takes `before` steps to its loop, visits the
subscriptions, and takes `after` steps more. -/
def publishing (k before : ℕ) (visits : List SubscriptionId) (after : ℕ) :
    List (SessionAction (TopicPattern Empty)) :=
  [.mint ⟨⟨"hub"⟩, "job-1", "job", "progress", "progress", 1, .null⟩ {} {}, .publish 0] ++
    List.replicate before (.stream (.bus (.advance k))) ++
    visits.map (fun i => .stream (.bus (.visit k i))) ++
    List.replicate after (.stream (.bus (.advance k)))

def polls (n : ℕ) : List (SessionAction (TopicPattern Empty)) :=
  List.replicate n (.stream (.poll 0))

/-- A run that serves the request and passes a check. -/
theorem served_of_check {n : ℕ}
    (run : EventsRequest Empty → List (SessionAction (TopicPattern Empty)))
    (check : EventsRequest Empty → ReplaySession (TopicPattern Empty) → Bool)
    (h : (match serverEventsStream .plain jobQuery with
      | .ok req => ((jsonSession n).run (jsonSession n).init (run req)).any (check req)
      | .error _ => false) = true) :
    ∃ req s, serverEventsStream .plain jobQuery = .ok req ∧
      (jsonSession n).run (jsonSession n).init (run req) = some s ∧ check req s = true := by
  obtain ⟨req, hreq, hrun⟩ := accepted_of_check jobQuery
    (fun req => ((jsonSession n).run (jsonSession n).init (run req)).any (check req)) h
  obtain ⟨s, hs, hcheck⟩ := (Option.any_eq_true _ _).mp hrun
  exact ⟨req, s, hreq, hs, hcheck⟩

/-- One event before the subscribe, one between it and the read, and one after the read. -/
def threeEvents (req : EventsRequest Empty) : List (SessionAction (TopicPattern Empty)) :=
  publishing 0 3 [] 1 ++ [.stream req.subscribe] ++ publishing 1 3 [1] 3 ++ polls 4 ++
    publishing 2 3 [1] 3 ++ polls 4

theorem serves_threeEvents (req : EventsRequest Empty) :
    ∀ a, .stream a ∈ threeEvents req → req.Serves a := by
  rintro a ha topic capacity policy id rfl
  simpa [threeEvents, publishing, polls] using ha

/-- One event before the request, two after it: the client reads all three, in order and once. -/
theorem replay_then_live_threeEvents : ∃ (req : EventsRequest Empty)
    (s : ReplaySession (TopicPattern Empty)), serverEventsStream .plain jobQuery = .ok req ∧
    (jsonSession 10).run (jsonSession 10).init (threeEvents req) = some s ∧
    s.stream.handed.map (·.sequence) = [1, 2, 3] ∧
    (jsonSession 10).StatesMeet (ReplaySession.ExactlyOnce jsonBus (fun _ => none) req.pattern)
      (jsonSession 10).init (threeEvents req) ∧
    (jsonSession 10).StatesMeet (fun s => InSequence s.stream.handed) (jsonSession 10).init
      (threeEvents req) := by
  -- the checks of the run are evaluated as one
  obtain ⟨req, s, hreq, hrun, hcheck⟩ := served_of_check (n := 10) threeEvents
    (fun req s => decide (s.stream.handed.map (·.sequence) = [1, 2, 3] ∧
      req.opts.slowConsumerPolicy = .disconnect ∧
      req.replayStreamId = some (.forResource ⟨"hub"⟩ "job-1" "progress") ∧
      (jsonSession 10).StepsMeet ReplaySession.Undisturbed (jsonSession 10).init (threeEvents req) ∧
      (jsonSession 10).StepsMeet
        (ReplaySession.InTurn (.forResource ⟨"hub"⟩ "job-1" "progress")) (jsonSession 10).init
        (threeEvents req) ∧
      (jsonSession 10).StepsMeet ReplaySession.ReadsQueued (jsonSession 10).init
        (threeEvents req)))
    (by decide +kernel)
  rw [decide_eq_true_eq] at hcheck
  obtain ⟨hseq, hpol, hid, hG, hturn, hread⟩ := hcheck
  obtain ⟨honce, horder⟩ := replay_then_live .plain (fun _ _ => none) (fun _ => 0) (fun _ => none)
    10 jobQuery req rfl hreq (.inl hpol) (threeEvents req) (serves_threeEvents req) hG
  exact ⟨req, s, hreq, hrun, hseq, honce, horder _ hid hturn hread⟩

/-- Two events between the subscribe and the read, on a ring of one: the second takes the place of
the first. -/
def overtaken (req : EventsRequest Empty) : List (SessionAction (TopicPattern Empty)) :=
  [.stream req.subscribe] ++ publishing 0 3 [1] 3 ++ publishing 1 4 [1] 3 ++ polls 5

theorem serves_overtaken (req : EventsRequest Empty) :
    ∀ a, .stream a ∈ overtaken req → req.Serves a := by
  rintro a ha topic capacity policy id rfl
  simpa [overtaken, publishing, polls] using ha

/-- Another subscriber has a queue of one.  The second publish waits for it, and its future is
dropped before it comes to the stream. -/
def abandoned (req : EventsRequest Empty) : List (SessionAction (TopicPattern Empty)) :=
  [.stream (.bus (.subscribe ⟨[.multiWild], none, "**"⟩
      { outboundCapacity := some 1, slowConsumerPolicy := .backpressure })),
    .stream req.subscribe] ++ polls 2 ++ publishing 0 3 [1, 2] 5 ++ publishing 1 3 [1, 2] 2 ++
    [.stream (.bus (.cancel 1))] ++ List.replicate 3 (.stream (.bus (.advance 1))) ++ polls 4

theorem serves_abandoned (req : EventsRequest Empty) :
    ∀ a, .stream a ∈ abandoned req → req.Serves a := by
  rintro a ha topic capacity policy id rfl
  simpa [abandoned, publishing, polls] using ha

/-- **The order is not the order of the sequence numbers, and an abandoned publish is missed**, also
when no queue of the stream overflows.  Publishes take turns in both runs. -/
theorem replay_out_of_order :
    (∃ (req : EventsRequest Empty) (s : ReplaySession (TopicPattern Empty)),
      serverEventsStream .plain jobQuery = .ok req ∧
      (∀ a, .stream a ∈ overtaken req → req.Serves a) ∧
      (jsonSession 1).run (jsonSession 1).init (overtaken req) = some s ∧
      (jsonSession 1).StepsMeet ReplaySession.Undisturbed (jsonSession 1).init (overtaken req) ∧
      (jsonSession 1).StepsMeet
        (ReplaySession.InTurn (.forResource ⟨"hub"⟩ "job-1" "progress")) (jsonSession 1).init
        (overtaken req) ∧
      s.stream.handed.map (·.sequence) = [2, 1]) ∧
    ∃ (req : EventsRequest Empty) (s : ReplaySession (TopicPattern Empty)),
      serverEventsStream .plain jobQuery = .ok req ∧
      (∀ a, .stream a ∈ abandoned req → req.Serves a) ∧
      (jsonSession 10).run (jsonSession 10).init (abandoned req) = some s ∧
      (jsonSession 10).StepsMeet
        (ReplaySession.InTurn (.forResource ⟨"hub"⟩ "job-1" "progress")) (jsonSession 10).init
        (abandoned req) ∧
      s.stream.bus.notify s.stream.sub = .pending ∧ s.draining = true ∧
      (s.stream.bus.mpsc s.stream.sub).buf = [] ∧ s.stream.bus.Idle ∧
      s.offered.map (·.sequence) = [1, 2] ∧ (∀ e ∈ s.offered, jsonBus.Matches req.pattern e) ∧
      s.stream.handed.map (·.sequence) = [1] := by
  constructor
  · -- the second envelope is recorded before the first, in a ring of one
    obtain ⟨req, s, hreq, hrun, hcheck⟩ := served_of_check (n := 1) overtaken
      (fun req s => decide (
        (jsonSession 1).StepsMeet ReplaySession.Undisturbed (jsonSession 1).init (overtaken req) ∧
        (jsonSession 1).StepsMeet
          (ReplaySession.InTurn (.forResource ⟨"hub"⟩ "job-1" "progress")) (jsonSession 1).init
          (overtaken req) ∧ s.stream.handed.map (·.sequence) = [2, 1]))
      (by decide +kernel)
    rw [decide_eq_true_eq] at hcheck
    exact ⟨req, s, hreq, serves_overtaken req, hrun, hcheck⟩
  · -- the body is dropped with one envelope still in the ring
    obtain ⟨req, s, hreq, hrun, hcheck⟩ := served_of_check (n := 10) abandoned
      (fun req s => decide (
        (jsonSession 10).StepsMeet
          (ReplaySession.InTurn (.forResource ⟨"hub"⟩ "job-1" "progress")) (jsonSession 10).init
          (abandoned req) ∧
        s.stream.bus.notify s.stream.sub = .pending ∧ s.draining = true ∧
        (s.stream.bus.mpsc s.stream.sub).buf = [] ∧
        (∀ c ∈ s.stream.bus.calls, c.phase.ended = true) ∧
        s.offered.map (·.sequence) = [1, 2] ∧
        (∀ e ∈ s.offered, jsonBus.matchesEvent req.pattern e.topic e.data = true) ∧
        s.stream.handed.map (·.sequence) = [1]))
      (by decide +kernel)
    rw [decide_eq_true_eq] at hcheck
    exact ⟨req, s, hreq, serves_abandoned req, hrun, hcheck⟩

end EventsRequest

end Boardwalk
