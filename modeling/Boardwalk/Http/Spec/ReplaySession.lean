import Boardwalk.Http.ReplaySession
import Boardwalk.Http.Spec.Replay
import Boardwalk.Lib.Splice
import Boardwalk.Runtime.Spec.Publisher

/-!
# Replay, then live

What a stream with a replay has shown is the ring it read, spliced with what came on its queue
(`Shows`).
-/

namespace Boardwalk

open Splice

/-- The line of an envelope. -/
def NdjsonLine.isEvent {δ : Type} : NdjsonLine δ → Bool
  | .event .. => true
  | .streamGap .. => false

namespace ReplaySession

variable {τ κ : Type}

/-! ### What is shown -/

/-- What the stream has taken from its queue. -/
def received (s : ReplaySession τ) : List (EventEnvelope Json) :=
  (s.stream.bus.mpsc s.stream.sub).received

/-- The loop of the body runs. -/
def draining (s : ReplaySession τ) : Bool :=
  match s.stream.phase with
  | .notice | .recv => true
  | _ => false

/-- The stream has subscribed, and has not unsubscribed. -/
def listening (s : ReplaySession τ) : Bool :=
  match s.stream.phase with
  | .idle | .dropping | .done => false
  | _ => true

/-- Of the ring, `shown` was shown, and then what came on the queue and was not in it. -/
structure Shows (s : ReplaySession τ) (shown : List (EventEnvelope Json)) : Prop where
  ring : shown <+: s.ringAtRead
  handed : s.stream.handed = splice (·.eventId) shown s.received
  seen : ∀ id, id ∈ s.stream.replayedEventIds ↔ Outstanding (·.eventId) shown s.received id
  seenOnce : s.stream.replayedEventIds.Nodup
  whole : shown = s.ringAtRead ∨ s.received = []
  subscribed : ∀ id, s.stream.phase = .subscribed id → s.received = [] ∧ s.ringAtRead = []
  replaying : ∀ rest, s.stream.phase = .replaying rest →
    s.received = [] ∧ shown ++ rest = s.ringAtRead
  draining : s.draining = true → shown = s.ringAtRead

/-- A live stream on the pattern `p`, of which `id` is the stream to replay. -/
structure Showing (ops : BusOps Json τ κ) (p : τ) (id : StreamId) (opts : SubscribeOpts)
    (s : ReplaySession τ) : Prop where
  feeds : s.stream.bus.Feeds ops s.stream.sub p opts
  feedsAll : s.listening = true → s.stream.bus.FeedsAll ops s.stream.sub p s.offered
  replayStreamId : ∀ x, s.stream.phase = .subscribed x → x = some id
  ring : ∀ e ∈ s.ringAtRead, e ∈ s.stream.bus.published s.minted ∧ e.streamId = id
  ringOnce : s.ringAtRead.Nodup
  shows : ∃ shown, s.Shows shown

section Steps

variable {s s' : ReplaySession τ} {ops : BusOps Json τ κ} {p : τ} {id : StreamId}
  {opts : SubscribeOpts} {rfc3339 : OffsetDateTime → Option String} {t : EventsStream Json τ}
  {shown : List (EventEnvelope Json)}

/-- What is queued was published on the stream to replay. -/
theorem published_of_enqueued {b : Bus Json τ} {sequences : StreamSequences}
    {minted : List (EventEnvelope Json)} {i : SubscriptionId} (hb : Published sequences minted b)
    (h : b.Feeds ops i p opts)
    (hp : ∀ e : EventEnvelope Json, e.Addressed → ops.Matches p e → e.streamId = id) :
    ∀ e ∈ (b.mpsc i).enqueued, e ∈ b.published minted ∧ e.streamId = id := by
  intro e he
  obtain ⟨c, hc, rfl, -⟩ := h.once.source e he
  have hmem : c.envelope ∈ b.published minted := mem_published_of_call hc
  exact ⟨hmem, hp _ (hb.addressed _ hmem) (h.onTopic.enqueued _ he)⟩

/-- Distinct envelopes of one stream have distinct ids. -/
theorem nodup_eventIds {b : Bus Json τ} {sequences : StreamSequences}
    {minted l : List (EventEnvelope Json)} (hb : Published sequences minted b)
    (hl : ∀ e ∈ l, e ∈ b.published minted ∧ e.streamId = id) (hnodup : l.Nodup) :
    (l.map (·.eventId)).Nodup := by
  refine hnodup.map_on fun x hx y hy heq => ?_
  exact hb.eq_of_eventId (hl x hx).1 (hl y hy).1 ((hl x hx).2.trans (hl y hy).2.symm) heq

/-- The ids of the queue are distinct. -/
theorem nodup_enqueued {b : Bus Json τ} {sequences : StreamSequences}
    {minted : List (EventEnvelope Json)} {i : SubscriptionId} (hb : Published sequences minted b)
    (h : b.Feeds ops i p opts)
    (hp : ∀ e : EventEnvelope Json, e.Addressed → ops.Matches p e → e.streamId = id) :
    ((b.mpsc i).enqueued.map (·.eventId)).Nodup :=
  nodup_eventIds hb (published_of_enqueued hb h hp) h.once.once.of_map

/-- The next envelope is taken from the queue: it is skipped if it was shown, and else shown. -/
theorem Shows.recv {ev : EventEnvelope Json} (h : s.Shows shown) (hphase : s.stream.phase = .recv)
    (hbus : s'.received = s.received ++ [ev]) (hring : s'.ringAtRead = s.ringAtRead)
    (hnodup : (s'.received.map (·.eventId)).Nodup) (hphase' : s'.stream.phase = .notice)
    (hskip : ev.eventId ∈ s.stream.replayedEventIds → s'.stream.handed = s.stream.handed ∧
      s'.stream.replayedEventIds = s.stream.replayedEventIds.erase ev.eventId)
    (hyield : ev.eventId ∉ s.stream.replayedEventIds →
      s'.stream.handed = s.stream.handed ++ [ev] ∧
      s'.stream.replayedEventIds = s.stream.replayedEventIds) : s'.Shows shown := by
  rw [hbus] at hnodup
  -- live envelopes come once all of the ring is shown
  have hwhole : shown = s.ringAtRead := h.draining (by simp [ReplaySession.draining, hphase])
  have hkey : Outstanding (·.eventId) shown s.received ev.eventId ↔
      ev.eventId ∈ shown.map (·.eventId) := outstanding_key_iff hnodup
  -- an id is remembered while its envelope is shown and not yet received
  have hmem : ev.eventId ∈ s.stream.replayedEventIds ↔
      ev.eventId ∈ shown.map (·.eventId) := (h.seen ev.eventId).trans hkey
  -- a remembered id is skipped and forgotten; another one is handed over
  by_cases hseen : ev.eventId ∈ s.stream.replayedEventIds
  · obtain ⟨hhanded, hids⟩ := hskip hseen
    refine ⟨hring ▸ h.ring, ?_, fun x => ?_, ?_, .inl (hring ▸ hwhole), by simp [hphase'],
      by simp [hphase'], fun _ => hring ▸ hwhole⟩
    · rw [hhanded, h.handed, hbus, splice_concat_of_mem (hmem.mp hseen)]
    · rw [hids, hbus, outstanding_concat_iff, ← h.seen, h.seenOnce.mem_erase_iff]
      exact and_comm
    · rw [hids]
      exact h.seenOnce.erase _
  · obtain ⟨hhanded, hids⟩ := hyield hseen
    refine ⟨hring ▸ h.ring, ?_, fun x => ?_, hids ▸ h.seenOnce, .inl (hring ▸ hwhole),
      by simp [hphase'], by simp [hphase'], fun _ => hring ▸ hwhole⟩
    · rw [hhanded, h.handed, hbus, splice_concat_of_notMem fun hin => hseen (hmem.mpr hin)]
    · rw [hids, hbus, outstanding_concat_iff, ← h.seen]
      exact ⟨fun hx => ⟨hx, fun heq => hseen (heq ▸ hx)⟩, And.left⟩

/-- A later phase, in which nothing is read or shown. -/
theorem Shows.phase (h : s.Shows shown) (hrecv : s'.received = s.received)
    (hring : s'.ringAtRead = s.ringAtRead) (hhanded : s'.stream.handed = s.stream.handed)
    (hids : s'.stream.replayedEventIds = s.stream.replayedEventIds)
    (hphase : (∀ x, s'.stream.phase ≠ .subscribed x) ∧ ∀ rest, s'.stream.phase ≠ .replaying rest)
    (hdrain : s'.draining = true → shown = s.ringAtRead) : s'.Shows shown where
  ring := hring ▸ h.ring
  handed := by rw [hhanded, hrecv]; exact h.handed
  seen x := by rw [hids, hrecv]; exact h.seen x
  seenOnce := hids ▸ h.seenOnce
  whole := by rw [hring, hrecv]; exact h.whole
  subscribed x hx := absurd hx (hphase.1 x)
  replaying rest hx := absurd hx (hphase.2 rest)
  draining hd := hring ▸ hdrain hd

/-- The ring is read. -/
theorem Shows.read (h : s.Shows shown) {x : Option StreamId}
    (hphase : s.stream.phase = .subscribed x) (hrecv : s'.received = s.received)
    (hhanded : s'.stream.handed = s.stream.handed)
    (hids : s'.stream.replayedEventIds = s.stream.replayedEventIds)
    (hphase' : s'.stream.phase = .replaying s'.ringAtRead) : s'.Shows [] := by
  obtain ⟨hnone, hring⟩ := h.subscribed x hphase
  have hshown : shown = [] := by
    have hpre := h.ring
    rw [hring] at hpre
    exact List.prefix_nil.mp hpre
  subst hshown
  refine ⟨List.nil_prefix, ?_, fun y => ?_, hids ▸ h.seenOnce, .inr (hrecv.trans hnone),
    by simp [hphase'], fun rest hrest => ?_, by simp [ReplaySession.draining, hphase']⟩
  · rw [hhanded, hrecv]; exact h.handed
  · rw [hids, hrecv]; exact h.seen y
  · rw [hphase'] at hrest
    cases hrest
    exact ⟨hrecv.trans hnone, rfl⟩

/-- An envelope of the ring is shown. -/
theorem Shows.replay (h : s.Shows shown) {ev : EventEnvelope Json}
    {rest : List (EventEnvelope Json)} (hphase : s.stream.phase = .replaying (ev :: rest))
    (hrecv : s'.received = s.received) (hring : s'.ringAtRead = s.ringAtRead)
    (hhanded : s'.stream.handed = s.stream.handed ++ [ev])
    (hids : s'.stream.replayedEventIds = s.stream.replayedEventIds.insert ev.eventId)
    (hphase' : s'.stream.phase = .replaying rest) : s'.Shows (shown ++ [ev]) := by
  -- while the ring is shown nothing has been received
  obtain ⟨hnone, hsplit⟩ := h.replaying _ hphase
  have hhanded₀ : s.stream.handed = shown := by rw [h.handed, hnone, splice_nil]
  have hsplit' : (shown ++ [ev]) ++ rest = s'.ringAtRead := by
    rw [hring, ← hsplit, List.append_assoc, List.singleton_append]
  have hnone' : s'.received = [] := hrecv.trans hnone
  refine ⟨⟨rest, hsplit'⟩, ?_, fun x => ?_, ?_, .inr hnone', by simp [hphase'],
    fun rest' hrest => ?_, by simp [ReplaySession.draining, hphase']⟩
  · rw [hhanded, hhanded₀, hnone', splice_nil]
  · have hseen := h.seen x
    rw [hnone] at hseen
    rw [hids, hnone', List.mem_insert_iff, hseen]
    simp [Outstanding, or_comm]
  · rw [hids]
    exact h.seenOnce.insert
  · rw [hphase'] at hrest
    cases hrest
    exact ⟨hnone', hsplit'⟩

end Steps

/-! ### The invariant of a session -/

/-- The invariant: the envelopes come from `publish_envelope`, the lines are those of what was
handed over, none of it twice, and a live stream shows what it should. -/
structure SessionInv [DecidableEq κ] (ops : BusOps Json τ κ)
    (rfc3339 : OffsetDateTime → Option String) (p : τ) (id : StreamId) (opts : SubscribeOpts)
    (s : ReplaySession τ) : Prop where
  published : Published s.sequences s.minted s.stream.bus
  idle : s.stream.phase = .idle → s.ringAtRead = [] ∧ s.offered = [] ∧ s.stream.handed = [] ∧
    s.stream.replayedEventIds = []
  lines : s.stream.body.filter NdjsonLine.isEvent =
    s.stream.handed.filterMap (ndjsonEventLine rfc3339)
  handedOnce : (s.stream.handed.map (·.eventId)).Nodup
  showing : s.stream.active = true → s.Showing ops p id opts

section Session

variable [DecidableEq κ] {s s' : ReplaySession τ} {ops : BusOps Json τ κ}
  {rfc3339 : OffsetDateTime → Option String} {p : τ} {id : StreamId} {opts : SubscribeOpts}

omit [DecidableEq κ] in
/-- **Nothing is handed over twice.** -/
theorem Showing.handedOnce (h : s.Showing ops p id opts)
    (hb : Published s.sequences s.minted s.stream.bus)
    (hp : ∀ e : EventEnvelope Json, e.Addressed → ops.Matches p e → e.streamId = id) :
    (s.stream.handed.map (·.eventId)).Nodup := by
  obtain ⟨shown, hshows⟩ := h.shows
  rw [hshows.handed]
  refine nodup_splice ?_ ?_
  · exact (nodup_eventIds hb h.ring h.ringOnce).sublist (hshows.ring.sublist.map _)
  · refine (nodup_enqueued hb h.feeds hp).sublist (List.Sublist.map _ ?_)
    exact List.sublist_append_left _ _

/-- The bus moves, and the stream does not. -/
theorem SessionInv.bus_move (h : SessionInv ops rfc3339 p id opts s) {b : Bus Json τ}
    {sequences : StreamSequences} {minted offered : List (EventEnvelope Json)}
    (hpub : Published sequences minted b)
    (hgrow : ∀ e ∈ s.stream.bus.published s.minted, e ∈ b.published minted)
    (hidle : s.stream.phase = .idle → offered = [])
    (hfeeds : s.Showing ops p id opts → b.Feeds ops s.stream.sub p opts)
    (hall : s.listening = true → s.Showing ops p id opts →
      b.FeedsAll ops s.stream.sub p offered)
    (hrecv : s.stream.active = true → s.Showing ops p id opts →
      (b.mpsc s.stream.sub).received = s.received) :
    SessionInv ops rfc3339 p id opts
      { s with stream := { s.stream with bus := b }, sequences, minted, offered } := by
  -- only the bus changes, so what is shown stays shown
  refine ⟨hpub, fun hi => ?_, h.lines, h.handedOnce, fun hact => ?_⟩
  · obtain ⟨hring, -, hhanded, hids⟩ := h.idle hi
    exact ⟨hring, hidle hi, hhanded, hids⟩
  · -- the queue gave nothing more, so the account of `shown` is as before
    have hs := h.showing hact
    obtain ⟨shown, hshows⟩ := hs.shows
    have hsame := hrecv hact hs
    refine ⟨hfeeds hs, fun hl => hall hl hs, hs.replayStreamId, fun e he => ?_, hs.ringOnce,
      shown, hshows.ring, ?_, fun x => ?_, hshows.seenOnce, ?_, fun x hx => ?_, fun rest hx => ?_,
      hshows.draining⟩
    · exact ⟨hgrow e (hs.ring e he).1, (hs.ring e he).2⟩
    · rw [received, hsame]; exact hshows.handed
    · rw [received, hsame]; exact hshows.seen x
    · rw [received, hsame]; exact hshows.whole
    · rw [received, hsame]; exact hshows.subscribed x hx
    · rw [received, hsame]; exact hshows.replaying rest hx

/-- A publisher takes a sequence number. -/
theorem SessionInv.mint (h : SessionInv ops rfc3339 p id opts s) {plan : EnvelopePlan}
    {ctx : EmissionContext} {now : OffsetDateTime}
    (hwrap : (s.sequences.nextSequence plan.streamId).toNat + 1 < 2 ^ 64)
    (hs : step ops rfc3339 s (.mint plan ctx now) = some s') :
    SessionInv ops rfc3339 p id opts s' := by
  obtain rfl := Option.some.inj hs
  refine h.bus_move (h.published.mint plan ctx now _ hwrap)
    (fun e he => mem_published_mint.mpr (.inl he)) (fun hi => (h.idle hi).2.1) (fun hs => ?_)
    (fun hl hs => ?_) fun _ _ => rfl
  · exact ⟨{ hs.feeds.onTopic with }, hs.feeds.opts, ⟨hs.feeds.once.source, hs.feeds.once.once⟩⟩
  · have hall := hs.feedsAll hl
    exact ⟨⟨hall.attached.entry, hall.attached.receiving, hall.attached.calls⟩, hall.owed⟩

theorem active_of_listening (h : s.listening = true) : s.stream.active = true := by
  unfold listening at h
  unfold EventsStream.active
  split at h <;> simp_all

/-- A step of the bus by another party. -/
theorem SessionInv.bus_step (h : SessionInv ops rfc3339 p id opts s)
    (hmpsc : opts.slowConsumerPolicy.isMpsc = true) (hpol : opts.slowConsumerPolicy ≠ .dropNewest)
    {a : BusAction Json τ} {b : Bus Json τ} {minted offered : List (EventEnvelope Json)}
    (hs : s.stream.bus.step ops a = some b) (hpub : Published s.sequences minted b)
    (hgrow : ∀ e ∈ s.stream.bus.published s.minted, e ∈ b.published minted)
    (ha : ∀ env, a ≠ .tryPublish env)
    (hothers : s.stream.active = true →
      a ≠ .recv s.stream.sub ∧ a ≠ .dropRx s.stream.sub ∧ a ≠ .unsubscribe s.stream.sub)
    (hG : s.stream.active = true → Bus.Lossless s.stream.sub s.stream.bus a)
    (hidle : s.stream.phase = .idle → offered = [])
    (hoffered : s.listening = true → s.Showing ops p id opts →
      b.FeedsAll ops s.stream.sub p s.offered → b.FeedsAll ops s.stream.sub p offered) :
    SessionInv ops rfc3339 p id opts
      { s with stream := { s.stream with bus := b }, minted, offered } := by
  have hb := h.published
  refine h.bus_move hpub hgrow hidle (fun hs' => ?_) (fun hl hs' => ?_) fun hact hs' => ?_
  · exact hs'.feeds.step hb.wellFormed hb.recordsOnce hpub.recordsOnce ha hs
  · have hact := active_of_listening hl
    exact hoffered hl hs' ((hs'.feedsAll hl).step hs'.feeds hb.wellFormed hb.recordsOnce hmpsc hpol
      (hothers hact).2.2 (hothers hact).2.1 (hG hact) hs)
  · exact Bus.received_of_step (Nat.ne_of_lt hs'.feeds.onTopic.created) (hothers hact).1 hs

/-- The publisher of a minted envelope calls `publish`. -/
theorem SessionInv.publish (h : SessionInv ops rfc3339 p id opts s)
    (hmpsc : opts.slowConsumerPolicy.isMpsc = true) (hpol : opts.slowConsumerPolicy ≠ .dropNewest)
    {n : ℕ} (hs : step ops rfc3339 s (.publish n) = some s') :
    SessionInv ops rfc3339 p id opts s' := by
  simp only [step] at hs
  split at hs
  · cases hs
  · rename_i env hn
    obtain ⟨t, ht, rfl⟩ := Option.map_eq_some_iff.mp hs
    obtain ⟨-, b, hb, rfl⟩ := EventsStream.step_bus ht
    refine h.bus_step hmpsc hpol hb (h.published.publish hn hb) (fun e he => ?_) (by simp)
      (fun _ => by simp) (fun _ => True.intro) (fun hi => (h.idle hi).2.1) fun _ _ hall => hall
    exact (published_perm hn hb).mem_iff.mpr he

/-- What a step of the bus offers the stream. -/
theorem noteOffer_cases (s : ReplaySession τ) (a : BusAction Json τ) :
    s.noteOffer (.bus a) = s.offered ∨ ∃ k c, a = .advance k ∧ s.stream.bus.calls[k]? = some c ∧
      s.stream.active = true ∧ c.phase = .acquire ∧
      s.noteOffer (.bus a) = s.offered ++ [c.envelope] := by
  unfold noteOffer
  split
  · rename_i k heq
    cases heq
    split
    · rename_i c hk
      split
      · rename_i hoffer
        exact .inr ⟨k, c, rfl, hk, hoffer.1, hoffer.2, rfl⟩
      · exact .inl rfl
    · exact .inl rfl
  · exact .inl rfl

omit [DecidableEq κ] in
/-- Only the publishers of minted envelopes publish. -/
theorem not_publish_of_may {a : BusAction Json τ} (h : s.may (.bus a) = true) :
    (∀ env, a ≠ .publish env) ∧ ∀ env, a ≠ .tryPublish env := by
  constructor
  · rintro env rfl
    cases h
  · rintro env rfl
    cases h

/-- Another party moves. -/
theorem SessionInv.bus (h : SessionInv ops rfc3339 p id opts s)
    (hmpsc : opts.slowConsumerPolicy.isMpsc = true) (hpol : opts.slowConsumerPolicy ≠ .dropNewest)
    {a : BusAction Json τ} (hG : s.stream.active = true → Bus.Lossless s.stream.sub s.stream.bus a)
    (hs : step ops rfc3339 s (.stream (.bus a)) = some s') :
    SessionInv ops rfc3339 p id opts s' := by
  -- the bus may not publish here: an envelope is published as it was minted
  simp only [step] at hs
  split at hs
  · rename_i hmay
    obtain ⟨t, ht, rfl⟩ := Option.map_eq_some_iff.mp hs
    obtain ⟨hothers, b, hb, rfl⟩ := EventsStream.step_bus ht
    obtain ⟨hpublish, htry⟩ := not_publish_of_may hmay
    have hpub := h.published.bus_step hpublish htry hb
    have hsame := h.published.envelopes_eq hpublish htry hb
    -- the bus keeps off the queue and the receiver of this subscription
    refine h.bus_step hmpsc hpol hb hpub (fun e he => hsame ▸ he) htry (fun hact => ?_) hG
      (fun hi => ?_) fun hl hs' hall => ?_
    · refine ⟨EventsStream.othersMay_ne_recv hothers hact, ?_, ?_⟩
      · rintro rfl
        simp [EventsStream.othersMay, hact] at hothers
      · rintro rfl
        simp [may, hact] at hmay
    · rcases noteOffer_cases s a with heq | ⟨k, c, -, -, hact, -⟩
      · exact heq.trans (h.idle hi).2.1
      · simp [EventsStream.active, hi] at hact
    · -- an envelope offered now is enqueued while the subscription is attached
      rcases noteOffer_cases s a with heq | ⟨k, c, rfl, hk, -, hp, heq⟩
      · rw [heq]
        exact hall
      · rw [heq]
        exact hall.acquire (hs'.feedsAll hl).attached hs'.feeds.onTopic.created hk hp hb
  · cases hs

/-- The stream moves. -/
theorem SessionInv.stream_move {t : EventsStream Json τ} {ring : List (EventEnvelope Json)}
    (hpub : Published s.sequences s.minted t.bus) (hphase : t.phase ≠ .idle)
    (hlines : t.body.filter NdjsonLine.isEvent = t.handed.filterMap (ndjsonEventLine rfc3339))
    (hp : ∀ e : EventEnvelope Json, e.Addressed → ops.Matches p e → e.streamId = id)
    (hshowing : { s with stream := t, ringAtRead := ring }.Showing ops p id opts) :
    SessionInv ops rfc3339 p id opts { s with stream := t, ringAtRead := ring } :=
  ⟨hpub, fun hi => absurd hi hphase, hlines, hshowing.handedOnce hpub hp, fun _ => hshowing⟩

/-- The handler subscribes. -/
theorem SessionInv.subscribe (h : SessionInv ops rfc3339 p id opts s) (hlimit : opts.limit = none)
    (hmpsc : opts.slowConsumerPolicy.isMpsc = true)
    (hs : step ops rfc3339 s
      (.stream (.subscribe p opts.outboundCapacity opts.slowConsumerPolicy (some id))) = some s') :
    SessionInv ops rfc3339 p id opts s' := by
  simp only [step, may, if_true] at hs
  obtain ⟨t, ht, rfl⟩ := Option.map_eq_some_iff.mp hs
  obtain ⟨hidle, opts', b, hopts, hb, hnext⟩ := EventsStream.step_subscribe ht
  -- a replay request sets no limit
  obtain rfl : opts' = opts := by
    rw [hopts]
    cases opts
    simp_all
  obtain ⟨hring, hoffered, hhanded, hids⟩ := h.idle hidle
  have hpub := h.published.bus_step (by simp) (by simp) hb
  have hring' : s.noteRead (.subscribe p opts'.outboundCapacity opts'.slowConsumerPolicy
      (some id)) = [] := hring
  have hoffered' : s.noteOffer (.subscribe p opts'.outboundCapacity opts'.slowConsumerPolicy
      (some id)) = [] := hoffered
  -- the bus made the subscription, or refused it
  rcases hnext with ⟨hcreated, rfl⟩ | rfl
  · obtain ⟨hfeeds, henq⟩ :=
      Bus.feeds_subscribe h.published.wellFormed h.published.fresh hb hcreated
    have hattached := Bus.attached_subscribe h.published.wellFormed h.published.recordsOnce hlimit
      hmpsc hb hcreated
    have hnone : (b.mpsc s.stream.bus.nextId).received = [] := by
      rw [Mpsc.enqueued, List.append_eq_nil_iff] at henq
      exact henq.1
    refine ⟨hpub, by simp, h.lines, h.handedOnce, fun _ => ?_⟩
    -- nothing was read, received or handed over yet
    refine ⟨hfeeds, fun _ => ⟨hattached, ?_⟩, fun x hx => ?_, ?_, ?_, [], ?_⟩
    · rw [hoffered']
      exact fun e he => absurd he List.not_mem_nil
    · cases hx
      rfl
    · rw [hring']
      exact fun e he => absurd he List.not_mem_nil
    · rw [hring']
      exact List.nodup_nil
    · refine ⟨List.nil_prefix, ?_, fun x => ?_, ?_, .inr hnone, fun x _ => ⟨hnone, hring'⟩, by simp,
        by simp [ReplaySession.draining]⟩
      · rw [received, hnone, splice_nil]
        exact hhanded
      · rw [received, hnone]
        show x ∈ s.stream.replayedEventIds ↔ _
        rw [hids]
        simp [Outstanding]
      · show s.stream.replayedEventIds.Nodup
        rw [hids]
        exact List.nodup_nil
  · exact ⟨hpub, by simp, h.lines, h.handedOnce, by simp [EventsStream.active]⟩

omit [DecidableEq κ] in
/-- The stream moves and leaves the bus. -/
theorem Showing.still (h : s.Showing ops p id opts) {t : EventsStream Json τ}
    {ring : List (EventEnvelope Json)} (hl : s.listening = true) (hbus : t.bus = s.stream.bus)
    (hsub : t.sub = s.stream.sub) (hphase : ∀ x, t.phase ≠ .subscribed x)
    (hring : ∀ e ∈ ring, e ∈ s.stream.bus.published s.minted ∧ e.streamId = id)
    (hringOnce : ring.Nodup)
    (hshows : ∃ shown, { s with stream := t, ringAtRead := ring }.Shows shown) :
    { s with stream := t, ringAtRead := ring }.Showing ops p id opts := by
  refine ⟨?_, fun _ => ?_, fun x hx => absurd hx (hphase x), ?_, hringOnce, hshows⟩
  · rw [hbus, hsub]
    exact h.feeds
  · rw [hbus, hsub]
    exact h.feedsAll hl
  · rw [hbus]
    exact hring

/-- The stream moves, and the bus with it. -/
theorem Showing.moved (h : s.Showing ops p id opts)
    (hb : Published s.sequences s.minted s.stream.bus)
    {a : BusAction Json τ} {t : EventsStream Json τ} (ha : ∀ env, a ≠ .publish env)
    (ha' : ∀ env, a ≠ .tryPublish env) (hs : s.stream.bus.step ops a = some t.bus)
    (hsub : t.sub = s.stream.sub) (hphase : ∀ x, t.phase ≠ .subscribed x)
    (hall : { s with stream := t }.listening = true →
      t.bus.FeedsAll ops s.stream.sub p s.offered)
    (hshows : ∃ shown, { s with stream := t }.Shows shown) :
    Published s.sequences s.minted t.bus ∧ { s with stream := t }.Showing ops p id opts := by
  have hpub := hb.bus_step ha ha' hs
  refine ⟨hpub, ?_, fun hl => ?_, fun x hx => absurd hx (hphase x), fun e he => ?_, h.ringOnce,
    hshows⟩
  · rw [hsub]
    exact h.feeds.step hb.wellFormed hb.recordsOnce hpub.recordsOnce ha' hs
  · rw [hsub]
    exact hall hl
  · rw [hb.envelopes_eq ha ha' hs]
    exact h.ring e he

/-- The stream goes on to a phase in which nothing is replayed, and shows nothing. -/
theorem SessionInv.goesOn (h : SessionInv ops rfc3339 p id opts s) (hl : s.listening = true)
    (hp : ∀ e : EventEnvelope Json, e.Addressed → ops.Matches p e → e.streamId = id)
    {t : EventsStream Json τ} (hbus : t.bus = s.stream.bus) (hsub : t.sub = s.stream.sub)
    (hhanded : t.handed = s.stream.handed) (hids : t.replayedEventIds = s.stream.replayedEventIds)
    (hbody : t.body.filter NdjsonLine.isEvent = s.stream.body.filter NdjsonLine.isEvent)
    (hphase : t.phase ≠ .idle ∧ (∀ x, t.phase ≠ .subscribed x) ∧ ∀ rest, t.phase ≠ .replaying rest)
    (hdrain : { s with stream := t }.draining = true →
      s.draining = true ∨ s.stream.phase = .replaying []) :
    SessionInv ops rfc3339 p id opts { s with stream := t } := by
  have hshowing := h.showing (active_of_listening hl)
  obtain ⟨shown, hshows⟩ := hshowing.shows
  have hlines : t.body.filter NdjsonLine.isEvent =
      t.handed.filterMap (ndjsonEventLine rfc3339) := by rw [hbody, hhanded, h.lines]
  -- the ring is shown whole before the live envelopes
  have hwhole : { s with stream := t }.draining = true → shown = s.ringAtRead := by
    intro hd
    rcases hdrain hd with hd | hphase
    · exact hshows.draining hd
    · have hsplit := (hshows.replaying [] hphase).2
      rwa [List.append_nil] at hsplit
  have hshows' : { s with stream := t }.Shows shown :=
    hshows.phase (by rw [received, hbus, hsub]; rfl) rfl hhanded hids hphase.2 hwhole
  have hpub : Published s.sequences s.minted t.bus := by
    rw [hbus]
    exact h.published
  exact .stream_move hpub hphase.1 hlines hp
    (hshowing.still hl hbus hsub hphase.2.1 hshowing.ring hshowing.ringOnce ⟨shown, hshows'⟩)

/-- A line is added with its envelope. -/
theorem lines_concat (h : s.stream.body.filter NdjsonLine.isEvent =
      s.stream.handed.filterMap (ndjsonEventLine rfc3339)) {ev : EventEnvelope Json}
    {line : NdjsonLine Json} (hline : ndjsonEventLine rfc3339 ev = some line) :
    (s.stream.body ++ [line]).filter NdjsonLine.isEvent =
      (s.stream.handed ++ [ev]).filterMap (ndjsonEventLine rfc3339) := by
  have hevent : line.isEvent = true := by
    obtain rfl := Option.some.inj hline
    rfl
  rw [List.filter_append, List.filterMap_append, h, List.filter_cons_of_pos hevent, List.filter_nil,
    List.filterMap_cons_some hline, List.filterMap_nil]

/-- The next envelope is taken from the queue. -/
theorem Showing.taken (h : s.Showing ops p id opts)
    (hb : Published s.sequences s.minted s.stream.bus) (hl : s.listening = true)
    (hmpsc : opts.slowConsumerPolicy.isMpsc = true) (hpol : opts.slowConsumerPolicy ≠ .dropNewest)
    (hp : ∀ e : EventEnvelope Json, e.Addressed → ops.Matches p e → e.streamId = id)
    {ev : EventEnvelope Json} {b : Bus Json τ}
    (hr : s.stream.bus.recv s.stream.sub = some (ev, b)) :
    s.stream.bus.step ops (.recv s.stream.sub) = some b ∧
      b.FeedsAll ops s.stream.sub p s.offered ∧
      (b.mpsc s.stream.sub).received = s.received ++ [ev] ∧
      ((b.mpsc s.stream.sub).received.map (·.eventId)).Nodup := by
  have hstep : s.stream.bus.step ops (.recv s.stream.sub) = some b := by simp [Bus.step, hr]
  have hpub := hb.bus_step (by simp) (by simp) hstep
  have hfeeds := h.feeds.step hb.wellFormed hb.recordsOnce hpub.recordsOnce (by simp) hstep
  have hG : Bus.Lossless s.stream.sub s.stream.bus (.recv s.stream.sub) := True.intro
  have hall := (h.feedsAll hl).step h.feeds hb.wellFormed hb.recordsOnce hmpsc hpol (by simp)
    (by simp) hG hstep
  refine ⟨hstep, hall, ?_, ?_⟩
  · obtain ⟨q, hq, rfl⟩ := Bus.recv_mpsc h.feeds.opts hmpsc hr
    simp [received, Bus.setMpsc, (Mpsc.recv_some hq).2.1]
  · exact (nodup_enqueued hpub hfeeds hp).sublist ((List.sublist_append_left _ _).map _)

/-- A step of the stream that is one of the bus as well. -/
theorem SessionInv.moved (h : SessionInv ops rfc3339 p id opts s) (hactive : s.stream.active = true)
    (hp : ∀ e : EventEnvelope Json, e.Addressed → ops.Matches p e → e.streamId = id)
    {a : BusAction Json τ} {t : EventsStream Json τ} (ha : ∀ env, a ≠ .publish env)
    (ha' : ∀ env, a ≠ .tryPublish env) (hs : s.stream.bus.step ops a = some t.bus)
    (hsub : t.sub = s.stream.sub) (hphase : t.phase ≠ .idle ∧ ∀ x, t.phase ≠ .subscribed x)
    (hall : { s with stream := t }.listening = true →
      t.bus.FeedsAll ops s.stream.sub p s.offered)
    (hlines : t.body.filter NdjsonLine.isEvent = t.handed.filterMap (ndjsonEventLine rfc3339))
    {shown : List (EventEnvelope Json)} (hshows : { s with stream := t }.Shows shown) :
    SessionInv ops rfc3339 p id opts { s with stream := t } := by
  obtain ⟨hpub, hshowing⟩ := (h.showing hactive).moved h.published ha ha' hs hsub hphase.2 hall
    ⟨shown, hshows⟩
  exact .stream_move hpub hphase.1 hlines hp hshowing

/-- The stream gives up its place on the bus, and shows nothing. -/
theorem SessionInv.leaves (h : SessionInv ops rfc3339 p id opts s) (hactive : s.stream.active = true)
    (hp : ∀ e : EventEnvelope Json, e.Addressed → ops.Matches p e → e.streamId = id)
    {a : BusAction Json τ} {b : Bus Json τ} {phase : StreamPhase Json}
    (hs : s.stream.bus.step ops a = some b) (ha : ∀ env, a ≠ .publish env)
    (ha' : ∀ env, a ≠ .tryPublish env) (ha'' : a ≠ .recv s.stream.sub)
    (hphase : phase = .dropping ∨ phase = .done) :
    SessionInv ops rfc3339 p id opts { s with stream := { s.stream with bus := b, phase } } := by
  have hshowing := h.showing hactive
  obtain ⟨shown, hshows⟩ := hshowing.shows
  have hrecv : (b.mpsc s.stream.sub).received = s.received :=
    Bus.received_of_step (Nat.ne_of_lt hshowing.feeds.onTopic.created) ha'' hs
  have hshows' : { s with stream := { s.stream with bus := b, phase } }.Shows shown := by
    refine hshows.phase hrecv rfl rfl rfl ?_ ?_ <;>
      rcases hphase with rfl | rfl <;> simp [ReplaySession.draining]
  refine h.moved hactive hp ha ha' hs rfl ?_ ?_ h.lines hshows' <;>
    rcases hphase with rfl | rfl <;> simp [listening]

theorem SessionInv.poll (h : SessionInv ops rfc3339 p id opts s)
    (hmpsc : opts.slowConsumerPolicy.isMpsc = true) (hpol : opts.slowConsumerPolicy ≠ .dropNewest)
    (hp : ∀ e : EventEnvelope Json, e.Addressed → ops.Matches p e → e.streamId = id) {now : ℤ}
    (hs : step ops rfc3339 s (.stream (.poll now)) = some s') :
    SessionInv ops rfc3339 p id opts s' := by
  simp only [step, may, if_true] at hs
  obtain ⟨t, ht, rfl⟩ := Option.map_eq_some_iff.mp hs
  have hpolled := EventsStream.polled_of_poll ht
  have hactive : s.stream.active = true := by
    unfold EventsStream.active
    cases hpolled <;> simp_all
  have hb := h.published
  have hshowing := h.showing hactive
  obtain ⟨shown, hshows⟩ := hshowing.shows
  have hlines := h.lines
  have hread : (∀ x, s.stream.phase ≠ .subscribed x) → s.noteRead (.poll now) = s.ringAtRead := by
    intro hne
    simp only [noteRead]
    split
    · rename_i hphase
      exact absurd hphase (hne _)
    · rfl
  show SessionInv ops rfc3339 p id opts
    { s with stream := t, ringAtRead := s.noteRead (.poll now) }
  cases hpolled with
  | read x hphase next =>
    obtain rfl := hshowing.replayStreamId x hphase
    have hfirst : s.noteRead (.poll now) = s.stream.bus.replayCache.perStream id := by
      simp [noteRead, hphase]
    have hring : s.stream.ring (some id) = s.stream.bus.replayCache.perStream id :=
      hb.eventsAfter_zero id
    subst next
    rw [hfirst, hring]
    refine .stream_move hb (by simp) hlines hp (hshowing.still (by simp [listening, hphase]) rfl rfl
      (by simp) (fun e he => hb.mem_of_ring he) (hb.recordsOnce.once id).of_map ⟨[], ?_⟩)
    exact hshows.read hphase rfl rfl rfl rfl
  | replay ev rest line hphase of next =>
    subst next
    rw [hread (by simp [hphase])]
    refine .stream_move hb (by simp) (lines_concat hlines of) hp
      (hshowing.still (by simp [listening, hphase]) rfl rfl (by simp) hshowing.ring
        hshowing.ringOnce ⟨shown ++ [ev], ?_⟩)
    exact hshows.replay hphase rfl rfl rfl rfl rfl
  | replayed hphase next =>
    subst next
    rw [hread (by simp [hphase])]
    exact h.goesOn (by simp [listening, hphase]) hp rfl rfl rfl rfl rfl (by simp)
      fun _ => .inr hphase
  | quiet hphase _ next =>
    subst next
    rw [hread (by simp [hphase])]
    exact h.goesOn (by simp [listening, hphase]) hp rfl rfl rfl rfl rfl (by simp)
      fun _ => .inl (by simp [draining, hphase])
  | gap n hphase _ next =>
    subst next
    rw [hread (by simp [hphase])]
    refine h.goesOn (by simp [listening, hphase]) hp rfl rfl rfl rfl ?_
      (by simp [EventsStream.yieldGap]) fun _ => .inl (by simp [draining, hphase])
    -- the line of the gap is no event
    simp [EventsStream.yieldGap, NdjsonLine.isEvent]
  | gone hphase _ next =>
    subst next
    rw [hread (by simp [hphase])]
    exact h.goesOn (by simp [listening, hphase]) hp rfl rfl rfl rfl rfl (by simp)
      fun _ => .inl (by simp [draining, hphase])
  | skip ev b hphase hr hseen next =>
    obtain ⟨hstep, hall, hrecv, hnodup⟩ :=
      hshowing.taken hb (by simp [listening, hphase]) hmpsc hpol hp hr
    subst next
    rw [hread (by simp [hphase])]
    let t : EventsStream Json τ := { s.stream with
      bus := b, phase := .notice, replayedEventIds := s.stream.replayedEventIds.erase ev.eventId }
    have hshows' : { s with stream := t }.Shows shown :=
      hshows.recv hphase hrecv rfl hnodup rfl (fun _ => ⟨rfl, rfl⟩) fun hnot => absurd hseen hnot
    exact h.moved hactive hp (by simp) (by simp) hstep rfl (by simp) (fun _ => hall) hlines hshows'
  | yield ev b line hphase hr hunseen of next =>
    obtain ⟨hstep, hall, hrecv, hnodup⟩ :=
      hshowing.taken hb (by simp [listening, hphase]) hmpsc hpol hp hr
    subst next
    rw [hread (by simp [hphase])]
    let t : EventsStream Json τ := { s.stream with
      bus := b, phase := .notice,
      body := s.stream.body ++ [line], handed := s.stream.handed ++ [ev] }
    have hshows' : { s with stream := t }.Shows shown :=
      hshows.recv hphase hrecv rfl hnodup rfl (fun hmem => absurd hmem hunseen) fun _ => ⟨rfl, rfl⟩
    exact h.moved hactive hp (by simp) (by simp) hstep rfl (by simp) (fun _ => hall)
      (lines_concat hlines of) hshows'
  | empty hphase _ next =>
    subst next
    rw [hread (by simp [hphase])]
    exact h.goesOn (by simp [listening, hphase]) hp rfl rfl rfl rfl rfl (by simp)
      fun _ => .inl (by simp [draining, hphase])
  | ended hphase _ next =>
    subst next
    rw [hread (by simp [hphase])]
    exact h.goesOn (by simp [listening, hphase]) hp rfl rfl rfl rfl rfl (by simp)
      fun _ => .inl (by simp [draining, hphase])
  | unsubscribe b hphase hstep next =>
    subst next
    rw [hread (by simp [hphase])]
    exact h.leaves hactive hp hstep (by simp) (by simp) (by simp) (.inl rfl)
  | dropRx hphase next =>
    have hstep : s.stream.bus.step ops (.dropRx s.stream.sub) =
      some (s.stream.bus.dropRx s.stream.sub) := rfl
    subst next
    rw [hread (by simp [hphase])]
    exact h.leaves hactive hp hstep (by simp) (by simp) (by simp) (.inr rfl)

/-- The client goes away. -/
theorem SessionInv.disconnect (h : SessionInv ops rfc3339 p id opts s)
    (hp : ∀ e : EventEnvelope Json, e.Addressed → ops.Matches p e → e.streamId = id)
    (hs : step ops rfc3339 s (.stream .disconnect) = some s') :
    SessionInv ops rfc3339 p id opts s' := by
  simp only [step, may, if_true] at hs
  obtain ⟨t, ht, rfl⟩ := Option.map_eq_some_iff.mp hs
  obtain ⟨hactive, -, hdropping, phase, hphase, rfl⟩ := EventsStream.step_disconnect ht
  have hl : s.listening = true := by
    unfold listening
    unfold EventsStream.active at hactive
    split at hactive <;> simp_all
  refine h.goesOn hl hp rfl rfl rfl rfl rfl ?_ ?_
  · rcases hphase with rfl | rfl <;> simp
  · rcases hphase with rfl | rfl <;> simp [draining]

end Session

end ReplaySession

end Boardwalk
