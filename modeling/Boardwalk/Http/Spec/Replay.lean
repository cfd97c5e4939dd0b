import Boardwalk.Events.Spec.Offered
import Boardwalk.Events.Spec.Topic
import Boardwalk.Http.EventsRequest
import Boardwalk.Http.Spec.StreamGap

/-!
# Which envelopes a replayed stream shows

The live half of an event stream passes through the pattern of its subscription.  The replayed half
is the ring of the stream that the topic names, which has neither the kind nor the filter.  So the
lines of a response match the pattern if the ring does when the handler reads it
(`linesMatch_of_ringMatches`), and `replay_honours_pattern_iff` says that no weaker condition is
enough.
-/

namespace Boardwalk

/-- The topic and the payload of an event line match the pattern. -/
def NdjsonLine.Matches {δ τ κ : Type} (ops : BusOps δ τ κ) (p : τ) : NdjsonLine δ → Prop
  | .event topic _ data .. => ops.matchesEvent p topic data = true
  | .streamGap .. => True

instance {δ τ κ : Type} (ops : BusOps δ τ κ) (p : τ) : ∀ line : NdjsonLine δ,
    Decidable (line.Matches ops p)
  | .event .. => inferInstanceAs (Decidable (_ = true))
  | .streamGap .. => isTrue True.intro

namespace EventsStream

variable {δ τ κ : Type} [DecidableEq κ]

/-! ### One poll -/

/-- What the read of the cache returns. -/
def ring (t : EventsStream δ τ) (replayStreamId : Option StreamId) : List (EventEnvelope δ) :=
  (replayStreamId.map fun id => t.bus.replayCache.eventsAfter id 0).getD []

/-- What a poll does. -/
inductive Polled (ops : BusOps δ τ κ) (rfc3339 : OffsetDateTime → Option String) (now : ℤ)
    (t t' : EventsStream δ τ) : Prop where
  /-- The cache is read. -/
  | read (replayStreamId : Option StreamId) (phase : t.phase = .subscribed replayStreamId)
      (next : t' = { t with phase := .replaying (t.ring replayStreamId) })
  | replay (ev : EventEnvelope δ) (rest : List (EventEnvelope δ)) (line : NdjsonLine δ)
      (phase : t.phase = .replaying (ev :: rest)) (of : ndjsonEventLine rfc3339 ev = some line)
      (next : t' = { t with
        phase := .replaying rest, started := true,
        replayedEventIds := t.replayedEventIds.insert ev.eventId,
        body := t.body ++ [line], handed := t.handed ++ [ev] })
  | replayed (phase : t.phase = .replaying [])
      (next : t' = { t with phase := .notice, started := true })
  | quiet (phase : t.phase = .notice) (pending : t.bus.notify t.sub = .pending)
      (next : t' = { t with phase := .recv })
  | gap (n : SlowConsumerNotice) (phase : t.phase = .notice)
      (fired : t.bus.notify t.sub = .sent n)
      (next : t' = { t with phase := .unsubscribing }.yieldGap now n)
  /-- The entry is gone without a notice. -/
  | gone (phase : t.phase = .notice) (dropped : t.bus.notify t.sub = .dropped)
      (next : t' = { t with phase := .unsubscribing })
  /-- A live envelope that was replayed. -/
  | skip (ev : EventEnvelope δ) (bus : Bus δ τ) (phase : t.phase = .recv)
      (recv : t.bus.recv t.sub = some (ev, bus)) (seen : ev.eventId ∈ t.replayedEventIds)
      (next : t' = { t with
        bus, phase := .notice, replayedEventIds := t.replayedEventIds.erase ev.eventId })
  | yield (ev : EventEnvelope δ) (bus : Bus δ τ) (line : NdjsonLine δ) (phase : t.phase = .recv)
      (recv : t.bus.recv t.sub = some (ev, bus)) (unseen : ev.eventId ∉ t.replayedEventIds)
      (of : ndjsonEventLine rfc3339 ev = some line)
      (next : t' = { t with
        bus, phase := .notice, body := t.body ++ [line], handed := t.handed ++ [ev] })
  | empty (phase : t.phase = .recv) (none : t.bus.recv t.sub = none)
      (next : t' = { t with phase := .notice })
  /-- The last sender is gone. -/
  | ended (phase : t.phase = .recv) (none : t.bus.recv t.sub = none)
      (next : t' = { t with phase := .unsubscribing })
  | unsubscribe (bus : Bus δ τ) (phase : t.phase = .unsubscribing)
      (step : t.bus.step ops (.unsubscribe t.sub) = some bus)
      (next : t' = { t with bus, phase := .dropping })
  | dropRx (phase : t.phase = .dropping)
      (next : t' = { t with bus := t.bus.dropRx t.sub, phase := .done })

section Polls

variable {t t' : EventsStream δ τ} {ops : BusOps δ τ κ} {rfc3339 : OffsetDateTime → Option String}

theorem polled_of_poll {now : ℤ} (hs : t.poll ops rfc3339 now = some t') :
    Polled ops rfc3339 now t t' := by
  unfold poll at hs
  -- one case for each phase, in the order of the source
  split at hs
  case h_1 => cases hs
  case h_2 id hp => exact .read id hp (Option.some.inj hs).symm
  case h_3 hp => exact .replayed hp (Option.some.inj hs).symm
  case h_4 ev rest hp => exact .replay ev rest _ hp rfl (Option.some.inj hs).symm
  case h_5 hp =>
    split at hs
    · rename_i hn; exact .quiet hp hn (Option.some.inj hs).symm
    · rename_i n hn; exact .gap n hp hn (Option.some.inj hs).symm
    · rename_i hn; exact .gone hp hn (Option.some.inj hs).symm
  case h_6 hp =>
    split at hs
    · rename_i ev bus hr
      split at hs
      · rename_i hmem; exact .skip ev bus hp hr hmem (Option.some.inj hs).symm
      · rename_i hmem; exact .yield ev bus _ hp hr hmem rfl (Option.some.inj hs).symm
    · rename_i hr
      split at hs
      · exact .empty hp hr (Option.some.inj hs).symm
      · exact .ended hp hr (Option.some.inj hs).symm
  case h_7 hp =>
    obtain ⟨bus, hbus, rfl⟩ := Option.map_eq_some_iff.mp hs
    exact .unsubscribe bus hp hbus rfl
  case h_8 hp => exact .dropRx hp (Option.some.inj hs).symm
  case h_9 => cases hs

/-- The handler's `subscribe`: it holds a new subscription, or the channel was refused. -/
theorem step_subscribe {topic : τ} {outboundCapacity : Option ℕ} {policy : SlowConsumerPolicy}
    {replayStreamId : Option StreamId}
    (hs : step ops rfc3339 t (.subscribe topic outboundCapacity policy replayStreamId) = some t') :
    t.phase = .idle ∧ ∃ opts bus, opts = { outboundCapacity, slowConsumerPolicy := policy } ∧
      t.bus.step ops (.subscribe topic opts) = some bus ∧
      ((bus.subs t.bus.nextId).isSome = true ∧
          t' = { t with bus, opts, sub := t.bus.nextId, phase := .subscribed replayStreamId } ∨
        t' = { t with bus, opts, phase := .done }) := by
  simp only [step] at hs
  split at hs
  · rename_i hidle
    obtain ⟨bus, hbus, rfl⟩ := Option.map_eq_some_iff.mp hs
    refine ⟨hidle, _, bus, rfl, hbus, ?_⟩
    split
    · rename_i hcreated
      exact .inl ⟨hcreated, rfl⟩
    · exact .inr rfl
  · cases hs

/-- The client's disconnect ends the body where it stands; one that was not polled does not
unsubscribe. -/
theorem step_disconnect (hs : step ops rfc3339 t .disconnect = some t') :
    t.active = true ∧ (∀ x, t.phase ≠ .subscribed x) ∧ t.phase ≠ .dropping ∧
      ∃ phase, (phase = .unsubscribing ∨ phase = .dropping) ∧ t' = { t with phase } := by
  simp only [step, disconnect] at hs
  split at hs
  · rename_i rest hp
    refine ⟨by simp [active, hp], by simp [hp], by simp [hp], _, ?_, (Option.some.inj hs).symm⟩
    cases t.started
    · exact .inr rfl
    · exact .inl rfl
  · rename_i hp
    exact ⟨by simp [active, hp], by simp [hp], by simp [hp], _, .inl rfl, (Option.some.inj hs).symm⟩
  · rename_i hp
    exact ⟨by simp [active, hp], by simp [hp], by simp [hp], _, .inl rfl, (Option.some.inj hs).symm⟩
  · cases hs

end Polls

/-! ### Replayed and live lines -/

/-- Every event line of the body matches the pattern. -/
def LinesMatch (ops : BusOps δ τ κ) (p : τ) (t : EventsStream δ τ) : Prop :=
  ∀ line ∈ t.body, line.Matches ops p

instance (ops : BusOps δ τ κ) (p : τ) (t : EventsStream δ τ) : Decidable (t.LinesMatch ops p) :=
  inferInstanceAs (Decidable (∀ line ∈ t.body, _))

/-- What the next poll reads from the cache. -/
def toRead (t : EventsStream δ τ) : List (EventEnvelope δ) :=
  match t.phase with
  | .subscribed id => t.ring id
  | _ => []

/-- If the action reads the cache, the pattern matches what it reads. -/
def RingMatches (ops : BusOps δ τ κ) (p : τ) (t : EventsStream δ τ) : StreamAction δ τ → Prop
  | .poll _ => ∀ e ∈ t.toRead, ops.Matches p e
  | _ => True

/-- If the action is the handler's `subscribe`, it is to the pattern `p`. -/
def SubscribesTo (p : τ) (a : StreamAction δ τ) : Prop :=
  ∀ topic capacity policy id, a = .subscribe topic capacity policy id → topic = p

/-- The subscription has the pattern `p`, and what was shown or is still to be replayed matches. -/
structure OnPattern (ops : BusOps δ τ κ) (p : τ) (t : EventsStream δ τ) : Prop where
  wellFormed : t.bus.WellFormed
  fresh : t.bus.FreshQueues
  live : t.active = true → t.bus.OnTopic ops t.sub p
  replay : ∀ replay, t.phase = .replaying replay → ∀ e ∈ replay, ops.Matches p e
  lines : t.LinesMatch ops p

section Pattern

variable {t t' : EventsStream δ τ} {ops : BusOps δ τ κ} {rfc3339 : OffsetDateTime → Option String}
  {p : τ}

theorem onPattern_init (ops : BusOps δ τ κ) (rfc3339 : OffsetDateTime → Option String)
    (replayCapacity : ℕ) (p : τ) : OnPattern ops p (machine ops rfc3339 replayCapacity).init where
  wellFormed := Bus.wellFormed_init ops replayCapacity
  fresh _ _ := rfl
  live h := by cases h
  replay _ h := by cases h
  lines _ h := by cases h

omit [DecidableEq κ] in
/-- A line matches when its envelope does. -/
theorem matches_ndjsonEventLine {ev : EventEnvelope δ} {line : NdjsonLine δ}
    (hline : ndjsonEventLine rfc3339 ev = some line) :
    line.Matches ops p ↔ ops.Matches p ev := by
  obtain rfl := Option.some.inj hline
  exact Iff.rfl

omit [DecidableEq κ] in
theorem LinesMatch.append (h : t.LinesMatch ops p) {line : NdjsonLine δ}
    (hline : line.Matches ops p) : ∀ l ∈ t.body ++ [line], l.Matches ops p := by
  intro l hl
  rcases List.mem_append.mp hl with hl | hl
  · exact h l hl
  · rwa [List.mem_singleton.mp hl]

omit [DecidableEq κ] in
/-- A later phase in which nothing is replayed. -/
theorem OnPattern.phase (h : OnPattern ops p t) (hact : t.active = true) (phase : StreamPhase δ)
    (hreplay : ∀ replay, phase = .replaying replay → ∀ e ∈ replay, ops.Matches p e) :
    OnPattern ops p { t with phase } :=
  ⟨h.wellFormed, h.fresh, fun _ => h.live hact, hreplay, h.lines⟩

/-- A step of the bus keeps the pattern of the subscription. -/
theorem OnPattern.bus_step (h : OnPattern ops p t) {a : BusAction δ τ} {bus : Bus δ τ}
    (hs : t.bus.step ops a = some bus) : OnPattern ops p { t with bus } where
  wellFormed := Bus.wellFormed_step h.wellFormed hs
  fresh := Bus.freshQueues_step h.wellFormed h.fresh hs
  live hact := (h.live hact).step hs
  replay := h.replay
  lines := h.lines

/-- A poll keeps what is handed out on the pattern, if the ring it reads from matches. -/
theorem OnPattern.poll (h : OnPattern ops p t) {now : ℤ} (hG : RingMatches ops p t (.poll now))
    (hs : t.poll ops rfc3339 now = some t') : OnPattern ops p t' := by
  cases polled_of_poll hs with
  | read id hp next =>
    subst next
    -- what is read is what the condition speaks of
    refine h.phase (by simp [active, hp]) _ fun replay heq => ?_
    cases heq
    exact fun e he => hG e (by simpa [toRead, hp] using he)
  | replay ev rest line hp of next =>
    subst next
    have hmatch := h.replay _ hp
    have hrest := h.phase (by simp [active, hp]) (.replaying rest) fun replay heq => by
      -- the rest of the ring matches as its whole did
      cases heq
      exact fun e he => hmatch e (List.mem_cons_of_mem _ he)
    refine ⟨hrest.wellFormed, hrest.fresh, hrest.live, hrest.replay, h.lines.append ?_⟩
    exact (matches_ndjsonEventLine of).mpr (hmatch ev List.mem_cons_self)
  | replayed hp next =>
    subst next
    have hlater := h.phase (by simp [active, hp]) .notice (by simp)
    exact ⟨hlater.wellFormed, hlater.fresh, hlater.live, by simp, h.lines⟩
  | quiet hp _ next => subst next; exact h.phase (by simp [active, hp]) _ (by simp)
  | gap n hp _ next =>
    subst next
    have hend := h.phase (by simp [active, hp]) .unsubscribing (by simp)
    exact ⟨hend.wellFormed, hend.fresh, hend.live, hend.replay, h.lines.append True.intro⟩
  | gone hp _ next => subst next; exact h.phase (by simp [active, hp]) _ (by simp)
  | skip ev bus hp hr _ next =>
    subst next
    -- what the queue gives is what the bus enqueued
    have hbus := h.bus_step (show t.bus.step ops (.recv t.sub) = some bus by simp [Bus.step, hr])
    exact ⟨hbus.wellFormed, hbus.fresh, fun _ => hbus.live (by simp [active, hp]), by simp, h.lines⟩
  | yield ev bus line hp hr _ of next =>
    subst next
    have hact : t.active = true := by simp [active, hp]
    have hbus := h.bus_step (show t.bus.step ops (.recv t.sub) = some bus by simp [Bus.step, hr])
    refine ⟨hbus.wellFormed, hbus.fresh, fun _ => hbus.live hact, by simp, h.lines.append ?_⟩
    exact (matches_ndjsonEventLine of).mpr ((h.live hact).recv hr)
  | empty hp _ next => subst next; exact h.phase (by simp [active, hp]) _ (by simp)
  | ended hp _ next => subst next; exact h.phase (by simp [active, hp]) _ (by simp)
  | unsubscribe bus hp hstep next =>
    subst next
    have hbus := h.bus_step hstep
    exact ⟨hbus.wellFormed, hbus.fresh, fun _ => hbus.live (by simp [active, hp]), by simp, h.lines⟩
  | dropRx hp next =>
    subst next
    have hstep : t.bus.step ops (.dropRx t.sub) = some (t.bus.dropRx t.sub) := rfl
    have hbus := h.bus_step hstep
    exact ⟨hbus.wellFormed, hbus.fresh, by simp [active], by simp, h.lines⟩

/-- Every step keeps what is handed out on the pattern, if the rings it reads match. -/
theorem OnPattern.step (h : OnPattern ops p t) {a : StreamAction δ τ} (ha : SubscribesTo p a)
    (hG : RingMatches ops p t a) (hs : step ops rfc3339 t a = some t') : OnPattern ops p t' := by
  cases a with
  | bus a =>
    obtain ⟨-, bus, hbus, rfl⟩ := step_bus hs
    exact h.bus_step hbus
  | subscribe topic capacity policy id =>
    obtain ⟨-, opts, bus, -, hbus, hnext⟩ := step_subscribe hs
    obtain rfl := ha topic capacity policy id rfl
    have hwf := Bus.wellFormed_step h.wellFormed hbus
    have hfresh := Bus.freshQueues_step h.wellFormed h.fresh hbus
    rcases hnext with ⟨hcreated, rfl⟩ | rfl
    · exact ⟨hwf, hfresh, fun _ => Bus.onTopic_subscribe h.wellFormed h.fresh hbus hcreated,
        by simp, h.lines⟩
    · exact ⟨hwf, hfresh, by simp [active], by simp, h.lines⟩
  | poll now => exact h.poll hG hs
  | disconnect =>
    obtain ⟨hact, -, -, phase, hphase, rfl⟩ := step_disconnect hs
    exact h.phase hact _ (by rcases hphase with rfl | rfl <;> simp)

end Pattern

/-- **Every line matches the pattern** in a run whose read of the cache finds matching envelopes
only. -/
theorem linesMatch_of_ringMatches (ops : BusOps δ τ κ) (rfc3339 : OffsetDateTime → Option String)
    (replayCapacity : ℕ) (p : τ) {as : List (StreamAction δ τ)} (ha : ∀ a ∈ as, SubscribesTo p a)
    (h : (machine ops rfc3339 replayCapacity).StepsMeet (RingMatches ops p)
      (machine ops rfc3339 replayCapacity).init as) :
    (machine ops rfc3339 replayCapacity).StatesMeet (LinesMatch ops p)
      (machine ops rfc3339 replayCapacity).init as := by
  have hsteps := (Machine.StepsMeet.of_forall_mem fun a hmem _ => ha a hmem).and h
  have hall : (machine ops rfc3339 replayCapacity).StatesMeet (OnPattern ops p)
      (machine ops rfc3339 replayCapacity).init as := by
    refine Machine.statesMeet_of_stepsMeet ?_ (onPattern_init ops rfc3339 replayCapacity p) hsteps
    intro t a t' ht hG hs
    exact ht.step hG.1 hG.2 hs
  exact hall.mono fun _ ht => ht.lines

/-- Polls alone show all that is to be replayed. -/
theorem run_replaying (ops : BusOps δ τ κ) (rfc3339 : OffsetDateTime → Option String)
    (replayCapacity : ℕ) (now : ℤ) {replay : List (EventEnvelope δ)} {t : EventsStream δ τ}
    (hp : t.phase = .replaying replay) :
    ∃ t', (machine ops rfc3339 replayCapacity).run t (List.replicate replay.length (.poll now)) =
        some t' ∧
      ∀ ev ∈ replay, ∃ line ∈ t'.body, ndjsonEventLine rfc3339 ev = some line := by
  -- the lines of the body stay, so the ring's are there at the end
  suffices h : ∃ t', (machine ops rfc3339 replayCapacity).run t
      (List.replicate replay.length (.poll now)) = some t' ∧ (∀ line ∈ t.body, line ∈ t'.body) ∧
      ∀ ev ∈ replay, ∃ line ∈ t'.body, ndjsonEventLine rfc3339 ev = some line by
    obtain ⟨t', hrun, -, hlines⟩ := h
    exact ⟨t', hrun, hlines⟩
  -- on what is left of the ring
  induction replay generalizing t with
  | nil => exact ⟨t, rfl, fun _ => id, by simp⟩
  | cons ev rest ih =>
    have hstep : ∃ u line, t.step ops rfc3339 (.poll now) = some u ∧ u.phase = .replaying rest ∧
        u.body = t.body ++ [line] ∧ ndjsonEventLine rfc3339 ev = some line := by
      let seen := { t with
        phase := .replaying rest
        started := true
        replayedEventIds := t.replayedEventIds.insert ev.eventId }
      refine ⟨seen.yieldEvent rfc3339 ev, _, ?_, rfl, rfl, rfl⟩
      simp only [step, poll, hp]
      rfl
    obtain ⟨u, line, hu, hphase, hbody, hline⟩ := hstep
    obtain ⟨t', hrun, hkept, hlines⟩ := ih hphase
    refine ⟨t', Machine.run_cons.mpr ⟨u, hu, hrun⟩, fun l hl => hkept l ?_, fun e he => ?_⟩
    · rw [hbody]
      exact List.mem_append_left _ hl
    · rcases List.mem_cons.mp he with rfl | he
      · exact ⟨line, hkept line (by simp [hbody]), hline⟩
      · exact hlines e he

/-- **An envelope that the ring shows and the pattern does not match gets its line** if the handler
is polled on. -/
theorem not_linesMatch_of_ring (ops : BusOps δ τ κ) (rfc3339 : OffsetDateTime → Option String)
    (replayCapacity : ℕ) (p : τ) {as : List (StreamAction δ τ)} {t : EventsStream δ τ} {now : ℤ}
    (hrun : (machine ops rfc3339 replayCapacity).run
      (machine ops rfc3339 replayCapacity).init as = some t)
    (h : ¬ RingMatches ops p t (.poll now)) :
    ∃ n, ¬ (machine ops rfc3339 replayCapacity).StatesMeet (LinesMatch ops p)
      (machine ops rfc3339 replayCapacity).init (as ++ List.replicate n (.poll now)) := by
  unfold RingMatches at h
  push Not at h
  obtain ⟨e, he, hne⟩ := h
  -- only a poll that reads the ring has anything to read
  obtain ⟨id, hp⟩ : ∃ id, t.phase = .subscribed id := by
    unfold toRead at he
    split at he
    · rename_i id hp
      exact ⟨id, hp⟩
    · cases he
  simp only [toRead, hp] at he
  -- the read, then one poll for each envelope of the ring
  have hread : t.step ops rfc3339 (.poll now) = some { t with phase := .replaying (t.ring id) } := by
    simp only [step, poll, hp]
    rfl
  obtain ⟨t', hrest, hlines⟩ := run_replaying ops rfc3339 replayCapacity now
    (t := { t with phase := .replaying (t.ring id) }) rfl
  refine ⟨(t.ring id).length + 1, fun hall => ?_⟩
  have hend : (machine ops rfc3339 replayCapacity).run
      (machine ops rfc3339 replayCapacity).init
      (as ++ List.replicate ((t.ring id).length + 1) (.poll now)) = some t' := by
    rw [Machine.run_append hrun, List.replicate_succ]
    exact Machine.run_cons.mpr ⟨_, hread, hrest⟩
  -- the envelope that does not match has its line in the body
  obtain ⟨line, hmem, hline⟩ := hlines e he
  exact hne ((matches_ndjsonEventLine hline).mp (hall.last hend line hmem))

end EventsStream

/-! ### Accepted requests -/

/-- The filter of the pattern, if it has one, is true of the payload. -/
def TopicPattern.accepts {ρ : Type} (p : TopicPattern ρ) (payload : Json) : Bool :=
  match p.filter with
  | none => true
  | some q => match q.matches payload with
    | .ok b => b
    | .error _ => false

namespace EventsRequest

variable {ρ κ : Type} [DecidableEq κ]

/-- If the action reads the cache, every envelope it finds has the path of the request's topic as
its own topic, and its payload passes the filter. -/
def RingFits (req : EventsRequest ρ) (t : EventsStream Json (TopicPattern ρ)) :
    StreamAction Json (TopicPattern ρ) → Prop
  | .poll _ => ∀ e ∈ t.toRead,
      e.topic = (TopicPattern.splitSuffix req.pattern.raw).1 ∧ req.pattern.accepts e.data = true
  | _ => True

instance (req : EventsRequest ρ) (t : EventsStream Json (TopicPattern ρ)) :
    ∀ a, Decidable (req.RingFits t a)
  | .poll _ => inferInstanceAs (Decidable (∀ e ∈ t.toRead, _))
  | .bus _ | .subscribe _ _ _ _ | .disconnect => isTrue True.intro

/-- What an accepted request for a replay subscribes with: a pattern of four literals, and the
stream that three of them name. -/
theorem replay_of_accepted {ops : TopicOps ρ} {q : EventsQuery} {req : EventsRequest ρ}
    (hreplay : q.replay = true) (h : serverEventsStream ops q = .ok req) :
    TopicPattern.parse ops req.pattern.raw = .ok req.pattern ∧ req.opts.limit = none ∧
      ∃ node kind resource stream,
        req.pattern.segments = [node, kind, resource, stream].map .literal ∧
        req.replayStreamId = some (.forResource ⟨node⟩ resource stream) := by
  unfold serverEventsStream at h
  split at h
  · cases h
  rename_i topic htopic
  split at h
  · cases h
  rename_i pattern hparse
  split at h
  · cases h
  rename_i id hid
  split at h
  · cases h
  rename_i opts hopts
  cases h
  -- the accepted pattern is the one that was parsed
  have hraw := (TopicPattern.parse_eq_ok_iff.mp hparse).2.2.2
  refine ⟨by rw [hraw]; exact hparse, ?_, ?_⟩
  · simp only [subscribeOptsFromQuery] at hopts
    split at hopts
    · cases hopts
      rfl
    · cases hopts
  · simp only [replayStreamIdFromQuery, hreplay, if_true] at hid
    split at hid
    · rename_i streamId hstream
      cases hid
      unfold streamIdFromConcretePattern at hstream
      -- a replay needs a topic of four literal segments
      split at hstream
      · rename_i node kind resource stream hsegs
        split at hstream
        · cases hstream
        · exact ⟨node, kind, resource, stream, hsegs, hstream.symm⟩
      · cases hstream
    · cases hid

omit [DecidableEq κ] in
/-- What an accepted request matches, said of the text of its topic. -/
theorem matches_iff_of_accepted {ops : TopicOps ρ} {q : EventsQuery} {req : EventsRequest ρ}
    (extractKey : EventEnvelope Json → FieldPath → Option κ)
    (serializedSize : EventEnvelope Json → ℕ) (hreplay : q.replay = true)
    (h : serverEventsStream ops q = .ok req) (e : EventEnvelope Json) :
    (TopicPattern.busOps ops extractKey serializedSize).Matches req.pattern e ↔
      e.topic = (TopicPattern.splitSuffix req.pattern.raw).1 ∧
        req.pattern.accepts e.data = true := by
  obtain ⟨hparse, -, node, kind, resource, stream, htexts, -⟩ := replay_of_accepted hreplay h
  have hmatch : (TopicPattern.busOps ops extractKey serializedSize).Matches req.pattern e ↔
      req.pattern.matchesTopic ops e.topic = true ∧ req.pattern.accepts e.data = true :=
    Bool.and_eq_true_iff
  rw [hmatch, TopicPattern.matchesTopic_of_literals hparse htexts]

omit [DecidableEq κ] in
/-- The ring fits the request when its pattern matches the ring. -/
theorem ringFits_iff_of_accepted {ops : TopicOps ρ} {q : EventsQuery} {req : EventsRequest ρ}
    (extractKey : EventEnvelope Json → FieldPath → Option κ)
    (serializedSize : EventEnvelope Json → ℕ) (hreplay : q.replay = true)
    (h : serverEventsStream ops q = .ok req) (t : EventsStream Json (TopicPattern ρ))
    (a : StreamAction Json (TopicPattern ρ)) : req.RingFits t a ↔
      t.RingMatches (TopicPattern.busOps ops extractKey serializedSize) req.pattern a := by
  cases a with
  | poll now =>
    exact forall₂_congr fun e _ =>
      (matches_iff_of_accepted extractKey serializedSize hreplay h e).symm
  | bus a => exact Iff.rfl
  | subscribe topic capacity policy id => exact Iff.rfl
  | disconnect => exact Iff.rfl

/-- **A replayed stream honours the pattern of its request when the ring does.**  In every run of an
accepted request whose read of the cache finds only envelopes of the requested topic that pass the
filter, every event line matches the pattern.  If the read finds another one, the run goes on to a
line that does not match. -/
theorem replay_honours_pattern_iff (ops : TopicOps ρ)
    (extractKey : EventEnvelope Json → FieldPath → Option κ)
    (serializedSize : EventEnvelope Json → ℕ) (rfc3339 : OffsetDateTime → Option String)
    (replayCapacity : ℕ) (q : EventsQuery) (req : EventsRequest ρ) (hreplay : q.replay = true)
    (h : serverEventsStream ops q = .ok req) (as : List (StreamAction Json (TopicPattern ρ)))
    (has : ∀ a ∈ as, req.Serves a) :
    let bus := TopicPattern.busOps ops extractKey serializedSize
    let M := EventsStream.machine bus rfc3339 replayCapacity
    (M.StepsMeet req.RingFits M.init as →
      M.StatesMeet (EventsStream.LinesMatch bus req.pattern) M.init as) ∧
    ∀ t now, M.run M.init as = some t → ¬ req.RingFits t (.poll now) →
      ∃ bs, (∀ a ∈ bs, req.Serves a) ∧
        ¬ M.StatesMeet (EventsStream.LinesMatch bus req.pattern) M.init (as ++ bs) := by
  intro bus M
  have hfits := ringFits_iff_of_accepted extractKey serializedSize hreplay h
  -- on the accepted topic the two conditions are one
  constructor
  · intro hsteps
    refine EventsStream.linesMatch_of_ringMatches bus rfc3339 replayCapacity req.pattern ?_ ?_
    · intro a ha topic capacity policy id heq
      have hserves := has a ha topic capacity policy id heq
      rw [heq] at hserves
      exact (StreamAction.subscribe.inj hserves).1
    · exact hsteps.imp fun t a => (hfits t a).mp
  · intro t now hrun hnot
    rw [hfits] at hnot
    -- every envelope of the ring is shown, so the run goes on to the bad one
    obtain ⟨n, hn⟩ := EventsStream.not_linesMatch_of_ring bus rfc3339 replayCapacity req.pattern
      hrun hnot
    refine ⟨List.replicate n (.poll now), fun a ha => ?_, hn⟩
    rw [List.eq_of_mem_replicate ha]
    rintro _ _ _ _ ⟨⟩

/-! ### A cached job event -/

/-- A bus of JSON events, without size limit or coalesce keys. -/
abbrev jsonBus : BusOps Json (TopicPattern Empty) Unit :=
  TopicPattern.busOps .plain (fun _ _ => none) fun _ => 0

/-- The first progress event of a job. -/
def jobProgress : EventEnvelope Json where
  eventId := ⟨"bw://hub/resources/job-1/streams/progress-1"⟩
  nodeId := ⟨"hub"⟩
  resourceId := "job-1"
  resourceKind := "job"
  streamId := .forResource ⟨"hub"⟩ "job-1" "progress"
  stream := "progress"
  sequence := 1
  payloadKind := "progress"
  data := .object [("pct", .number (.posInt 40))]

/-- The event is published, and then the request is served up to its first line. -/
def replayRun (req : EventsRequest Empty) : List (StreamAction Json (TopicPattern Empty)) :=
  [.bus (.publish jobProgress), .bus (.advance 0), .bus (.advance 0), .bus (.advance 0),
    .bus (.advance 0), req.subscribe, .poll 0, .poll 0]

theorem serves_replayRun (req : EventsRequest Empty) : ∀ a ∈ replayRun req, req.Serves a := by
  intro a ha topic capacity policy id heq
  simp only [replayRun, List.mem_cons, List.not_mem_nil, or_false] at ha
  rcases ha with rfl | rfl | rfl | rfl | rfl | rfl | rfl | rfl
  case inr.inr.inr.inr.inr.inl => rfl
  all_goals cases heq

/-- The machine of the request, on the server's ring. -/
abbrev jsonStream : Machine (EventsStream Json (TopicPattern Empty))
    (StreamAction Json (TopicPattern Empty)) :=
  EventsStream.machine jsonBus (fun _ => none) DEFAULT_REPLAY_CAPACITY

/-- A request that is accepted and has a property. -/
theorem accepted_of_check (q : EventsQuery) (check : EventsRequest Empty → Bool)
    (h : (match serverEventsStream .plain q with
      | .ok req => check req
      | .error _ => false) = true) :
    ∃ req, serverEventsStream .plain q = .ok req ∧ check req = true := by
  split at h
  · rename_i req hreq
    exact ⟨req, hreq, h⟩
  · cases h

/-- A request for the kind of the job, with a filter that the event passes. -/
theorem replay_honours_pattern_filtered : ∃ (req : EventsRequest Empty)
    (t : EventsStream Json (TopicPattern Empty)),
    serverEventsStream .plain
      { topic := some "hub/job/job-1/progress?ql=where pct > 30", replay := true } = .ok req ∧
    jsonStream.run jsonStream.init (replayRun req) = some t ∧ t.body.length = 1 ∧
    jsonStream.StatesMeet (EventsStream.LinesMatch jsonBus req.pattern) jsonStream.init
      (replayRun req) := by
  obtain ⟨req, hreq, hcheck⟩ := accepted_of_check
    { topic := some "hub/job/job-1/progress?ql=where pct > 30", replay := true }
    (fun req => decide (jsonStream.StepsMeet req.RingFits jsonStream.init (replayRun req)) &&
      ((jsonStream.run jsonStream.init (replayRun req)).map (·.body.length) == some 1))
    (by decide +kernel)
  rw [Bool.and_eq_true, decide_eq_true_eq, beq_iff_eq] at hcheck
  obtain ⟨t, hrun, hlen⟩ := Option.map_eq_some_iff.mp hcheck.2
  refine ⟨req, t, hreq, hrun, hlen, ?_⟩
  exact (replay_honours_pattern_iff .plain (fun _ _ => none) (fun _ => 0) (fun _ => none)
    DEFAULT_REPLAY_CAPACITY _ req rfl hreq (replayRun req) (serves_replayRun req)).1 hcheck.1

/-- The request for the topic is served a line that does not match its pattern. -/
def ShowsOther (topic : String) : Prop :=
  ∃ (req : EventsRequest Empty) (t : EventsStream Json (TopicPattern Empty)),
    serverEventsStream .plain { topic := some topic, replay := true } = .ok req ∧
    (∀ a ∈ replayRun req, req.Serves a) ∧
    jsonStream.run jsonStream.init (replayRun req) = some t ∧
    ¬ t.LinesMatch jsonBus req.pattern

theorem showsOther_of_check {topic : String}
    (h : (match serverEventsStream .plain { topic := some topic, replay := true } with
      | .ok req => (jsonStream.run jsonStream.init (replayRun req)).any fun t =>
          !decide (t.LinesMatch jsonBus req.pattern)
      | .error _ => false) = true) : ShowsOther topic := by
  obtain ⟨req, hreq, hrun⟩ := accepted_of_check _ _ h
  obtain ⟨t, ht, hlines⟩ := (Option.any_eq_true _ _).mp hrun
  rw [Bool.not_eq_true', decide_eq_false_iff_not] at hlines
  exact ⟨req, t, hreq, serves_replayRun req, ht, hlines⟩

/-- **The ring is not filtered**: a request for another kind, and one whose filter the event does
not pass, are both shown the event. -/
theorem replay_ignores_kind_and_filter : ShowsOther "hub/lamp/job-1/progress" ∧
    ShowsOther "hub/job/job-1/progress?ql=where pct > 50" :=
  ⟨showsOther_of_check (by decide +kernel), showsOther_of_check (by decide +kernel)⟩

end EventsRequest

end Boardwalk
