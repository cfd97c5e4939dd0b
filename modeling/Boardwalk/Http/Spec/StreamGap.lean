import Boardwalk.Http.EventsStream
import Boardwalk.Http.Spec.LocalForwarder

/-!
# What a `stream-gap` tells the client

A `stream-gap` that carries `lastDeliveredSequence = n` is truthful when the envelope with sequence
`n`, and every envelope of its stream that the bus enqueued before it, was handed to the client side
before.  The bus records the position when it enqueues, and both transports poll the notice before
the queue.  So a notice can overtake the envelopes that are still queued, and in the WebSocket
forwarder also the one in its hand.

`streamGap_truthful` is the condition under which the gap is truthful in both transports: when the
gap is reported, the envelope it names is not still waiting.  In the NDJSON stream a waiting
envelope does no harm if it was replayed, and so were those of its stream that wait before it.
-/

namespace Boardwalk

/-- The position a notice carries. -/
def SlowConsumerNotice.position (n : SlowConsumerNotice) : Option (StreamId × UInt64) :=
  match n.streamId, n.lastDeliveredSequence with
  | some s, some q => some (s, q)
  | _, _ => none

theorem SlowConsumerNotice.position_eq_some {n : SlowConsumerNotice} {pos : StreamId × UInt64} :
    n.position = some pos ↔ n.streamId = some pos.1 ∧ n.lastDeliveredSequence = some pos.2 := by
  unfold position
  cases n.streamId <;> cases n.lastDeliveredSequence <;> simp [Prod.ext_iff]

section Truth

variable {δ : Type}

/-- The notice `n`, reported when the bus had enqueued `enq`, tells the truth: the envelope it names
was handed over, and so was every envelope of the stream that was enqueued before it. -/
def GapTruthful (handed : EventEnvelope δ → Prop) (n : SlowConsumerNotice)
    (enq : List (EventEnvelope δ)) : Prop :=
  ∀ pos ∈ n.position, (∃ e ∈ enq, e.position = pos ∧ handed e) ∧
    ∀ pre e post, enq = pre ++ e :: post → e.position = pos →
      ∀ e' ∈ pre ++ [e], e'.streamId = pos.1 → handed e'

theorem GapTruthful.mono {handed handed' : EventEnvelope δ → Prop} {n : SlowConsumerNotice}
    {enq : List (EventEnvelope δ)} (h : GapTruthful handed n enq)
    (himp : ∀ e, handed e → handed' e) : GapTruthful handed' n enq := by
  intro pos hpos
  obtain ⟨⟨e, he, hp, hh⟩, hrest⟩ := h pos hpos
  exact ⟨⟨e, he, hp, himp e hh⟩, fun pre e post heq hp e' he' hs =>
    himp e' (hrest pre e post heq hp e' he' hs)⟩

/-- Every envelope of the stream of `pos` that stands at or before one at `pos` is covered. -/
def CoveredUpTo (pos : StreamId × UInt64) (covered : EventEnvelope δ → Prop) :
    List (EventEnvelope δ) → Prop
  | [] => True
  | e :: rest => ((∃ e' ∈ e :: rest, e'.position = pos) → e.streamId = pos.1 → covered e) ∧
      CoveredUpTo pos covered rest

instance CoveredUpTo.decidable (pos : StreamId × UInt64) (covered : EventEnvelope δ → Prop)
    [DecidablePred covered] : ∀ l, Decidable (CoveredUpTo pos covered l)
  | [] => isTrue True.intro
  | e :: rest =>
    have := CoveredUpTo.decidable pos covered rest
    inferInstanceAs (Decidable (((∃ e' ∈ e :: rest, _) → _) ∧ _))

theorem CoveredUpTo.append {pos : StreamId × UInt64} {covered : EventEnvelope δ → Prop}
    {l l' : List (EventEnvelope δ)} (h : ∀ e ∈ l, covered e) (h' : CoveredUpTo pos covered l') :
    CoveredUpTo pos covered (l ++ l') := by
  induction l with
  | nil => exact h'
  | cons e l ih =>
    exact ⟨fun _ _ => h e List.mem_cons_self, ih fun e he => h e (List.mem_cons_of_mem _ he)⟩

theorem CoveredUpTo.mono {pos : StreamId × UInt64} {covered covered' : EventEnvelope δ → Prop}
    {l : List (EventEnvelope δ)} (h : CoveredUpTo pos covered l)
    (himp : ∀ e, covered e → covered' e) : CoveredUpTo pos covered' l := by
  induction l with
  | nil => exact True.intro
  | cons e l ih => exact ⟨fun hex hs => himp e (h.1 hex hs), ih h.2⟩

/-- An envelope named nowhere in the list covers the list. -/
theorem coveredUpTo_of_ne {pos : StreamId × UInt64} {covered : EventEnvelope δ → Prop}
    {l : List (EventEnvelope δ)} (h : ∀ e ∈ l, e.position ≠ pos) : CoveredUpTo pos covered l := by
  induction l with
  | nil => exact True.intro
  | cons e l ih =>
    refine ⟨?_, ih fun e he => h e (List.mem_cons_of_mem _ he)⟩
    rintro ⟨e', he', hp⟩
    exact absurd hp (h e' he')

/-- What is covered up to a position is covered in the part of the queue that ends there. -/
theorem CoveredUpTo.split {pos : StreamId × UInt64} {covered : EventEnvelope δ → Prop}
    {pre post : List (EventEnvelope δ)} {e : EventEnvelope δ}
    (h : CoveredUpTo pos covered (pre ++ e :: post)) (hp : e.position = pos) :
    ∀ e' ∈ pre ++ [e], e'.streamId = pos.1 → covered e' := by
  induction pre with
  | nil =>
    intro e' he' hs
    obtain rfl := List.mem_singleton.mp he'
    exact h.1 ⟨e', List.mem_cons_self, hp⟩ hs
  | cons x pre ih =>
    intro e' he' hs
    rcases List.mem_cons.mp he' with rfl | hmem
    · exact h.1 ⟨e, by simp, hp⟩ hs
    · exact ih h.2 e' hmem hs

/-- **A gap is truthful** when what was taken from the queue was handed over, what still waits is
covered up to the named envelope, and that envelope was enqueued. -/
theorem gapTruthful_of_covered {handed : EventEnvelope δ → Prop} {n : SlowConsumerNotice}
    {taken waiting : List (EventEnvelope δ)} (htaken : ∀ e ∈ taken, handed e)
    (hwaiting : ∀ pos ∈ n.position, CoveredUpTo pos handed waiting)
    (hnamed : ∀ pos ∈ n.position, ∃ e ∈ taken ++ waiting, e.position = pos) :
    GapTruthful handed n (taken ++ waiting) := by
  intro pos hpos
  have hcov : CoveredUpTo pos handed (taken ++ waiting) := .append htaken (hwaiting pos hpos)
  have hsplit : ∀ pre e post, taken ++ waiting = pre ++ e :: post → e.position = pos →
      ∀ e' ∈ pre ++ [e], e'.streamId = pos.1 → handed e' := by
    intro pre e post heq hp
    rw [heq] at hcov
    exact hcov.split hp
  obtain ⟨e, he, hp⟩ := hnamed pos hpos
  obtain ⟨pre, post, heq⟩ := List.append_of_mem he
  have hstream : e.streamId = pos.1 := by rw [← hp]; rfl
  exact ⟨⟨e, he, hp, hsplit pre e post heq hp e (by simp) hstream⟩, hsplit⟩

end Truth

/-! ### The WebSocket forwarder -/

/-- The forwarder is at a select's notice. -/
def LocalForwarder.atNotice {δ : Type} (f : LocalForwarder δ) : Bool :=
  match f.phase with
  | .outerNotice | .innerNotice _ => true
  | _ => false

namespace WsConn

variable {δ τ κ : Type} [DecidableEq κ]

/-- If the action reports a gap, the envelope it names is neither in the queue nor in hand. -/
def ReportsInOrder (w : WsConn δ τ) : WsAction δ τ → Prop
  | .poll _ => ∀ f ∈ w.fwd, f.atNotice = true → f.slowTerminated = false →
      w.terminal.rxAlive = true → w.terminal.hasRoom = true →
      ∀ n ∈ (w.bus.notify f.sub).get?, ∀ pos ∈ n.position,
        ∀ e ∈ f.inHand ++ (w.bus.mpsc f.sub).buf, e.position ≠ pos
  | _ => True

instance (w : WsConn δ τ) : ∀ a, Decidable (ReportsInOrder w a)
  | .poll _ => inferInstanceAs (Decidable (∀ f ∈ w.fwd, _))
  | .bus _ | .subscribe _ _ _ _ | .control _ | .write | .close => isTrue True.intro

/-- Every reported gap is truthful. -/
def GapsTruthful (w : WsConn δ τ) : Prop :=
  ∀ f n enq, w.fwd = some f → f.gap = some (n, enq) → GapTruthful (· ∈ f.sent) n enq

section Gap

variable {w w' : WsConn δ τ} {f : LocalForwarder δ} {ops : BusOps δ τ κ}
  {rfc3339 : OffsetDateTime → Option String} {a : WsAction δ τ}

/-- A notice reported when the envelope it names is no longer in the queue is truthful. -/
theorem gapTruthful_report (hf : FwdSound w f) (hnotice : f.atNotice = true)
    (hopen : f.slowTerminated = false) {n : SlowConsumerNotice}
    (hn : w.bus.notify f.sub = .sent n)
    (horder : ∀ pos ∈ n.position, ∀ e ∈ f.inHand ++ (w.bus.mpsc f.sub).buf, e.position ≠ pos) :
    GapTruthful (· ∈ f.sent) n (w.bus.mpsc f.sub).enqueued := by
  have hrun : ¬ f.Ended := by
    unfold LocalForwarder.atNotice at hnotice
    unfold LocalForwarder.Ended
    split at hnotice <;> simp_all
  -- a running forwarder whose `slow_fut` is open has lost nothing
  have henq : (w.bus.mpsc f.sub).enqueued = f.sent ++ (f.inHand ++ (w.bus.mpsc f.sub).buf) := by
    rw [Mpsc.enqueued, hf.inOrder (hf.nothingLost hrun hopen), List.append_assoc]
  rw [henq]
  refine gapTruthful_of_covered (fun e he => he)
    (fun pos hpos => coveredUpTo_of_ne (horder pos hpos)) fun pos hpos => ?_
  obtain ⟨hs, hq⟩ := SlowConsumerNotice.position_eq_some.mp hpos
  rw [← henq]
  exact hf.names.notice n hn pos.1 pos.2 hs hq

theorem gapsTruthful_step (hw : FwdInv w) (hG : ReportsInOrder w a) (hP : GapsTruthful w)
    (hs : step ops rfc3339 w a = some w') : GapsTruthful w' := by
  -- only a poll at the notice makes a gap
  cases a with
  | bus a =>
    obtain ⟨-, bus, -, rfl⟩ := step_bus hs
    exact hP
  | subscribe appId topic limit outboundCapacity =>
    obtain ⟨-, bus, -, rfl⟩ := step_subscribe hs
    intro f n enq hf hgap
    obtain ⟨sub, -, rfl⟩ := Option.map_eq_some_iff.mp hf
    cases hgap
  | poll now =>
    obtain ⟨f, hf, hp⟩ := Option.bind_eq_some_iff.mp hs
    intro f' n enq hf' hgap
    -- the gap that was reported stays true while more is sent
    cases poll_effect hp with
    | wait phase next => subst next; cases hf'; exact hP f n enq hf hgap
    | seen _ _ next => subst next; cases hf'; exact hP f n enq hf hgap
    | take env bus _ recv next => subst next; cases hf'; exact hP f n enq hf hgap
    | send env out _ sent next =>
      subst next
      cases hf'
      exact (hP f n enq hf hgap).mono fun e he => List.mem_append_left _ he
    | drop env _ _ _ next => subst next; cases hf'; exact hP f n enq hf hgap
    | gap now' n' at_notice open_ fired next =>
      subst next
      obtain ⟨gap, hfwd, hcases, -⟩ := emitGap_cases w { f with lost := f.lost ++ f.inHand } now' n'
      rw [hfwd] at hf'
      obtain rfl := Option.some.inj hf'
      -- the gap was already there, or is made now
      rcases hcases with rfl | ⟨rfl, hrx, hroom⟩
      · exact hP f n enq hf hgap
      · obtain ⟨rfl, rfl⟩ : n' = n ∧ (w.bus.mpsc f.sub).enqueued = enq := by
          simpa [Prod.ext_iff] using hgap
        -- at a notice, so the condition says that the report is in order
        have hat : f.atNotice = true := by
          rcases at_notice with h | ⟨env, h⟩ <;> simp [LocalForwarder.atNotice, h]
        exact gapTruthful_report (hw.sound f hf) hat open_ fired
          (hG f hf hat open_ hrx hroom n' (Oneshot.get?_eq_some.mpr fired))
    | hangup env _ _ next => subst next; cases hf'; exact hP f n enq hf hgap
    | finish _ _ _ next => subst next; cases hf'; exact hP f n enq hf hgap
    | report _ next => subst next; cases hf'; exact hP f n enq hf hgap
    | dropRx _ next => subst next; cases hf'; exact hP f n enq hf hgap
  | control msg => obtain rfl := Option.some.inj hs; exact hP
  | write =>
    obtain ⟨out, terminal, rfl, -⟩ := step_write hs
    exact hP
  | close => obtain rfl := Option.some.inj hs; exact hP

end Gap

/-- Over a run whose steps all report in order, every notice on the socket is truthful. -/
theorem gapsTruthful_of_reportsInOrder (ops : BusOps δ τ κ)
    (rfc3339 : OffsetDateTime → Option String) (replayCapacity : ℕ) (as : List (WsAction δ τ))
    (h : (machine ops rfc3339 replayCapacity).StepsMeet ReportsInOrder
      (machine ops rfc3339 replayCapacity).init as) :
    (machine ops rfc3339 replayCapacity).StatesMeet GapsTruthful
      (machine ops rfc3339 replayCapacity).init as := by
  have hall : (machine ops rfc3339 replayCapacity).StatesMeet (fun w => FwdInv w ∧ GapsTruthful w)
      (machine ops rfc3339 replayCapacity).init as := by
    refine Machine.statesMeet_of_stepsMeet ?_ ?_ h
    · rintro w a w' ⟨hw, hP⟩ hG hs
      exact ⟨fwdInv_step hw hs, gapsTruthful_step hw hG hP hs⟩
    · exact ⟨fwdInv_init ops rfc3339 replayCapacity, fun f n enq hf => by cases hf⟩
  exact hall.mono fun _ h => h.2

end WsConn

/-! ### The NDJSON stream -/

namespace EventsStream

variable {δ τ κ : Type} [DecidableEq κ]

/-- The stream is at the notice of its select. -/
def atNotice (t : EventsStream δ τ) : Bool :=
  match t.phase with
  | .notice => true
  | _ => false

/-- A line with the id of `e` was yielded. -/
def HandedById (t : EventsStream δ τ) (e : EventEnvelope δ) : Prop :=
  ∃ h ∈ t.handed, h.eventId = e.eventId

/-- If the action reports a gap, every envelope of the stream that waits in the queue at or before
the one it names was replayed. -/
def ReportsInOrder (t : EventsStream δ τ) : StreamAction δ τ → Prop
  | .poll _ => t.atNotice = true → ∀ n ∈ (t.bus.notify t.sub).get?, ∀ pos ∈ n.position,
      CoveredUpTo pos (fun e => e.eventId ∈ t.replayedEventIds) (t.bus.mpsc t.sub).buf
  | _ => True

instance (t : EventsStream δ τ) : ∀ a, Decidable (ReportsInOrder t a)
  | .poll _ => inferInstanceAs (Decidable (_ → ∀ n ∈ (t.bus.notify t.sub).get?, _))
  | .bus _ | .subscribe _ _ _ _ | .disconnect => isTrue True.intro

/-- Every reported gap of a `Disconnect` subscription is truthful. -/
def GapsTruthful (t : EventsStream δ τ) : Prop :=
  t.opts.slowConsumerPolicy = .disconnect →
    ∀ n enq, t.gap = some (n, enq) → GapTruthful t.HandedById n enq

/-- What was taken from the queue or replayed was handed over. -/
structure StreamSound (t : EventsStream δ τ) : Prop where
  opts : (t.bus.hist t.sub).opts = some t.opts
  names : t.opts.slowConsumerPolicy = .disconnect → t.bus.NamesEnqueued t.sub
  taken : t.opts.slowConsumerPolicy = .disconnect →
    ∀ e ∈ (t.bus.mpsc t.sub).received, t.HandedById e
  replayed : ∀ id ∈ t.replayedEventIds, ∃ h ∈ t.handed, h.eventId = id

structure StreamInv (t : EventsStream δ τ) : Prop where
  wellFormed : t.bus.WellFormed
  idle : t.phase = .idle → t.replayedEventIds = [] ∧ t.gap = none
  sound : t.active = true → StreamSound t

theorem streamInv_init (ops : BusOps δ τ κ) (rfc3339 : OffsetDateTime → Option String)
    (replayCapacity : ℕ) : StreamInv (machine ops rfc3339 replayCapacity).init where
  wellFormed := Bus.wellFormed_init ops replayCapacity
  idle _ := ⟨rfl, rfl⟩
  sound h := by cases h

section Steps

variable {t t' : EventsStream δ τ} {ops : BusOps δ τ κ} {bus : Bus δ τ}
  {rfc3339 : OffsetDateTime → Option String}

theorem step_bus {a : BusAction δ τ} (hs : step ops rfc3339 t (.bus a) = some t') :
    t.othersMay a = true ∧ ∃ bus, t.bus.step ops a = some bus ∧ t' = { t with bus } := by
  simp only [step] at hs
  split at hs
  · rename_i hmay
    obtain ⟨bus, hbus, rfl⟩ := Option.map_eq_some_iff.mp hs
    exact ⟨hmay, bus, hbus, rfl⟩
  · cases hs

theorem StreamSound.bus_step {a : BusAction δ τ} (hb : t.bus.WellFormed) (ht : StreamSound t)
    (ha : a ≠ .recv t.sub) (hs : t.bus.step ops a = some bus) :
    StreamSound { t with bus } := by
  have hne : t.sub ≠ t.bus.nextId := (hb.lt_nextId_of_opts ht.opts).ne
  refine ⟨hb.opts_step ht.opts hs, fun hpol => ?_, fun hpol => ?_, ht.replayed⟩
  · exact Bus.namesEnqueued_step hb ht.opts (by rw [hpol]; rfl) (ht.names hpol) hs
  · rw [Bus.received_of_step hne ha hs]
    exact ht.taken hpol

/-- A later phase with the same data. -/
theorem StreamSound.phase (ht : StreamSound t) (phase : StreamPhase δ) (started : Bool) :
    StreamSound { t with phase, started } := ⟨ht.opts, ht.names, ht.taken, ht.replayed⟩

/-- Yielding a line only adds to what was handed over. -/
theorem StreamSound.yieldEvent (ht : StreamSound t) (ev : EventEnvelope δ) :
    StreamSound (t.yieldEvent rfc3339 ev) := by
  obtain ⟨line, heq⟩ : ∃ line, t.yieldEvent rfc3339 ev =
      { t with body := t.body ++ [line], handed := t.handed ++ [ev] } := ⟨_, rfl⟩
  rw [heq]
  refine ⟨ht.opts, ht.names, fun hpol e he => ?_, fun id hid => ?_⟩
  · obtain ⟨h, hh, hid⟩ := ht.taken hpol e he
    exact ⟨h, List.mem_append_left _ hh, hid⟩
  · obtain ⟨h, hh, hid⟩ := ht.replayed id hid
    exact ⟨h, List.mem_append_left _ hh, hid⟩

/-- A replayed envelope is remembered by its id and yielded. -/
theorem StreamSound.replay (ht : StreamSound t) (ev : EventEnvelope δ)
    (rest : List (EventEnvelope δ)) :
    StreamSound ({ t with
      phase := .replaying rest
      started := true
      replayedEventIds := t.replayedEventIds.insert ev.eventId }.yieldEvent rfc3339 ev) := by
  have hy :
      StreamSound ({ t with phase := .replaying rest, started := true }.yieldEvent rfc3339 ev) :=
    (ht.phase (.replaying rest) true).yieldEvent ev
  refine ⟨hy.opts, hy.names, hy.taken, fun id hid => ?_⟩
  rcases List.mem_insert_iff.mp hid with rfl | hold
  · exact ⟨ev, List.mem_append_right _ List.mem_cons_self, rfl⟩
  · exact hy.replayed id hold

/-- An envelope is taken from the queue: it was replayed, or it is yielded now. -/
theorem StreamSound.recv {ev : EventEnvelope δ} (hb : t.bus.WellFormed) (ht : StreamSound t)
    (hr : t.bus.recv t.sub = some (ev, bus)) (hstep : t.bus.step ops (.recv t.sub) = some bus)
    (t' : EventsStream δ τ) (hbus : t'.bus = bus) (hsub : t'.sub = t.sub) (hopts : t'.opts = t.opts)
    (hids : ∀ id ∈ t'.replayedEventIds, id ∈ t.replayedEventIds)
    (hhanded : ∀ h ∈ t.handed, h ∈ t'.handed) (hev : t'.HandedById ev) : StreamSound t' := by
  -- one envelope was taken, and it is handed over or was replayed
  refine ⟨?_, fun hpol => ?_, fun hpol e he => ?_, fun id hid => ?_⟩
  · rw [hbus, hsub, hopts]
    exact hb.opts_step ht.opts hstep
  · rw [hopts] at hpol
    rw [hbus, hsub]
    exact Bus.namesEnqueued_step hb ht.opts (by rw [hpol]; rfl) (ht.names hpol) hstep
  · rw [hopts] at hpol
    -- what is received now is `ev`
    obtain ⟨q, hq, rfl⟩ := Bus.recv_mpsc ht.opts (by rw [hpol]; rfl) hr
    rw [hbus, hsub] at he
    simp only [Bus.setMpsc, Function.update_self, (Mpsc.recv_some hq).2.1] at he
    rcases List.mem_append.mp he with hold | hnew
    · obtain ⟨h, hh, hid⟩ := ht.taken hpol e hold
      exact ⟨h, hhanded h hh, hid⟩
    · obtain rfl := List.mem_singleton.mp hnew
      exact hev
  · obtain ⟨h, hh, hid'⟩ := ht.replayed id (hids id hid)
    exact ⟨h, hhanded h hh, hid'⟩

theorem streamInv_poll {now : ℤ} (ht : StreamInv t) (hs : t.poll ops rfc3339 now = some t') :
    StreamInv t' := by
  -- every phase but the first and the last has a subscription
  have hsound : ∀ {p : StreamPhase δ}, t.phase = p → p ≠ .idle → p ≠ .done → StreamSound t := by
    intro p hp hidle hdone
    refine ht.sound ?_
    unfold active
    split <;> simp_all
  unfold poll at hs
  -- one case for each phase, in the order of the source
  split at hs
  case h_1 => cases hs
  case h_2 hp =>
    obtain rfl := Option.some.inj hs
    exact ⟨ht.wellFormed, by simp, fun _ => (hsound hp (by simp) (by simp)).phase _ _⟩
  case h_3 hp =>
    obtain rfl := Option.some.inj hs
    exact ⟨ht.wellFormed, by simp, fun _ => (hsound hp (by simp) (by simp)).phase _ _⟩
  case h_4 ev rest hp =>
    obtain rfl := Option.some.inj hs
    exact ⟨ht.wellFormed, by simp [yieldEvent, ndjsonEventLine],
      fun _ => (hsound hp (by simp) (by simp)).replay ev rest⟩
  case h_5 hp =>
    have hs' := hsound hp (by simp) (by simp)
    split at hs <;> obtain rfl := Option.some.inj hs
    · exact ⟨ht.wellFormed, by simp, fun _ => hs'.phase _ _⟩
    · exact ⟨ht.wellFormed, by simp [yieldGap],
        fun _ => ⟨hs'.opts, hs'.names, hs'.taken, hs'.replayed⟩⟩
    · exact ⟨ht.wellFormed, by simp, fun _ => hs'.phase _ _⟩
  case h_6 hp =>
    have hs' := hsound hp (by simp) (by simp)
    split at hs
    · rename_i ev bus hr
      have hstep : t.bus.step ops (.recv t.sub) = some bus := by simp [Bus.step, hr]
      have hwf := Bus.wellFormed_step ht.wellFormed hstep
      -- skipped when it was replayed, yielded otherwise
      split at hs <;> obtain rfl := Option.some.inj hs
      · rename_i hmem
        refine ⟨hwf, by simp, fun _ => hs'.recv ht.wellFormed hr hstep _ rfl rfl rfl
          (fun id hid => List.mem_of_mem_erase hid) (fun h hh => hh) ?_⟩
        exact hs'.replayed ev.eventId hmem
      · refine ⟨hwf, by simp [yieldEvent, ndjsonEventLine], fun _ =>
          hs'.recv ht.wellFormed hr hstep _ rfl rfl rfl (fun id hid => hid)
            (fun h hh => List.mem_append_left _ hh) ?_⟩
        exact ⟨ev, List.mem_append_right _ List.mem_cons_self, rfl⟩
    · split at hs <;> obtain rfl := Option.some.inj hs <;>
        exact ⟨ht.wellFormed, by simp, fun _ => hs'.phase _ _⟩
  case h_7 hp =>
    obtain ⟨bus, hbus, rfl⟩ := Option.map_eq_some_iff.mp hs
    exact ⟨Bus.wellFormed_step ht.wellFormed hbus, by simp, fun _ =>
      ((hsound hp (by simp) (by simp)).bus_step ht.wellFormed (by simp) hbus).phase _ _⟩
  case h_8 hp =>
    have hstep : t.bus.step ops (.dropRx t.sub) = some (t.bus.dropRx t.sub) := rfl
    obtain rfl := Option.some.inj hs
    exact ⟨Bus.wellFormed_step ht.wellFormed hstep, by simp, by simp [active]⟩
  case h_9 => cases hs

theorem othersMay_ne_recv {a : BusAction δ τ} (h : t.othersMay a = true) (ht : t.active = true) :
    a ≠ .recv t.sub := by
  rintro rfl
  simp [othersMay, ht] at h

theorem streamInv_step {a : StreamAction δ τ} (ht : StreamInv t)
    (hs : step ops rfc3339 t a = some t') : StreamInv t' := by
  cases a with
  | bus a =>
    obtain ⟨hmay, bus, hbus, rfl⟩ := step_bus hs
    exact ⟨Bus.wellFormed_step ht.wellFormed hbus, ht.idle, fun hact =>
      (ht.sound hact).bus_step ht.wellFormed (othersMay_ne_recv hmay hact) hbus⟩
  | subscribe topic outboundCapacity policy replayStreamId =>
    simp only [step] at hs
    split at hs
    · rename_i hidle
      obtain ⟨bus, hbus, rfl⟩ := Option.map_eq_some_iff.mp hs
      have hwf := Bus.wellFormed_step ht.wellFormed hbus
      -- the new subscription: enqueued nothing, received nothing
      split
      · rename_i hcreated
        refine ⟨hwf, by simp, fun _ => ?_⟩
        have hu := ht.wellFormed.untouched t.bus.nextId (Nat.le_refl _)
        obtain rfl := Bus.step_subscribe hbus
        rcases Bus.subscribe_cases t.bus topic _ hu with hu' | ⟨sub, -, -, hhist, -, henq⟩
        · rw [hu'.subs] at hcreated
          cases hcreated
        · -- nothing is enqueued yet, and an idle handler has replayed nothing
          rw [Mpsc.enqueued, List.append_eq_nil_iff] at henq
          refine ⟨by rw [hhist], fun _ => Bus.namesEnqueued_created ht.wellFormed topic _,
            fun _ e he => ?_, fun id hid => ?_⟩
          · rw [henq.1] at he; cases he
          · rw [(ht.idle hidle).1] at hid; cases hid
      · exact ⟨hwf, by simp, by simp [active]⟩
    · cases hs
  | poll now => exact streamInv_poll ht hs
  | disconnect =>
    simp only [step, disconnect] at hs
    split at hs
    · -- a body that was never polled makes no `UnsubOnDrop`
      rename_i rest hp
      obtain rfl := Option.some.inj hs
      refine ⟨ht.wellFormed, ?_, fun _ => (ht.sound (by simp [active, hp])).phase _ _⟩
      cases t.started <;> simp
    · rename_i hp
      obtain rfl := Option.some.inj hs
      exact ⟨ht.wellFormed, by simp, fun _ => (ht.sound (by simp [active, hp])).phase _ _⟩
    · rename_i hp
      obtain rfl := Option.some.inj hs
      exact ⟨ht.wellFormed, by simp, fun _ => (ht.sound (by simp [active, hp])).phase _ _⟩
    · cases hs

/-- A poll reports a gap at the select's notice, or it leaves `gap` and only adds to what was handed
over. -/
theorem gap_poll {now : ℤ} (hs : t.poll ops rfc3339 now = some t') :
    t'.gap = t.gap ∧ t'.opts = t.opts ∧ (∀ h ∈ t.handed, h ∈ t'.handed) ∨
      ∃ n, t.phase = .notice ∧ t.bus.notify t.sub = .sent n ∧
        t'.gap = some (n, (t.bus.mpsc t.sub).enqueued) ∧ t'.opts = t.opts ∧
        t'.handed = t.handed := by
  -- only a poll at the notice makes a gap
  unfold poll at hs
  split at hs
  case h_1 => cases hs
  case h_2 => obtain rfl := Option.some.inj hs; exact .inl ⟨rfl, rfl, fun _ => id⟩
  case h_3 => obtain rfl := Option.some.inj hs; exact .inl ⟨rfl, rfl, fun _ => id⟩
  case h_4 =>
    obtain rfl := Option.some.inj hs
    exact .inl ⟨rfl, rfl, fun _ => List.mem_append_left _⟩
  case h_5 hp =>
    split at hs <;> obtain rfl := Option.some.inj hs
    · exact .inl ⟨rfl, rfl, fun _ => id⟩
    · rename_i n hn
      exact .inr ⟨n, hp, hn, rfl, rfl, rfl⟩
    · exact .inl ⟨rfl, rfl, fun _ => id⟩
  case h_6 =>
    split at hs
    · split at hs <;> obtain rfl := Option.some.inj hs
      · exact .inl ⟨rfl, rfl, fun _ => id⟩
      · exact .inl ⟨rfl, rfl, fun _ => List.mem_append_left _⟩
    · split at hs <;> obtain rfl := Option.some.inj hs <;> exact .inl ⟨rfl, rfl, fun _ => id⟩
  case h_7 =>
    obtain ⟨bus, hbus, rfl⟩ := Option.map_eq_some_iff.mp hs
    exact .inl ⟨rfl, rfl, fun _ => id⟩
  case h_8 => obtain rfl := Option.some.inj hs; exact .inl ⟨rfl, rfl, fun _ => id⟩
  case h_9 => cases hs

theorem gapTruthful_report (ht : StreamSound t) (hpol : t.opts.slowConsumerPolicy = .disconnect)
    {n : SlowConsumerNotice} (hn : t.bus.notify t.sub = .sent n)
    (horder : ∀ pos ∈ n.position,
      CoveredUpTo pos (fun e => e.eventId ∈ t.replayedEventIds) (t.bus.mpsc t.sub).buf) :
    GapTruthful t.HandedById n (t.bus.mpsc t.sub).enqueued := by
  refine gapTruthful_of_covered (ht.taken hpol) (fun pos hpos => ?_) fun pos hpos => ?_
  · exact (horder pos hpos).mono fun e he => ht.replayed e.eventId he
  · obtain ⟨hs, hq⟩ := SlowConsumerNotice.position_eq_some.mp hpos
    exact (ht.names hpol).notice n hn pos.1 pos.2 hs hq

/-- A step that reports in order keeps every notice of the stream truthful. -/
theorem gapsTruthful_step {a : StreamAction δ τ} (ht : StreamInv t) (hG : ReportsInOrder t a)
    (hP : GapsTruthful t) (hs : step ops rfc3339 t a = some t') : GapsTruthful t' := by
  cases a with
  | bus a =>
    obtain ⟨-, bus, -, rfl⟩ := step_bus hs
    exact hP
  | subscribe topic outboundCapacity policy replayStreamId =>
    simp only [step] at hs
    split at hs
    · rename_i hidle
      obtain ⟨bus, hbus, rfl⟩ := Option.map_eq_some_iff.mp hs
      -- an idle handler has no gap
      intro _ n enq hg
      split at hg <;> simp [(ht.idle hidle).2] at hg
    · cases hs
  | poll now =>
    intro hpol n enq hg
    -- the gap is an old one, or is made by this poll
    rcases gap_poll hs with ⟨hgap', hopts, hmono⟩ | ⟨n', hp, hn, hgap', hopts, hhanded⟩
    · rw [hgap'] at hg
      rw [hopts] at hpol
      refine (hP hpol n enq hg).mono ?_
      rintro e ⟨h, hh, hid⟩
      exact ⟨h, hmono h hh, hid⟩
    · rw [hopts] at hpol
      rw [hgap'] at hg
      obtain ⟨rfl, rfl⟩ : n' = n ∧ (t.bus.mpsc t.sub).enqueued = enq := by
        simpa [Prod.ext_iff] using hg
      -- the gap counts what the bus had enqueued, and the condition puts the report in order
      have hsound := ht.sound (by simp [active, hp])
      have htrue := gapTruthful_report hsound hpol hn
        (hG (by simp [atNotice, hp]) n' (Oneshot.get?_eq_some.mpr hn))
      refine htrue.mono ?_
      rintro e ⟨h, hh, hid⟩
      exact ⟨h, hhanded ▸ hh, hid⟩
  | disconnect =>
    simp only [step, disconnect] at hs
    split at hs
    case h_4 => cases hs
    all_goals
      obtain rfl := Option.some.inj hs
      exact hP

end Steps

/-- Over a run whose steps all report in order, every notice of the stream is truthful. -/
theorem gapsTruthful_of_reportsInOrder (ops : BusOps δ τ κ)
    (rfc3339 : OffsetDateTime → Option String) (replayCapacity : ℕ) (as : List (StreamAction δ τ))
    (h : (machine ops rfc3339 replayCapacity).StepsMeet ReportsInOrder
      (machine ops rfc3339 replayCapacity).init as) :
    (machine ops rfc3339 replayCapacity).StatesMeet GapsTruthful
      (machine ops rfc3339 replayCapacity).init as := by
  have hall : (machine ops rfc3339 replayCapacity).StatesMeet
      (fun t => StreamInv t ∧ GapsTruthful t) (machine ops rfc3339 replayCapacity).init as := by
    refine Machine.statesMeet_of_stepsMeet ?_ ?_ h
    · rintro t a t' ⟨ht, hP⟩ hG hs
      exact ⟨streamInv_step ht hs, gapsTruthful_step ht hG hP hs⟩
    · exact ⟨streamInv_init ops rfc3339 replayCapacity, fun _ n enq hg => by cases hg⟩
  exact hall.mono fun _ h => h.2

end EventsStream

/-! ### Both transports -/

/-- **The `stream-gap` tells the truth** in every run of the WebSocket forwarder and of the NDJSON
stream in which each gap is reported in order: the envelope that the notice names is no longer
waiting for the client, or, in the NDJSON stream, it was replayed together with those of its stream
that wait before it. -/
theorem streamGap_truthful {δ τ κ : Type} [DecidableEq κ] (ops : BusOps δ τ κ)
    (rfc3339 : OffsetDateTime → Option String) (replayCapacity : ℕ)
    (ws : List (WsAction δ τ)) (nd : List (StreamAction δ τ))
    (hws : (WsConn.machine ops rfc3339 replayCapacity).StepsMeet WsConn.ReportsInOrder
      (WsConn.machine ops rfc3339 replayCapacity).init ws)
    (hnd : (EventsStream.machine ops rfc3339 replayCapacity).StepsMeet EventsStream.ReportsInOrder
      (EventsStream.machine ops rfc3339 replayCapacity).init nd) :
    (WsConn.machine ops rfc3339 replayCapacity).StatesMeet WsConn.GapsTruthful
      (WsConn.machine ops rfc3339 replayCapacity).init ws ∧
    (EventsStream.machine ops rfc3339 replayCapacity).StatesMeet EventsStream.GapsTruthful
      (EventsStream.machine ops rfc3339 replayCapacity).init nd :=
  ⟨WsConn.gapsTruthful_of_reportsInOrder ops rfc3339 replayCapacity ws hws,
    EventsStream.gapsTruthful_of_reportsInOrder ops rfc3339 replayCapacity nd hnd⟩

/-- On a queue of one, envelope 1 is delivered and envelope 2 finds the queue full; its disconnect
is not yet committed. -/
def overflowing : List (BusAction Unit Unit) :=
  [.publish (.nth 1), .advance 0, .advance 0, .advance 0, .visit 0 1, .advance 0, .advance 0,
    .advance 0, .publish (.nth 2), .advance 1, .advance 1, .advance 1, .visit 1 1, .advance 1,
    .advance 1]

/-- Both transports drain the queue before the disconnect is committed. -/
def wsDrained : List (WsAction Unit Unit) :=
  .subscribe 7 () none (some 1) :: overflowing.map .bus ++
    List.replicate 4 (.poll 0) ++ [.bus (.advance 1), .poll 0]

def ndjsonDrained : List (StreamAction Unit Unit) :=
  [.subscribe () (some 1) .disconnect none, .poll 0, .poll 0] ++ overflowing.map .bus ++
    List.replicate 2 (.poll 0) ++ [.bus (.advance 1), .poll 0]

/-- On both transports a queue drained before its notice leaves a truthful gap. -/
theorem streamGap_truthful_drained :
    (∃ (w : WsConn Unit Unit) (f : LocalForwarder Unit),
      (WsConn.machine .matchAll (fun _ => none) 10).run
        (WsConn.machine .matchAll (fun _ => none) 10).init wsDrained = some w ∧
      w.fwd = some f ∧ f.gap.isSome = true) ∧
    (∃ t : EventsStream Unit Unit,
      (EventsStream.machine .matchAll (fun _ => none) 10).run
        (EventsStream.machine .matchAll (fun _ => none) 10).init ndjsonDrained = some t ∧
      t.gap.isSome = true) ∧
    (WsConn.machine .matchAll (fun _ => none) 10).StatesMeet WsConn.GapsTruthful
      (WsConn.machine .matchAll (fun _ => none) 10).init wsDrained ∧
    (EventsStream.machine .matchAll (fun _ => none) 10).StatesMeet EventsStream.GapsTruthful
      (EventsStream.machine .matchAll (fun _ => none) 10).init ndjsonDrained :=
  ⟨⟨_, _, rfl, rfl, rfl⟩, ⟨_, rfl, rfl⟩,
    streamGap_truthful .matchAll (fun _ => none) 10 wsDrained ndjsonDrained (by decide) (by decide)⟩

/-- The disconnect is committed before the transports are polled. -/
def wsOvertaken : List (WsAction Unit Unit) :=
  .subscribe 7 () none (some 1) :: overflowing.map .bus ++ [.bus (.advance 1), .poll 0]

def ndjsonOvertaken : List (StreamAction Unit Unit) :=
  [.subscribe () (some 1) .disconnect none, .poll 0, .poll 0] ++ overflowing.map .bus ++
    [.bus (.advance 1), .poll 0]

/-- **The gap overtakes the queue**: both transports report sequence 1 as the last delivered and
have handed over nothing. -/
theorem streamGap_overtakes :
    (∃ (w : WsConn Unit Unit) (f : LocalForwarder Unit) (n : SlowConsumerNotice),
      (WsConn.machine .matchAll (fun _ => none) 10).run
        (WsConn.machine .matchAll (fun _ => none) 10).init wsOvertaken = some w ∧
      w.fwd = some f ∧ f.gap = some (n, [.nth 1]) ∧ n.lastDeliveredSequence = some 1 ∧
      f.sent = [] ∧ ¬ w.GapsTruthful) ∧
    (∃ (t : EventsStream Unit Unit) (n : SlowConsumerNotice),
      (EventsStream.machine .matchAll (fun _ => none) 10).run
        (EventsStream.machine .matchAll (fun _ => none) 10).init ndjsonOvertaken = some t ∧
      t.gap = some (n, [.nth 1]) ∧ n.lastDeliveredSequence = some 1 ∧ t.handed = [] ∧
      ¬ t.GapsTruthful) := by
  constructor
  · refine ⟨_, _, _, rfl, rfl, rfl, rfl, rfl, fun h => ?_⟩
    obtain ⟨⟨e, -, -, he⟩, -⟩ := h _ _ _ rfl rfl ((EventEnvelope.nth 1).position) rfl
    cases he
  · refine ⟨_, _, rfl, rfl, rfl, rfl, fun h => ?_⟩
    obtain ⟨⟨e, -, -, h', hh, -⟩, -⟩ := h rfl _ _ rfl ((EventEnvelope.nth 1).position) rfl
    cases hh

end Boardwalk
