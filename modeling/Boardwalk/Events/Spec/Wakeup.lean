import Boardwalk.Events.Bus
import Boardwalk.Events.CoalesceCalls
import Boardwalk.Events.Spec.Coalesce
import Boardwalk.Lib.Party

/-!
# No lost wakeup

A receiver enrolls before it looks at the queue and at `closed`, so whatever it does not see is
followed by a notification that finds it enrolled (`Wakes`).  And every envelope that a push brought
into the queue is there, or was received, or was overwritten, and only one of these (`Accounted`).
-/

namespace Boardwalk

variable {δ κ : Type} [DecidableEq κ]

/-! ### The envelopes -/

/-- The envelope of the push came into the queue. -/
def PushCall.accepted (c : PushCall δ) : Bool :=
  c.outcome = some .pushed ∨ c.outcome = some .replaced

namespace CoalesceCalls

section Offer

variable (key : EventEnvelope (ℕ × δ) → FieldPath → Option κ) (s : CoalesceState (ℕ × δ))
  (env : EventEnvelope (ℕ × δ))

/-- An update adds its envelope to those that are queued or overwritten, unless it is dropped, which
changes nothing. -/
theorem offer_perm :
    ((s.offer key env).1 = .pushed ∨ (s.offer key env).1 = .replaced) ∧
      ((displaced key s env).toList ++ (s.offer key env).2.queue).Perm (env :: s.queue) ∨
    s.offer key env = (.dropped, s) ∧ displaced key s env = none := by
  have hnone : ¬ s.Queued key env → displaced key s env = none := by
    intro hnot
    unfold displaced
    rw [Option.bind_eq_none_iff]
    intro k hk
    rw [List.find?_eq_none]
    intro e he hkey
    exact hnot ⟨k, hk, e, he, by simpa using hkey⟩
  -- replaced, appended or dropped
  rcases s.offer_cases key env with ⟨k, l, e, r, hk, hqueue, he, hl, hoffer⟩ |
    ⟨hnot, -, hoffer⟩ | ⟨hnot, -, hoffer⟩
  · have hdisplaced : displaced key s env = some e := by
      unfold displaced
      rw [hk, Option.bind_some, hqueue, List.find?_append, List.find?_eq_none.mpr (by simpa using hl),
        Option.none_or, List.find?_cons_of_pos (by simpa using he)]
    rw [hdisplaced, hoffer, hqueue]
    refine .inl ⟨.inr rfl, ?_⟩
    show (e :: (l ++ env :: r)).Perm (env :: (l ++ e :: r))
    -- the envelope that is displaced and the new one trade places
    have hnew : (e :: (l ++ env :: r)).Perm (e :: env :: (l ++ r)) := .cons e List.perm_middle
    have hold : (env :: e :: (l ++ r)).Perm (env :: (l ++ e :: r)) :=
      .cons env List.perm_middle.symm
    exact hnew.trans ((List.Perm.swap env e (l ++ r)).trans hold)
  · rw [hnone hnot, hoffer]
    exact .inl ⟨.inl rfl, List.perm_append_singleton env s.queue⟩
  · exact .inr ⟨hoffer, hnone hnot⟩

end Offer

/-- What became of the envelopes: they were overwritten, or wait in the queue, or were received. -/
def held (s : CoalesceCalls δ) : List (EventEnvelope (ℕ × δ)) :=
  s.overwritten ++ (s.state.queue ++ s.received)

/-- Push `n` brought its envelope into the queue. -/
def acceptedAt (pushes : List (PushCall δ)) (n : ℕ) : Bool := (pushes[n]?).any PushCall.accepted

/-- Every envelope that was accepted is held once, and nothing else is held. -/
structure Accounted (pushes : List (PushCall δ)) (held : List (EventEnvelope (ℕ × δ))) : Prop where
  /-- Before its update a push has no outcome. -/
  fresh : ∀ c ∈ pushes, c.phase = .begun ∨ c.phase = .checked → c.outcome = none
  count : ∀ n, (held.map (·.tag)).count n = (acceptedAt pushes n).toNat
  /-- A tag names the push of the envelope. -/
  own : ∀ e ∈ held, ∃ c, pushes[e.tag]? = some c ∧ e.untagged = c.env

section Accounted

variable {pushes : List (PushCall δ)} {held held' : List (EventEnvelope (ℕ × δ))}
  {c c' : PushCall δ} {n : ℕ}

theorem acceptedAt_set (h : pushes[n]? = some c) (m : ℕ) :
    acceptedAt (pushes.set n c') m = if m = n then c'.accepted else acceptedAt pushes m := by
  have hlt : n < pushes.length := (List.getElem?_eq_some_iff.mp h).1
  unfold acceptedAt
  by_cases hm : m = n
  · subst hm
    rw [if_pos rfl, List.getElem?_set_self hlt]
    rfl
  · rw [if_neg hm, List.getElem?_set_ne (Ne.symm hm)]

/-- A push begins. -/
theorem Accounted.push (h : Accounted pushes held) (env : EventEnvelope δ) :
    Accounted (pushes ++ [⟨env, .begun, none⟩]) held where
  fresh c hc hphase := by
    rcases List.mem_append.mp hc with hc | hc
    · exact h.fresh c hc hphase
    · rw [List.mem_singleton.mp hc]
  count m := by
    rw [h.count]
    congr 1
    unfold acceptedAt
    rcases Nat.lt_trichotomy m pushes.length with hm | hm | hm
    · rw [List.getElem?_append_left hm]
    · rw [hm, List.getElem?_concat_length, List.getElem?_eq_none (Nat.le_refl _)]
      rfl
    · rw [List.getElem?_eq_none (Nat.le_of_lt hm),
        List.getElem?_eq_none (by rw [List.length_append]; exact hm)]
  own e he := by
    obtain ⟨c, hc, henv⟩ := h.own e he
    have hlt := (List.getElem?_eq_some_iff.mp hc).1
    exact ⟨c, by rw [List.getElem?_append_left hlt, hc], henv⟩

/-- A call takes a step that brings nothing into the queue. -/
theorem Accounted.set (h : Accounted pushes held) (hn : pushes[n]? = some c)
    (henv : c'.env = c.env) (haccepted : c'.accepted = c.accepted)
    (hfresh : c'.phase = .begun ∨ c'.phase = .checked → c'.outcome = none)
    (hheld : held'.Perm held) : Accounted (pushes.set n c') held' where
  fresh x hx hphase := by
    -- the phase and the outcome of the push that is set
    rcases List.mem_or_eq_of_mem_set hx with hx | rfl
    · exact h.fresh x hx hphase
    · exact hfresh hphase
  -- the count of each tag
  count m := by
    rw [(hheld.map _).count_eq, h.count, acceptedAt_set hn]
    by_cases hm : m = n
    · subst hm
      rw [if_pos rfl, haccepted]
      unfold acceptedAt
      rw [hn]
      rfl
    · rw [if_neg hm]
  -- whose envelope it is
  own e he := by
    obtain ⟨x, hx, hex⟩ := h.own e (hheld.subset he)
    by_cases he : e.tag = n
    · have hlt := (List.getElem?_eq_some_iff.mp hn).1
      rw [he, hn, Option.some.injEq] at hx
      rw [he, List.getElem?_set_self hlt]
      exact ⟨c', rfl, by rw [hex, ← hx, henv]⟩
    · rw [List.getElem?_set_ne (Ne.symm he)]
      exact ⟨x, hx, hex⟩

/-- A push brings its envelope into the queue. -/
theorem Accounted.accept (h : Accounted pushes held) (hn : pushes[n]? = some c)
    (hphase : c.phase = .checked) (henv : c'.env = c.env) (haccepted : c'.accepted = true)
    (hphase' : c'.phase = .updated) (hheld : held'.Perm (c.env.tagged n :: held)) :
    Accounted (pushes.set n c') held' where
  fresh x hx hx' := by
    rcases List.mem_or_eq_of_mem_set hx with hx | rfl
    · exact h.fresh x hx hx'
    · rw [hphase'] at hx'
      simp at hx'
  count m := by
    rw [(hheld.map _).count_eq, List.map_cons, EventEnvelope.tag_tagged, List.count_cons, h.count,
      acceptedAt_set hn]
    by_cases hm : m = n
    · -- the push was not accepted before
      subst hm
      have hnone := h.fresh c (List.mem_of_getElem? hn) (.inr hphase)
      have hbefore : acceptedAt pushes m = false := by
        unfold acceptedAt PushCall.accepted
        rw [hn]
        simp [hnone]
      rw [if_pos rfl, haccepted, hbefore]
      simp
    · rw [if_neg hm]
      simp [Ne.symm hm]
  own e he := by
    have hlt := (List.getElem?_eq_some_iff.mp hn).1
    -- the new envelope is the one of this push, and the others were held before
    rcases List.mem_cons.mp (hheld.subset he) with rfl | he
    · rw [EventEnvelope.tag_tagged, List.getElem?_set_self hlt]
      exact ⟨c', rfl, by rw [EventEnvelope.untagged_tagged, henv]⟩
    · obtain ⟨x, hx, hex⟩ := h.own e he
      by_cases hen : e.tag = n
      · rw [hen, hn, Option.some.injEq] at hx
        rw [hen, List.getElem?_set_self hlt]
        exact ⟨c', rfl, by rw [hex, ← hx, henv]⟩
      · rw [List.getElem?_set_ne (Ne.symm hen)]
        exact ⟨x, hx, hex⟩

end Accounted

theorem receiver_receive (s : CoalesceCalls δ) : s.receive.receiver = s.receiver := by
  unfold receive
  split
  · rfl
  · rfl

theorem pushes_receive (s : CoalesceCalls δ) : s.receive.pushes = s.pushes := by
  unfold receive
  split
  · rfl
  · rfl

/-- A receive neither loses nor duplicates an envelope. -/
theorem perm_held_receive (s : CoalesceCalls δ) : s.receive.held.Perm s.held := by
  unfold receive
  split
  · rename_i env state hpop
    unfold CoalesceState.pop at hpop
    split at hpop
    · cases hpop
    · rename_i e rest hqueue
      cases hpop
      show (s.overwritten ++ (rest ++ (s.received ++ [env]))).Perm
        (s.overwritten ++ (s.state.queue ++ s.received))
      rw [hqueue, ← List.append_assoc rest]
      exact List.Perm.append_left _ (List.perm_append_singleton env (rest ++ s.received))
  · exact .refl _

/-- The envelopes of a state are accounted for. -/
def BooksHold (s : CoalesceCalls δ) : Prop := Accounted s.pushes s.held

/-- A step of the party that is found, if it is where the step is taken. -/
theorem step_of_bind {α β : Type} {o : Option α} {P : α → Prop} [DecidablePred P] {f : α → β}
    {t : β} (h : (o.bind fun c => if P c then some (f c) else none) = some t) :
    ∃ c, o = some c ∧ P c ∧ t = f c := by
  obtain ⟨c, hc, hf⟩ := Option.bind_eq_some_iff.mp h
  obtain ⟨hP, ht⟩ := Option.ite_none_right_eq_some.mp hf
  exact ⟨c, hc, hP, (Option.some.inj ht).symm⟩

theorem onPush_eq_some {s t : CoalesceCalls δ} {n : ℕ} {phase : PushPhase}
    {f : PushCall δ → CoalesceCalls δ} (h : s.onPush n phase f = some t) :
    ∃ c, s.pushes[n]? = some c ∧ c.phase = phase ∧ t = f c := step_of_bind h

theorem onClose_eq_some {s t : CoalesceCalls δ} {m : ℕ} {phase : ClosePhase}
    {f : CloseCall → CoalesceCalls δ} (h : s.onClose m phase f = some t) :
    ∃ c, s.closes[m]? = some c ∧ c.phase = phase ∧ t = f c := step_of_bind h

/-- A step of the receiver. -/
theorem step_of_ite {P : Prop} [Decidable P] {s t : CoalesceCalls δ}
    (h : (if P then some s else none) = some t) : P ∧ t = s := by
  obtain ⟨hP, ht⟩ := Option.ite_none_right_eq_some.mp h
  exact ⟨hP, (Option.some.inj ht).symm⟩

theorem update_eq_some {key : EventEnvelope δ → FieldPath → Option κ} {s t : CoalesceCalls δ}
    {n : ℕ} (hs : step key s (.update n) = some t) :
    s.receiver ≠ .locked ∧
      ∃ c, s.pushes[n]? = some c ∧ c.phase = .checked ∧ t = s.updateBy key n c := by
  obtain ⟨hlocked, hupdate⟩ := Option.ite_none_left_eq_some.mp hs
  exact ⟨hlocked, onPush_eq_some hupdate⟩

theorem poll_eq_some {key : EventEnvelope δ → FieldPath → Option κ} {s t : CoalesceCalls δ}
    (hs : step key s .poll = some t) : ∃ notify, t = { s with receiver := .looping, notify } := by
  obtain ⟨-, hpoll⟩ := Option.ite_none_right_eq_some.mp hs
  obtain ⟨notify, -, rfl⟩ := Option.map_eq_some_iff.mp hpoll
  exact ⟨notify, rfl⟩

/-- What an update does: it brings the envelope into the queue and will notify, or it drops it and
returns. -/
theorem updateBy_cases (key : EventEnvelope δ → FieldPath → Option κ) (s : CoalesceCalls δ)
    (n : ℕ) (c : PushCall δ) :
    (∃ c', c'.env = c.env ∧ c'.accepted = true ∧ c'.phase = .updated ∧
      (s.updateBy key n c).pushes = s.pushes.set n c' ∧
      (s.updateBy key n c).held.Perm (c.env.tagged n :: s.held)) ∨
    ∃ c', c'.env = c.env ∧ c'.accepted = false ∧ c'.phase = .returned ∧
      (s.updateBy key n c).pushes = s.pushes.set n c' ∧
      (s.updateBy key n c).state = s.state ∧ (s.updateBy key n c).held = s.held := by
  rcases offer_perm (fun e path => key (EventEnvelope.untagged e) path) s.state (c.env.tagged n)
    with ⟨houtcome, hperm⟩ | ⟨hoffer, hnone⟩
  · -- it was pushed or took a place: its envelope is now held
    refine .inl ⟨{ c with
      phase := .updated
      outcome := some (s.state.offer (fun e path => key (EventEnvelope.untagged e) path)
        (c.env.tagged n)).1 }, rfl, ?_, rfl, ?_, ?_⟩
    · unfold PushCall.accepted
      rcases houtcome with ho | ho
      · simp [ho]
      · simp [ho]
    · unfold updateBy
      rcases houtcome with ho | ho
      · simp [ho]
      · simp [ho]
    · -- what was held is what is overwritten, queued and received
      show ((s.overwritten ++ _) ++ (_ ++ s.received)).Perm
        (c.env.tagged n :: (s.overwritten ++ (s.state.queue ++ s.received)))
      rw [List.append_assoc]
      have hqueue := hperm.append_right s.received
      rw [List.append_assoc, List.cons_append] at hqueue
      exact (List.Perm.append_left s.overwritten hqueue).trans List.perm_middle
  · -- it was dropped, and what is held stays
    refine .inr ⟨{ c with phase := .returned, outcome := some .dropped }, rfl, rfl, rfl, ?_, ?_, ?_⟩
    · simp [updateBy, hoffer]
    · simp [updateBy, hoffer]
    · simp [updateBy, hoffer, hnone, held]

/-- **Every step keeps the books.** -/
theorem BooksHold.step {key : EventEnvelope δ → FieldPath → Option κ} {s t : CoalesceCalls δ}
    (h : s.BooksHold) {a : CoalesceAction δ} (hs : step key s a = some t) : t.BooksHold := by
  -- a step that changes neither the pushes nor what is held
  have hsame : t.pushes = s.pushes → t.held.Perm s.held → t.BooksHold := by
    intro hpushes hheld
    unfold BooksHold
    rw [hpushes]
    exact ⟨h.fresh, fun n => by rw [(hheld.map _).count_eq, h.count],
      fun e he => h.own e (hheld.subset he)⟩
  cases a with
  | push env =>
    cases hs
    exact Accounted.push h env
  | check n =>
    obtain ⟨c, hc, hphase, rfl⟩ := onPush_eq_some hs
    -- a push without a receiver has no outcome of its own to count
    have hnone := h.fresh c (List.mem_of_getElem? hc) (.inl hphase)
    show Accounted (s.pushes.set n _) s.held
    split
    · exact h.set hc rfl (by simp [PushCall.accepted, hnone]) (by simp) (.refl _)
    · exact h.set hc rfl rfl (fun _ => hnone) (.refl _)
  | update n =>
    obtain ⟨-, c, hc, hphase, rfl⟩ := update_eq_some hs
    have hnone := h.fresh c (List.mem_of_getElem? hc) (.inr hphase)
    unfold BooksHold
    rcases s.updateBy_cases key n c with ⟨c', henv, hacc, hphase', hpushes, hheld⟩ |
      ⟨c', henv, hacc, hphase', hpushes, -, hheld⟩
    · -- accepted under the lock
      rw [hpushes]
      exact h.accept hc hphase henv hacc hphase' hheld
    · -- dropped under the lock
      rw [hpushes, hheld]
      have hbefore : c'.accepted = c.accepted := by
        rw [hacc]
        simp [PushCall.accepted, hnone]
      exact h.set hc henv hbefore (by rw [hphase']; simp) (.refl _)
  | notifyOne n =>
    obtain ⟨c, hc, hphase, rfl⟩ := onPush_eq_some hs
    exact h.set hc rfl rfl (by simp) (.refl _)
  | close marks =>
    cases hs
    exact h
  | storeDropped m =>
    obtain ⟨c, -, -, rfl⟩ := onClose_eq_some hs
    exact h
  | storeClosed m =>
    obtain ⟨c, -, -, rfl⟩ := onClose_eq_some hs
    exact h
  | notifyWaiters m =>
    obtain ⟨c, -, -, rfl⟩ := onClose_eq_some hs
    exact h
  | recv =>
    obtain ⟨-, rfl⟩ := step_of_ite hs
    exact h
  | notified =>
    obtain ⟨-, rfl⟩ := step_of_ite hs
    exact h
  | enable =>
    obtain ⟨-, rfl⟩ := step_of_ite hs
    exact h
  | lock =>
    obtain ⟨-, rfl⟩ := step_of_ite hs
    -- from the queue to what was received, and held all along
    exact hsame s.pushes_receive s.perm_held_receive
  | loadClosed =>
    obtain ⟨-, rfl⟩ := step_of_ite hs
    exact h
  | poll =>
    obtain ⟨notify, rfl⟩ := poll_eq_some hs
    exact h
  | finish back =>
    obtain ⟨-, rfl⟩ := step_of_ite hs
    exact h
  | cancel back =>
    obtain ⟨-, rfl⟩ := step_of_ite hs
    exact h
  | tryRecv =>
    obtain ⟨-, rfl⟩ := step_of_ite hs
    exact hsame s.pushes_receive s.perm_held_receive

/-! ### The receiver -/

/-- The receiver is at its await and a poll would not complete it. -/
def Parked (s : CoalesceCalls δ) : Prop := s.receiver = .awaiting ∧ s.notify.poll = none

/-- No call is between its update and its notification. -/
def NonePending (s : CoalesceCalls δ) : Prop :=
  (∀ c ∈ s.pushes, c.phase ≠ .updated) ∧ ∀ c ∈ s.closes, c.phase ≠ .stored

/-- A receiver that waits has seen everything that no call is about to notify. -/
structure Wakes (s : CoalesceCalls δ) : Prop where
  created : s.receiver = .created → ∃ calls, s.notify.future = some (.created calls)
  enrolled : s.receiver = .enabled ∨ s.receiver = .locked ∨ s.receiver = .awaiting →
    s.notify.Enrolled
  /-- A queue that was found empty stays empty under the lock. -/
  empty : s.receiver = .locked → s.state.queue = []
  queued : s.receiver = .awaiting → s.notify.Waits → s.state.queue ≠ [] →
    ∃ c ∈ s.pushes, c.phase = .updated
  closed : s.receiver = .awaiting → s.notify.Waits → s.state.closed = true →
    ∃ c ∈ s.closes, c.phase = .stored

section Wakes

/-- A call that is not at `P` takes a step. -/
theorem exists_mem_set {α : Type} {P : α → Prop} {l : List α} {n : ℕ} {a a' : α}
    (hn : l[n]? = some a) (ha : ¬ P a) (h : ∃ x ∈ l, P x) : ∃ x ∈ l.set n a', P x :=
  Party.exists_mem_set hn h fun hP => absurd hP ha

theorem exists_mem_append {α : Type} {P : α → Prop} {l : List α} (r : List α)
    (h : ∃ x ∈ l, P x) : ∃ x ∈ l ++ r, P x := by
  obtain ⟨x, hx, hP⟩ := h
  exact ⟨x, List.mem_append_left r hx, hP⟩

theorem updateBy_closed (key : EventEnvelope δ → FieldPath → Option κ) (s : CoalesceCalls δ)
    (n : ℕ) (c : PushCall δ) : (s.updateBy key n c).state.closed = s.state.closed := by
  let key' := fun e path => key (EventEnvelope.untagged e) path
  show (s.state.offer key' (c.env.tagged n)).2.closed = s.state.closed
  rcases s.state.offer_cases key' (c.env.tagged n) with ⟨k, l, e, r, -, -, -, -, hoffer⟩ |
    ⟨-, -, hoffer⟩ | ⟨-, -, hoffer⟩
  · rw [hoffer]
  · rw [hoffer]
  · rw [hoffer]

/-- Away from the loop of `recv` there is nothing to wake. -/
theorem Wakes.of_away {s : CoalesceCalls δ} (h : s.receiver = .idle ∨ s.receiver = .looping ∨
    s.receiver = .returning true ∨ s.receiver = .returning false) : s.Wakes := by
  constructor
  all_goals
    intro hr
    rcases h with h | h | h | h
    all_goals simp [h] at hr

section Step

variable {key : EventEnvelope δ → FieldPath → Option κ} {s t : CoalesceCalls δ}

/-- A notification leaves the receiver nothing to wait for. -/
theorem Wakes.of_notification (h : s.Wakes) {notify : Notify} (hnot : ¬ notify.Waits)
    (hfuture : ¬ s.notify.Waits → notify.future = s.notify.future)
    (henrolled : s.notify.Enrolled → notify.Enrolled) (pushes : List (PushCall δ))
    (closes : List CloseCall) : Wakes { s with notify, pushes, closes } := by
  constructor
  · intro hr
    obtain ⟨calls, hcreated⟩ := h.created hr
    have hwaits : ¬ s.notify.Waits := by simp [Notify.Waits, hcreated]
    exact ⟨calls, (hfuture hwaits).trans hcreated⟩
  · exact fun hr => henrolled (h.enrolled hr)
  · exact h.empty
  · exact fun _ hw => absurd hw hnot
  · exact fun _ hw => absurd hw hnot

/-- An update that brings an envelope is about to notify. -/
theorem Wakes.update (h : s.Wakes) {n : ℕ} {c : PushCall δ} (hlocked : s.receiver ≠ .locked)
    (hc : s.pushes[n]? = some c) (hphase : c.phase = .checked) : (s.updateBy key n c).Wakes := by
  have hlt : n < s.pushes.length := (List.getElem?_eq_some_iff.mp hc).1
  have hnot : c.phase ≠ .updated := by simp [hphase]
  constructor
  · exact h.created
  · exact h.enrolled
  · exact fun hr => absurd hr hlocked
  · intro hr hw hq
    rcases s.updateBy_cases key n c with ⟨c', -, -, hphase', hpushes, -⟩ |
      ⟨c', -, -, -, hpushes, hstate, -⟩
    · rw [hpushes]
      exact ⟨c', List.mem_set hlt c', hphase'⟩
    · rw [hstate] at hq
      rw [hpushes]
      exact exists_mem_set hc hnot (h.queued hr hw hq)
  · intro hr hw hclosed
    rw [updateBy_closed] at hclosed
    exact h.closed hr hw hclosed

/-- Before the await the receiver has only to be enrolled. -/
theorem Wakes.of_enrolled (hr : s.receiver = .enabled ∨ s.receiver = .locked)
    (henrolled : s.notify.Enrolled) (hempty : s.receiver = .locked → s.state.queue = []) :
    s.Wakes := by
  refine ⟨?_, fun _ => henrolled, hempty, ?_, ?_⟩
  all_goals
    intro hr'
    rcases hr with hr | hr
    all_goals simp [hr'] at hr

/-- Nothing is missed when the receiver comes to its await. -/
theorem Wakes.of_awaiting (hr : s.receiver = .awaiting) (henrolled : s.notify.Enrolled)
    (hq : s.state.queue = []) (hclosed : s.state.closed = false) : s.Wakes := by
  constructor
  · intro hr'
    simp [hr] at hr'
  · exact fun _ => henrolled
  · exact fun _ => hq
  · exact fun _ _ hne => absurd hq hne
  · intro _ _ hc
    simp [hclosed] at hc

/-- **Every step keeps the receiver from missing anything.** -/
theorem Wakes.step (h : s.Wakes) {a : CoalesceAction δ} (hs : step key s a = some t) :
    t.Wakes := by
  cases a with
  | push env =>
    cases hs
    -- a push that begins wakes nobody, and those that have updated are still there
    exact { h with queued := fun hr hw hq => exists_mem_append _ (h.queued hr hw hq) }
  | check n =>
    obtain ⟨c, hc, hphase, rfl⟩ := onPush_eq_some hs
    have hnot : c.phase ≠ .updated := by simp [hphase]
    exact { h with queued := fun hr hw hq => exists_mem_set hc hnot (h.queued hr hw hq) }
  | update n =>
    obtain ⟨hlocked, c, hc, hphase, rfl⟩ := update_eq_some hs
    -- what it pushes it will tell: the call is now between update and notification
    exact h.update hlocked hc hphase
  | notifyOne n =>
    obtain ⟨c, -, -, rfl⟩ := onPush_eq_some hs
    -- after a notification nobody waits
    exact h.of_notification s.notify.not_waits_notifyOne Notify.future_notifyOne
      Notify.Enrolled.notifyOne _ _
  | close marks =>
    cases hs
    exact { h with closed := fun hr hw hc => exists_mem_append _ (h.closed hr hw hc) }
  | storeDropped m =>
    obtain ⟨c, hc, hphase, rfl⟩ := onClose_eq_some hs
    have hnot : c.phase ≠ .stored := by simp [hphase]
    exact { h with closed := fun hr hw hclosed => exists_mem_set hc hnot (h.closed hr hw hclosed) }
  | storeClosed m =>
    obtain ⟨c, hc, hphase, rfl⟩ := onClose_eq_some hs
    have hlt : m < s.closes.length := (List.getElem?_eq_some_iff.mp hc).1
    -- the call that stored `closed` has its notification before it
    exact { h with closed := fun _ _ _ => ⟨_, List.mem_set hlt _, rfl⟩ }
  | notifyWaiters m =>
    obtain ⟨c, -, -, rfl⟩ := onClose_eq_some hs
    exact h.of_notification s.notify.not_waits_notifyWaiters Notify.future_notifyWaiters
      Notify.Enrolled.notifyWaiters _ _
  | recv =>
    obtain ⟨-, rfl⟩ := step_of_ite hs
    exact .of_away (.inr (.inl rfl))
  | notified =>
    obtain ⟨-, rfl⟩ := step_of_ite hs
    constructor
    · exact fun _ => ⟨_, rfl⟩
    all_goals
      intro hr
      simp at hr
  | enable =>
    obtain ⟨hr, rfl⟩ := step_of_ite hs
    obtain ⟨calls, hfuture⟩ := h.created hr
    -- enrolled from here on
    exact .of_enrolled (.inl rfl) (Notify.enrolled_enable hfuture) (by simp)
  | lock =>
    obtain ⟨hr, rfl⟩ := step_of_ite hs
    by_cases hq : s.state.queue = []
    · have hpop : s.receive = s := by
        unfold receive CoalesceState.pop
        rw [hq]
      rw [hpop, if_pos hq]
      -- found empty under the lock
      exact .of_enrolled (.inr rfl) (h.enrolled (.inl hr)) fun _ => hq
    · rw [if_neg hq]
      exact .of_away (.inr (.inr (.inl rfl)))
  | loadClosed =>
    obtain ⟨hr, rfl⟩ := step_of_ite hs
    cases hclosed : s.state.closed with
    | true => exact .of_away (.inr (.inr (.inr rfl)))
    -- the await begins with an empty queue and `closed` not stored
    | false => exact .of_awaiting rfl (h.enrolled (.inr (.inl hr))) (h.empty hr) hclosed
  | poll =>
    obtain ⟨notify, rfl⟩ := poll_eq_some hs
    exact .of_away (.inr (.inl rfl))
  | finish back =>
    obtain ⟨-, rfl⟩ := step_of_ite hs
    exact .of_away (.inl rfl)
  | cancel back =>
    obtain ⟨-, rfl⟩ := step_of_ite hs
    exact .of_away (.inl rfl)
  | tryRecv =>
    obtain ⟨hr, rfl⟩ := step_of_ite hs
    exact .of_away (.inl (by rw [receiver_receive, hr]))

end Step

end Wakes

/-! ### Every interleaving -/

section Reachable

variable {key : EventEnvelope δ → FieldPath → Option κ} {capacity : ℕ} {keyPath : FieldPath}
  {s : CoalesceCalls δ}

theorem wakes_of_reachable (h : (machine key capacity keyPath).Reachable s) : s.Wakes :=
  h.inv (Wakes.of_away (.inl rfl)) fun _ _ _ hs hstep => hs.step hstep

theorem booksHold_of_reachable (h : (machine key capacity keyPath).Reachable s) :
    s.BooksHold := by
  have hinit : (machine key capacity keyPath).init.BooksHold := by
    constructor
    · intro c hc
      cases hc
    · exact fun n => rfl
    · intro e he
      cases he
  exact h.inv hinit fun _ _ _ hs hstep => BooksHold.step hs hstep

/-- A parked receiver has nothing to look at, or a notification is to come. -/
theorem not_parked_of_reachable (h : (machine key capacity keyPath).Reachable s)
    (hwork : s.state.queue ≠ [] ∨ s.state.closed = true) (hnone : s.NonePending) : ¬ s.Parked := by
  rintro ⟨hr, hpoll⟩
  have hwakes := wakes_of_reachable h
  have hwaits : s.notify.Waits := (hwakes.enrolled (.inr (.inr hr))).waits hpoll
  rcases hwork with hq | hclosed
  · obtain ⟨c, hc, hphase⟩ := hwakes.queued hr hwaits hq
    exact hnone.1 c hc hphase
  · obtain ⟨c, hc, hphase⟩ := hwakes.closed hr hwaits hclosed
    exact hnone.2 c hc hphase

/-- An envelope that was accepted is held once, as it was pushed. -/
theorem Accounted.filter_eq {pushes : List (PushCall δ)} {held : List (EventEnvelope (ℕ × δ))}
    (h : Accounted pushes held) {n : ℕ} {c : PushCall δ} (hc : pushes[n]? = some c)
    (haccepted : c.accepted = true) :
    held.filter (fun e => decide (e.tag = n)) = [c.env.tagged n] := by
  -- its tag occurs once among what is held
  have hlen : (held.filter fun e => decide (e.tag = n)).length = 1 := by
    have hcount := h.count n
    rw [List.count, List.countP_map, List.countP_eq_length_filter] at hcount
    have hat : acceptedAt pushes n = true := by
      unfold acceptedAt
      rw [hc]
      exact haccepted
    rw [hat] at hcount
    exact hcount
  obtain ⟨e, he⟩ := List.length_eq_one_iff.mp hlen
  have hmem : e ∈ held.filter fun e => decide (e.tag = n) := by
    rw [he]
    exact List.mem_singleton_self e
  obtain ⟨hheld, htag⟩ := List.mem_filter.mp hmem
  obtain ⟨c', hc', henv⟩ := h.own e hheld
  have htag : e.tag = n := of_decide_eq_true htag
  rw [htag, hc, Option.some.injEq] at hc'
  -- and that envelope is its own
  have heq : e = c.env.tagged n := by
    rw [hc', ← henv, ← htag]
    rfl
  rw [he, heq]

/-- `None` is returned with the queue empty and `closed` set. -/
theorem returns_none (h : (machine key capacity keyPath).Reachable s) {a : CoalesceAction δ}
    {t : CoalesceCalls δ} (hs : step key s a = some t) (hr : s.receiver ≠ .returning false)
    (ht : t.receiver = .returning false) : s.state.closed = true ∧ s.state.queue = [] := by
  -- the receiver moves in this step, which only its own actions can do
  have hsame : t.receiver ≠ s.receiver := by
    rw [ht]
    exact hr.symm
  cases a with
  | push _ | close _ =>
    cases hs
    exact absurd rfl hsame
  | check n | notifyOne n =>
    obtain ⟨c, -, -, rfl⟩ := onPush_eq_some hs
    exact absurd rfl hsame
  | update n =>
    obtain ⟨-, c, -, -, rfl⟩ := update_eq_some hs
    exact absurd rfl hsame
  | storeDropped m | storeClosed m | notifyWaiters m =>
    obtain ⟨c, -, -, rfl⟩ := onClose_eq_some hs
    exact absurd rfl hsame
  | recv | notified | enable | finish _ | cancel _ =>
    obtain ⟨-, rfl⟩ := step_of_ite hs
    simp at ht
  | lock =>
    obtain ⟨-, rfl⟩ := step_of_ite hs
    dsimp only at ht
    split at ht
    · -- a round that finds an envelope returns it
      cases ht
    · cases ht
  | loadClosed =>
    obtain ⟨hlocked, rfl⟩ := step_of_ite hs
    -- the queue was found empty under the lock, and the flag is loaded under it, too
    refine ⟨?_, (wakes_of_reachable h).empty hlocked⟩
    by_contra hclosed
    dsimp only at ht
    rw [if_neg hclosed] at ht
    cases ht
  | poll =>
    obtain ⟨notify, rfl⟩ := poll_eq_some hs
    simp at ht
  | tryRecv =>
    obtain ⟨-, rfl⟩ := step_of_ite hs
    rw [receiver_receive] at hsame
    exact absurd rfl hsame

/-- What holds of the queue, whatever the order of the calls' steps. -/
structure NoLostWakeup (key : EventEnvelope δ → FieldPath → Option κ) (s : CoalesceCalls δ) :
    Prop where
  /-- With an envelope in the queue or `closed` set, and no notification to come, the receiver is
  not parked. -/
  awake : s.state.queue ≠ [] ∨ s.state.closed = true → s.NonePending → ¬ s.Parked
  /-- An envelope whose push returned `Pushed` or `Replaced`, and that was not replaced, is in the
  queue or was received, once. -/
  heldOnce : ∀ (n : ℕ) (c : PushCall δ), s.pushes[n]? = some c → c.phase = .returned →
    c.outcome = some .pushed ∨ c.outcome = some .replaced → (∀ e ∈ s.overwritten, e.tag ≠ n) →
    let queued := s.state.queue.filter fun e => decide (e.tag = n)
    let received := s.received.filter fun e => decide (e.tag = n)
    queued = [c.env.tagged n] ∧ received = [] ∨ queued = [] ∧ received = [c.env.tagged n]
  /-- `recv` returns `None` only with `closed` set and the queue empty. -/
  returnsNone : ∀ (a : CoalesceAction δ) (t : CoalesceCalls δ), step key s a = some t →
    s.receiver ≠ .returning false → t.receiver = .returning false →
    s.state.closed = true ∧ s.state.queue = []

/-- **No lost wakeup**, in every interleaving of any number of pushes and closes with one receiver
that can be cancelled at its await. -/
theorem no_lost_wakeup (key : EventEnvelope δ → FieldPath → Option κ) (capacity : ℕ)
    (keyPath : FieldPath) {s : CoalesceCalls δ}
    (h : (machine key capacity keyPath).Reachable s) : s.NoLostWakeup key where
  awake := not_parked_of_reachable h
  heldOnce n c hc _ houtcome hkept := by
    intro queued received
    have haccepted : c.accepted = true := by simp [PushCall.accepted, houtcome]
    have hall := (booksHold_of_reachable h).filter_eq hc haccepted
    have hoverwritten : s.overwritten.filter (fun e => decide (e.tag = n)) = [] := by
      rw [List.filter_eq_nil_iff]
      intro e he
      simpa using hkept e he
    rw [held, List.filter_append, List.filter_append, hoverwritten, List.nil_append] at hall
    rcases List.append_eq_singleton_iff.mp hall with ⟨hq, hr⟩ | ⟨hq, hr⟩
    · exact .inr ⟨hq, hr⟩
    · exact .inl ⟨hq, hr⟩
  returnsNone a t := returns_none h

end Reachable

/-- The receiver parks and the second push overwrites the envelope of the first before either
notifies.  The receiver takes it and finds the queue empty; `close` then sets its flag, and the
receiver has still the lock. -/
def overwrittenThenClosed : List (CoalesceAction Unit) :=
  [.recv, .notified, .enable, .lock, .loadClosed, .push (.nth 1), .push (.nth 2), .check 0,
    .check 1, .update 0, .update 1, .notifyOne 1, .notifyOne 0, .poll, .notified, .enable, .lock,
    .finish false, .recv, .notified, .enable, .lock, .close false, .storeDropped 0, .storeClosed 0]

/-- In that run the newer envelope is received and the older one counts as overwritten. -/
theorem no_lost_wakeup_overwrittenThenClosed : ∃ s : CoalesceCalls Unit,
    let key := fun (e : EventEnvelope Unit) (_ : FieldPath) => some e.streamId
    let M := machine key 1 ⟨["streamId"]⟩
    M.run M.init overwrittenThenClosed = some s ∧ s.receiver = .locked ∧
      s.overwritten = [(EventEnvelope.nth 1).tagged 0] ∧
      s.received = [(EventEnvelope.nth 2).tagged 1] ∧ s.NoLostWakeup key := by
  have hend : ∃ s : CoalesceCalls Unit,
      let key := fun (e : EventEnvelope Unit) (_ : FieldPath) => some e.streamId
      let M := machine key 1 ⟨["streamId"]⟩
      M.run M.init overwrittenThenClosed = some s ∧ s.receiver = .locked ∧
        s.overwritten = [(EventEnvelope.nth 1).tagged 0] ∧
        s.received = [(EventEnvelope.nth 2).tagged 1] := ⟨_, rfl, rfl, rfl, rfl⟩
  obtain ⟨s, hrun, hr, hoverwritten, hreceived⟩ := hend
  exact ⟨s, hrun, hr, hoverwritten, hreceived, no_lost_wakeup _ 1 ⟨["streamId"]⟩ ⟨_, hrun⟩⟩

end CoalesceCalls

end Boardwalk
