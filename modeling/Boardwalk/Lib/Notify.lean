import Mathlib.Tactic.Common

/-!
# A notification cell and its waiting future

`Notify` is the state of a cell that keeps at most one permit, as the single task that waits on it
sees it: `notifyOne` marks the waiter, or leaves a permit when nobody waits, and `notifyWaiters`
marks whoever waits and leaves nothing.  A future is created, enabled, which takes a permit or
enrolls it as the waiter, and then polled or dropped.  A created future is woken by a
`notifyWaiters` that comes before it is enabled.
-/

namespace Boardwalk

/-- A future of `notified`. -/
inductive Notified where
  /-- Created after `calls` calls of `notifyWaiters`, and not enabled. -/
  | created (calls : ℕ)
  /-- Enrolled, and not notified. -/
  | waiting
  /-- Notified by `notifyOne`. -/
  | one
  /-- Notified by `notifyWaiters`. -/
  | all
  /-- It took a permit, or missed a `notifyWaiters`, when it was enabled. -/
  | done
  deriving Repr, DecidableEq

namespace Notified

/-- The next poll completes the future. -/
def satisfied : Notified → Bool
  | created _ | waiting => false
  | one | all | done => true

end Notified

structure Notify where
  permit : Bool := false
  /-- The calls of `notifyWaiters` so far. -/
  calls : ℕ := 0
  /-- The future of the task, if it has one. -/
  future : Option Notified := none
  deriving Repr, DecidableEq

namespace Notify

variable (n : Notify)

/-- Creates the future of the task. -/
def notified : Notify := { n with future := some (.created n.calls) }

/-- Enables a created future. -/
def enable : Notify :=
  match n.future with
  | some (.created calls) =>
    if n.permit then { n with permit := false, future := some .done }
    else if calls ≠ n.calls then { n with future := some .done }
    else { n with future := some .waiting }
  | _ => n

def notifyOne : Notify :=
  if n.future = some .waiting then { n with future := some .one } else { n with permit := true }

def notifyWaiters : Notify :=
  { n with
    calls := n.calls + 1
    future := if n.future = some .waiting then some .all else n.future }

/-- Polls the future; a completed one is gone. -/
def poll : Option Notify :=
  if n.future.any Notified.satisfied then some { n with future := none } else none

/-- Drops the future.  A notification by `notifyOne` that it has not consumed becomes a permit; a
permit that it took when it was enabled is given back or not. -/
def drop (back : Bool) : Notify :=
  { n with
    permit := n.permit || decide (n.future = some .one) ||
      (decide (n.future = some .done) && back)
    future := none }

/-- The future is enrolled and nothing has come. -/
def Waits : Prop := n.future = some .waiting

instance : Decidable n.Waits := inferInstanceAs (Decidable (_ = _))

/-- After either notification the future does not wait. -/
theorem not_waits_notifyOne : ¬ n.notifyOne.Waits := by
  unfold notifyOne Waits
  split
  · simp
  · rename_i h
    exact h

theorem not_waits_notifyWaiters : ¬ n.notifyWaiters.Waits := by
  unfold notifyWaiters Waits
  split
  · simp
  · rename_i h
    exact h

/-- The future is past its enabling. -/
def Enrolled : Prop := ∃ f, n.future = some f ∧ ∀ calls, f ≠ .created calls

variable {n}

theorem enrolled_enable {calls : ℕ} (h : n.future = some (.created calls)) :
    n.enable.Enrolled := by
  unfold enable
  rw [h]
  dsimp only
  split
  · exact ⟨.done, rfl, by simp⟩
  · split
    · exact ⟨.done, rfl, by simp⟩
    · exact ⟨.waiting, rfl, by simp⟩

/-- A notification leaves a future that does not wait as it is. -/
theorem future_notifyOne (h : ¬ n.Waits) : n.notifyOne.future = n.future := by
  have hone : n.notifyOne = { n with permit := true } := if_neg h
  rw [hone]

theorem future_notifyWaiters (h : ¬ n.Waits) : n.notifyWaiters.future = n.future := if_neg h

theorem Enrolled.notifyOne (h : n.Enrolled) : n.notifyOne.Enrolled := by
  by_cases hw : n.Waits
  · have hone : n.notifyOne = { n with future := some .one } := if_pos hw
    rw [hone]
    exact ⟨.one, rfl, by simp⟩
  · unfold Enrolled
    rw [future_notifyOne hw]
    exact h

theorem Enrolled.notifyWaiters (h : n.Enrolled) : n.notifyWaiters.Enrolled := by
  by_cases hw : n.Waits
  · exact ⟨.all, if_pos hw, by simp⟩
  · unfold Enrolled
    rw [future_notifyWaiters hw]
    exact h

/-- Past its enabling, a future that a poll does not complete waits. -/
theorem Enrolled.waits (h : n.Enrolled) (hpoll : n.poll = none) : n.Waits := by
  obtain ⟨f, hf, hcreated⟩ := h
  unfold poll at hpoll
  rw [hf] at hpoll
  unfold Waits
  cases f with
  | created calls => exact absurd rfl (hcreated calls)
  | waiting => exact hf
  | one => simp [Notified.satisfied] at hpoll
  | all => simp [Notified.satisfied] at hpoll
  | done => simp [Notified.satisfied] at hpoll

end Notify

end Boardwalk
