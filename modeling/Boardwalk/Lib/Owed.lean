import Mathlib.Algebra.Order.Group.Multiset
import Mathlib.Tactic.Common

/-!
# Owed items and where they are held

Some parties owe items, and a store holds items, among them others that nobody owed.  In a step
`new` items come to be owed, the store takes in what it takes in, and items may be `lost`.  As long
as the store holds as owed only what is owed (`Backed`), what is owed stays in the store exactly
when nothing is lost.
-/

namespace Boardwalk.Owed

variable {ε : Type*} {isOwed : ε → Bool} {owed held held' new lost : Multiset ε}

/-- One step of a store: it holds what it held, the `new` items and some that nobody owes, less the
items that are `lost`. -/
structure Step (isOwed : ε → Bool) (held held' new lost : Multiset ε) : Prop where
  balance : ∃ extra, (∀ x ∈ extra, isOwed x = false) ∧ held' + lost = held + extra + new
  new_owed : ∀ x ∈ new, isOwed x = true
  lost_owed : ∀ x ∈ lost, isOwed x = true

/-- Every item in the store that can be owed is owed. -/
structure Backed (isOwed : ε → Bool) (owed held : Multiset ε) : Prop where
  owed_owed : ∀ x ∈ owed, isOwed x = true
  held_le : held.filter (isOwed · = true) ≤ owed

/-- The items of a step that can be owed are in balance. -/
theorem Step.filter_balance (h : Step isOwed held held' new lost) :
    held'.filter (isOwed · = true) + lost = held.filter (isOwed · = true) + new := by
  obtain ⟨extra, hextra, hbal⟩ := h.balance
  have hnone : extra.filter (isOwed · = true) = 0 :=
    Multiset.filter_eq_nil.mpr fun x hx => by simp [hextra x hx]
  have hfilter := congrArg (Multiset.filter (isOwed · = true)) hbal
  rw [Multiset.filter_add, Multiset.filter_add, Multiset.filter_add, hnone, add_zero,
    Multiset.filter_eq_self.mpr h.lost_owed, Multiset.filter_eq_self.mpr h.new_owed] at hfilter
  exact hfilter

theorem Step.backed (h : Step isOwed held held' new lost) (hb : Backed isOwed owed held) :
    Backed isOwed (owed + new) held' where
  owed_owed x hx := by
    rcases Multiset.mem_add.mp hx with hx | hx
    · exact hb.owed_owed x hx
    · exact h.new_owed x hx
  held_le := by
    calc held'.filter (isOwed · = true)
        ≤ held'.filter (isOwed · = true) + lost := Multiset.le_add_right _ _
      _ = held.filter (isOwed · = true) + new := h.filter_balance
      _ ≤ owed + new := Multiset.add_le_add_right hb.held_le

theorem Backed.le_iff (hb : Backed isOwed owed held) :
    owed ≤ held ↔ held.filter (isOwed · = true) = owed := by
  constructor
  · intro hle
    refine le_antisymm hb.held_le ?_
    exact Multiset.le_filter.mpr ⟨hle, hb.owed_owed⟩
  · intro heq
    rw [← heq]
    exact Multiset.filter_le _ _

/-- **What is owed stays in the store** exactly when the step loses nothing. -/
theorem Step.le_iff (h : Step isOwed held held' new lost) (hb : Backed isOwed owed held)
    (hle : owed ≤ held) : owed + new ≤ held' ↔ lost = 0 := by
  have hbal := h.filter_balance
  rw [hb.le_iff.mp hle] at hbal
  rw [(h.backed hb).le_iff, ← hbal]
  exact left_eq_add

end Boardwalk.Owed
