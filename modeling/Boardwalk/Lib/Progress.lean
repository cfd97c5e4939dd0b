import Boardwalk.Lib.Machine
import Mathlib.Algebra.BigOperators.Group.Finset.Basic
import Mathlib.Algebra.Order.BigOperators.Group.Finset

/-!
# Progress

An invariant says what never happens; the rules here say that a system comes to rest.  `Ranks A I
rank` says that each action in `A`, taken where `I` holds, lowers a rank: whatever the order in
which such actions are taken, no more of them fit than the rank, and a schedule that has not come to
rest can go on (`Ranks.settles`).  What holds at rest is then a matter of one state: a state is at
rest when none of these actions is enabled in it.

A rank is often a sum over addresses of which a step touches one; the last lemmas say how such a sum
moves.
-/

namespace Boardwalk

namespace Machine

variable {σ α : Type*} {M : Machine σ α} {A : α → Prop} {I : σ → Prop} {rank : σ → ℕ}

/-- None of the actions in `A` is enabled. -/
def AtRest (M : Machine σ α) (A : α → Prop) (s : σ) : Prop := ∀ a, A a → M.step s a = none

/-- The actions in `A` keep `I` and lower the rank. -/
structure Ranks (M : Machine σ α) (A : α → Prop) (I : σ → Prop) (rank : σ → ℕ) : Prop where
  keeps : ∀ s a t, I s → A a → M.step s a = some t → I t
  lowers : ∀ s a t, I s → A a → M.step s a = some t → rank t < rank s

/-- A schedule spends at least one unit of rank for each of its actions. -/
theorem Ranks.length_add_rank_le (h : M.Ranks A I rank) :
    ∀ {as : List α} {s t : σ}, I s → (∀ a ∈ as, A a) → M.run s as = some t →
      I t ∧ as.length + rank t ≤ rank s := by
  intro as
  induction as with
  | nil =>
    intro s t hs _ hr
    obtain rfl : s = t := by simpa [run] using hr
    exact ⟨hs, by simp⟩
  | cons a as ih =>
    intro s t hs hA hr
    obtain ⟨u, hu, hrun⟩ := run_cons.mp hr
    have hAa : A a := hA a List.mem_cons_self
    obtain ⟨ht, hlen⟩ := ih (h.keeps s a u hs hAa hu)
      (fun b hb => hA b (List.mem_cons_of_mem _ hb)) hrun
    have hlow := h.lowers s a u hs hAa hu
    refine ⟨ht, ?_⟩
    rw [List.length_cons]
    omega

/-- From every state with `I` some schedule comes to rest. -/
theorem Ranks.exists_atRest (h : M.Ranks A I rank) {s : σ} (hs : I s) :
    ∃ as t, (∀ a ∈ as, A a) ∧ M.run s as = some t ∧ M.AtRest A t := by
  -- on the rank: a state is at rest, or one of the actions leads to a state of lower rank
  induction hn : rank s using Nat.strong_induction_on generalizing s with
  | _ n ih =>
    by_cases hrest : M.AtRest A s
    · exact ⟨[], s, by simp, rfl, hrest⟩
    · unfold AtRest at hrest
      push Not at hrest
      obtain ⟨a, ha, hstep⟩ := hrest
      obtain ⟨u, hu⟩ := Option.ne_none_iff_exists'.mp hstep
      have hlow := h.lowers s a u hs ha hu
      obtain ⟨as, t, has, hr, ht⟩ := ih (rank u) (hn ▸ hlow) (h.keeps s a u hs ha hu) rfl
      refine ⟨a :: as, t, ?_, run_cons.mpr ⟨u, hu, hr⟩, ht⟩
      intro b hb
      rcases List.mem_cons.mp hb with rfl | hb
      · exact ha
      · exact has b hb

/-- **Every schedule comes to rest.**  A schedule of actions in `A` is no longer than the rank of
the state it starts in, and it can be completed to one that ends at rest. -/
theorem Ranks.settles (h : M.Ranks A I rank) {s t : σ} {as : List α} (hs : I s)
    (has : ∀ a ∈ as, A a) (hr : M.run s as = some t) :
    as.length ≤ rank s ∧ I t ∧ ∃ bs u, (∀ b ∈ bs, A b) ∧ M.run t bs = some u ∧ I u ∧
      M.AtRest A u := by
  obtain ⟨ht, hlen⟩ := h.length_add_rank_le hs has hr
  obtain ⟨bs, u, hbs, hu, hrest⟩ := h.exists_atRest ht
  exact ⟨by omega, ht, bs, u, hbs, hu, (h.length_add_rank_le ht hbs hu).1, hrest⟩

/-- Fewer actions are ranked by the same rank. -/
theorem Ranks.mono {B : α → Prop} (h : M.Ranks A I rank) (hB : ∀ a, B a → A a) :
    M.Ranks B I rank :=
  ⟨fun s a t hs ha => h.keeps s a t hs (hB a ha), fun s a t hs ha => h.lowers s a t hs (hB a ha)⟩

end Machine

/-! ### Sums over addresses -/

section Sums

variable {f g : ℕ → ℕ} {n i : ℕ}

/-- One address grows. -/
theorem sum_range_le_add {d : ℕ} (hi : g i ≤ f i + d) (hother : ∀ j, j ≠ i → g j ≤ f j) :
    ∑ j ∈ Finset.range n, g j ≤ ∑ j ∈ Finset.range n, f j + d := by
  induction n with
  | zero => simp
  | succ n ih =>
    rw [Finset.sum_range_succ, Finset.sum_range_succ]
    by_cases hn : n = i
    · subst hn
      -- the addresses below `i` do not grow
      have hbelow : ∑ j ∈ Finset.range n, g j ≤ ∑ j ∈ Finset.range n, f j := by
        apply Finset.sum_le_sum
        intro j hj
        have hlt := Finset.mem_range.mp hj
        exact hother j (by omega)
      omega
    · have := hother n hn
      omega

/-- One address shrinks. -/
theorem sum_range_lt (hn : i < n) (hi : g i < f i) (hother : ∀ j, j ≠ i → g j ≤ f j) :
    ∑ j ∈ Finset.range n, g j < ∑ j ∈ Finset.range n, f j := by
  apply Finset.sum_lt_sum
  · intro j _
    by_cases hj : j = i
    · subst hj
      omega
    · exact hother j hj
  · exact ⟨i, Finset.mem_range.mpr hn, hi⟩

end Sums

end Boardwalk
