import Mathlib.Data.List.Forall2
import Mathlib.Tactic.Common

/-!
# Cutting a list into groups

`Cut R xs ys` says that `ys` can be cut into consecutive groups, one for each element of `xs`, such
that `R` relates each element to its group.
-/

namespace Boardwalk

variable {α β γ : Type}

def Cut (R : α → List β → Prop) (xs : List α) (ys : List β) : Prop :=
  ∃ groups : List (List β), groups.flatten = ys ∧ List.Forall₂ R xs groups

section Cut

variable {R : α → List β → Prop}

@[simp] theorem cut_nil_iff {ys : List β} : Cut R [] ys ↔ ys = [] := by
  constructor
  · rintro ⟨groups, rfl, h⟩
    cases h
    rfl
  · rintro rfl
    exact ⟨[], rfl, .nil⟩

/-- The first group is cut off and the rest is cut further. -/
theorem cut_cons_iff {x : α} {xs : List α} {ys : List β} :
    Cut R (x :: xs) ys ↔ ∃ g rest, ys = g ++ rest ∧ R x g ∧ Cut R xs rest := by
  constructor
  · rintro ⟨groups, rfl, h⟩
    cases h with
    | cons hx hxs => exact ⟨_, _, rfl, hx, _, rfl, hxs⟩
  · rintro ⟨g, rest, rfl, hx, groups, rfl, hxs⟩
    exact ⟨g :: groups, rfl, .cons hx hxs⟩

/-- The elements may be read through relations that agree. -/
theorem cut_forall₂_iff {S : γ → List β → Prop} {xs : List α} {zs : List γ}
    (h : List.Forall₂ (fun x z => ∀ g, R x g ↔ S z g) xs zs) {ys : List β} :
    Cut R xs ys ↔ Cut S zs ys := by
  induction h generalizing ys with
  | nil => simp
  | cons hxz _ ih => simp only [cut_cons_iff, hxz, ih]

/-- When every group is a single element, the lists are related element by element. -/
theorem cut_single_iff {Q : α → β → Prop} {xs : List α} {ys : List β}
    (h : ∀ x ∈ xs, ∀ g, R x g ↔ ∃ y, g = [y] ∧ Q x y) : Cut R xs ys ↔ List.Forall₂ Q xs ys := by
  induction xs generalizing ys with
  | nil => simp
  | cons x xs ih =>
    rw [cut_cons_iff]
    constructor
    · rintro ⟨g, rest, rfl, hx, hrest⟩
      obtain ⟨y, rfl, hy⟩ := (h x List.mem_cons_self g).mp hx
      exact .cons hy ((ih fun x' hx' => h x' (List.mem_cons_of_mem x hx')).mp hrest)
    · intro hall
      cases hall with
      | @cons _ y _ rest hy hrest =>
        refine ⟨[y], rest, rfl, (h x List.mem_cons_self [y]).mpr ⟨y, rfl, hy⟩, ?_⟩
        exact (ih fun x' hx' => h x' (List.mem_cons_of_mem x hx')).mpr hrest

/-- When every element takes itself, the cut list is the same list. -/
theorem cut_self_iff {R : α → List α → Prop} {xs ys : List α}
    (h : ∀ x ∈ xs, ∀ g, R x g ↔ g = [x]) : Cut R xs ys ↔ xs = ys := by
  rw [cut_single_iff (Q := Eq), List.forall₂_eq_eq_eq]
  intro x hx g
  rw [h x hx]
  simp

/-! ### Lengths -/

/-- Cuts side by side. -/
theorem Cut.append {xs xs' : List α} {ys ys' : List β} (h : Cut R xs ys) (h' : Cut R xs' ys') :
    Cut R (xs ++ xs') (ys ++ ys') := by
  obtain ⟨groups, rfl, hgroups⟩ := h
  obtain ⟨groups', rfl, hgroups'⟩ := h'
  exact ⟨groups ++ groups', List.flatten_append, List.rel_append hgroups hgroups'⟩

/-- Every element has its group. -/
theorem Cut.exists_group {xs : List α} {ys : List β} (h : Cut R xs ys) {x : α} (hx : x ∈ xs) :
    ∃ g, R x g ∧ ∀ y ∈ g, y ∈ ys := by
  induction xs generalizing ys with
  | nil => cases hx
  | cons x' xs ih =>
    obtain ⟨g, rest, rfl, hg, hrest⟩ := cut_cons_iff.mp h
    rcases List.mem_cons.mp hx with rfl | hx
    · exact ⟨g, hg, fun y hy => List.mem_append_left rest hy⟩
    · obtain ⟨g', hg', hmem⟩ := ih hrest hx
      exact ⟨g', hg', fun y hy => List.mem_append_right g (hmem y hy)⟩

/-- Where no group is empty there are no more elements than parts. -/
theorem Cut.length_le {xs : List α} {ys : List β} (h : Cut R xs ys)
    (hne : ∀ x g, R x g → g ≠ []) : xs.length ≤ ys.length := by
  induction xs generalizing ys with
  | nil => exact Nat.zero_le _
  | cons x xs ih =>
    obtain ⟨g, rest, rfl, hg, hrest⟩ := cut_cons_iff.mp h
    have hpos : 0 < g.length := List.length_pos_iff.mpr (hne x g hg)
    have hle := ih hrest
    rw [List.length_cons, List.length_append]
    omega

/-- Where no group is empty and there are as many elements as parts, each takes one. -/
theorem Cut.forall₂_of_length_le {xs : List α} {ys : List β} (h : Cut R xs ys)
    (hne : ∀ x g, R x g → g ≠ []) (hlen : ys.length ≤ xs.length) :
    List.Forall₂ (fun x y => R x [y]) xs ys := by
  induction xs generalizing ys with
  | nil =>
    rw [cut_nil_iff] at h
    subst h
    exact .nil
  | cons x xs ih =>
    obtain ⟨g, rest, rfl, hg, hrest⟩ := cut_cons_iff.mp h
    have hpos : 0 < g.length := List.length_pos_iff.mpr (hne x g hg)
    have hle := hrest.length_le hne
    rw [List.length_cons, List.length_append] at hlen
    have hrestlen : rest.length ≤ xs.length := by omega
    obtain ⟨y, rfl⟩ := List.length_eq_one_iff.mp (show g.length = 1 by omega)
    exact .cons hg (ih hrest hrestlen)

/-- With fewer elements than parts, an element takes two or more. -/
theorem Cut.exists_long {xs : List α} {ys : List β} (h : Cut R xs ys)
    (hlen : xs.length < ys.length) : ∃ x ∈ xs, ∃ g, R x g ∧ 2 ≤ g.length := by
  induction xs generalizing ys with
  | nil =>
    rw [cut_nil_iff] at h
    subst h
    exact absurd hlen (Nat.lt_irrefl 0)
  | cons x xs ih =>
    obtain ⟨g, rest, rfl, hg, hrest⟩ := cut_cons_iff.mp h
    by_cases hlong : 2 ≤ g.length
    · exact ⟨x, List.mem_cons_self, g, hg, hlong⟩
    · rw [List.length_cons, List.length_append] at hlen
      obtain ⟨x', hx', g', hg', hlong'⟩ := ih hrest (by omega)
      exact ⟨x', List.mem_cons_of_mem x hx', g', hg', hlong'⟩

end Cut

end Boardwalk
