import Mathlib.Data.List.Nodup
import Mathlib.Tactic.Common

/-!
# Lists of parties

A system holds its parties in a list, and a step replaces one of them or appends a new one.  What
the parties have taken so far is a `filterMap` over the list: a move that takes nothing leaves it
(`filterMap_set_of_eq`), and a move that takes an item adds that one (`filterMap_set_perm`).  Where
a party has parts in two lists, it is at one place in both.
-/

namespace Boardwalk

namespace Party

variable {α β : Type*} {l : List α} {k : ℕ} {a b : α}

theorem split_at (h : l[k]? = some a) : ∃ l₁ l₂, l = l₁ ++ a :: l₂ ∧
    ∀ b, l.set k b = l₁ ++ b :: l₂ := by
  obtain ⟨hlt, rfl⟩ := List.getElem?_eq_some_iff.mp h
  refine ⟨l.take k, l.drop (k + 1), ?_, fun b => List.set_eq_take_append_cons_drop ▸ if_pos hlt⟩
  rw [← List.drop_eq_getElem_cons hlt, List.take_append_drop]

theorem getElem?_set_cases {i : ℕ} {x : α} (h : (l.set k b)[i]? = some x) :
    i = k ∧ x = b ∨ i ≠ k ∧ l[i]? = some x := by
  by_cases hik : i = k
  · subst hik
    rw [List.getElem?_set_self' ] at h
    obtain ⟨y, -, rfl⟩ := Option.map_eq_some_iff.mp h
    exact .inl ⟨rfl, rfl⟩
  · rw [List.getElem?_set_ne (Ne.symm hik)] at h
    exact .inr ⟨hik, h⟩

theorem forall_mem_set {P : α → Prop} {l' : List α} (hl' : l' = l.set k b) (h : ∀ c ∈ l, P c)
    (hb : P b) : ∀ c ∈ l', P c := by
  intro c hc
  rcases List.mem_or_eq_of_mem_set (hl' ▸ hc) with hmem | rfl
  · exact h c hmem
  · exact hb

theorem forall_mem_concat {P : α → Prop} {l' : List α} (hl' : l' = l ++ [b]) (h : ∀ c ∈ l, P c)
    (hb : P b) : ∀ c ∈ l', P c := by
  subst hl'
  intro c hc
  rcases List.mem_append.mp hc with hmem | hmem
  · exact h c hmem
  · obtain rfl := List.mem_singleton.mp hmem
    exact hb

/-- What some party satisfies, one does after the step too. -/
theorem exists_mem_set {P : α → Prop} (hk : l[k]? = some a) (h : ∃ d ∈ l, P d)
    (hab : P a → P b) : ∃ d ∈ l.set k b, P d := by
  obtain ⟨d, hd, hP⟩ := h
  obtain ⟨n, hn⟩ := List.mem_iff_getElem?.mp hd
  by_cases hnk : n = k
  · subst hnk
    obtain rfl : a = d := Option.some.inj (hk.symm.trans hn)
    have hlt : n < l.length := (List.getElem?_eq_some_iff.mp hk).1
    exact ⟨b, List.mem_set hlt b, hab hP⟩
  · refine ⟨d, List.mem_iff_getElem?.mpr ⟨n, ?_⟩, hP⟩
    rw [List.getElem?_set_ne (Ne.symm hnk), hn]

theorem filterMap_set_of_eq {f : α → Option β} (h : l[k]? = some a) (hf : f b = f a) :
    (l.set k b).filterMap f = l.filterMap f := by
  obtain ⟨l₁, l₂, rfl, hset⟩ := split_at h
  rw [hset, List.filterMap_append, List.filterMap_append, List.filterMap_cons, List.filterMap_cons,
    hf]

/-- What the other parties have taken does not depend on the move. -/
theorem exists_others (f : α → Option β) (h : l[k]? = some a) :
    ∃ others, (l.filterMap f).Perm ((f a).toList ++ others) ∧
      ∀ b, ((l.set k b).filterMap f).Perm ((f b).toList ++ others) := by
  obtain ⟨l₁, l₂, rfl, hset⟩ := split_at h
  have hperm : ∀ b, ((l₁ ++ b :: l₂).filterMap f).Perm
      ((f b).toList ++ (l₁.filterMap f ++ l₂.filterMap f)) := by
    intro b
    rw [List.filterMap_append]
    cases hb : f b with
    | none => rw [List.filterMap_cons_none hb]; exact .refl _
    | some x => rw [List.filterMap_cons_some hb]; exact List.perm_middle
  exact ⟨l₁.filterMap f ++ l₂.filterMap f, hperm a, fun b => hset b ▸ hperm b⟩

theorem filterMap_set_perm {f : α → Option β} {x : β} (h : l[k]? = some a) (ha : f a = none)
    (hb : f b = some x) : ((l.set k b).filterMap f).Perm (x :: l.filterMap f) := by
  obtain ⟨others, hold, hnew⟩ := exists_others f h
  have hset := hnew b
  rw [ha] at hold
  rw [hb] at hset
  exact hset.trans (hold.symm.cons x)

theorem map_set_of_eq {f : α → β} (h : l[k]? = some a) (hf : f b = f a) :
    (l.set k b).map f = l.map f := by
  obtain ⟨l₁, l₂, rfl, hset⟩ := split_at h
  rw [hset, List.map_append, List.map_append, List.map_cons, List.map_cons, hf]

/-- Where the parties have different keys, a move that keeps the key leaves the parties with the
others. -/
theorem mem_set_cases {f : α → β} {x : α} (h : l[k]? = some a) (hf : f b = f a)
    (hnodup : (l.map f).Nodup) (hx : x ∈ l.set k b) : x = b ∨ x ∈ l ∧ f x ≠ f a := by
  by_cases hkey : f x = f a
  · have hb : b ∈ l.set k b := List.mem_set (List.getElem?_eq_some_iff.mp h).1 b
    rw [← map_set_of_eq h hf] at hnodup
    exact .inl (List.inj_on_of_nodup_map hnodup hx hb (hkey.trans hf.symm))
  · rcases List.mem_or_eq_of_mem_set hx with hx | rfl
    · exact .inr ⟨hx, hkey⟩
    · exact absurd hf hkey

/-- No two parties have taken the same item. -/
theorem eq_of_nodup_filterMap {f : α → Option β} {i j : ℕ} {x : β} (h : (l.filterMap f).Nodup)
    (hi : l[i]? = some a) (hj : l[j]? = some b) (ha : f a = some x) (hb : f b = some x) :
    i = j := by
  obtain ⟨hilt, rfl⟩ := List.getElem?_eq_some_iff.mp hi
  obtain ⟨hjlt, rfl⟩ := List.getElem?_eq_some_iff.mp hj
  rw [List.Nodup, List.pairwise_filterMap, List.pairwise_iff_getElem] at h
  rcases Nat.lt_trichotomy i j with hlt | heq | hlt
  · exact absurd rfl (h i j hilt hjlt hlt x ha x hb)
  · exact heq
  · exact absurd rfl (h j i hjlt hilt hlt x hb x ha)

/-! ### Two parts of one party -/

section Zip

variable {γ : Type*} {m : List γ} {c : γ}

/-- Setting a place on the left sets the pair. -/
theorem zip_set_left (h : m[k]? = some c) (b : α) :
    (l.set k b).zip m = (l.zip m).set k (b, c) := by
  induction l generalizing m k with
  | nil => rfl
  | cons x l ih =>
    cases m with
    | nil => simp at h
    | cons y m =>
      cases k with
      | zero =>
        obtain rfl : y = c := by simpa using h
        rfl
      | succ k =>
        have hrest := ih (m := m) (k := k) (by simpa using h)
        simp only [List.set_cons_succ, List.zip_cons_cons, hrest]

/-- Setting a place on the right sets the pair. -/
theorem zip_set_right (h : l[k]? = some a) (c : γ) :
    l.zip (m.set k c) = (l.zip m).set k (a, c) := by
  induction l generalizing m k with
  | nil => rfl
  | cons x l ih =>
    cases m with
    | nil => simp
    | cons y m =>
      cases k with
      | zero =>
        obtain rfl : x = a := by simpa using h
        rfl
      | succ k =>
        have hrest := ih (m := m) (k := k) (by simpa using h)
        simp only [List.set_cons_succ, List.zip_cons_cons, hrest]

end Zip

end Party

end Boardwalk
