import Mathlib.Data.List.Basic
import Mathlib.Data.List.Nodup
import Mathlib.Tactic.Common

/-!
# A snapshot spliced with a live feed

A reader that first shows a snapshot and then a live feed sees an item twice if the feed carries
what the snapshot already had.  It drops those by their keys, each key once: `Outstanding` are the
keys it has still to drop.  What it has shown is then `splice`, the snapshot followed by the items
of the feed whose keys are not in it.

`mem_splice` says that nothing is lost and `nodup_splice` that nothing is shown twice, when neither
side repeats a key; `pairwise_splice` is what the order of the two sides says about the order of the
whole.
-/

namespace Boardwalk

namespace Splice

variable {ε ι : Type*} [DecidableEq ι] {key : ε → ι} {snapshot live : List ε} {x : ε}

/-- The snapshot, and then the items of the feed whose keys are not in it. -/
def splice (key : ε → ι) (snapshot live : List ε) : List ε :=
  snapshot ++ live.filter fun x => key x ∉ snapshot.map key

/-- `k` is the key of a shown item that has not come on the feed. -/
def Outstanding (key : ε → ι) (snapshot live : List ε) (k : ι) : Prop :=
  k ∈ snapshot.map key ∧ k ∉ live.map key

@[simp] theorem splice_nil (key : ε → ι) (snapshot : List ε) :
    splice key snapshot [] = snapshot := List.append_nil _

/-- An item of the snapshot is dropped from the feed. -/
theorem splice_concat_of_mem (h : key x ∈ snapshot.map key) :
    splice key snapshot (live ++ [x]) = splice key snapshot live := by
  rw [splice, splice, List.filter_append, List.filter_cons_of_neg (by simpa using h),
    List.filter_nil, List.append_nil]

/-- Any other item is shown. -/
theorem splice_concat_of_notMem (h : key x ∉ snapshot.map key) :
    splice key snapshot (live ++ [x]) = splice key snapshot live ++ [x] := by
  rw [splice, splice, List.filter_append, List.filter_cons_of_pos (by simpa using h),
    List.filter_nil, List.append_assoc]

omit [DecidableEq ι] in
/-- The drop of an item settles its key and no other. -/
theorem outstanding_concat_iff {k : ι} :
    Outstanding key snapshot (live ++ [x]) k ↔ Outstanding key snapshot live k ∧ k ≠ key x := by
  simp only [Outstanding, List.map_append, List.mem_append, List.map_singleton,
    List.mem_singleton]
  tauto

omit [DecidableEq ι] in
/-- An item that comes for the first time is outstanding exactly when the snapshot has its key. -/
theorem outstanding_key_iff (h : ((live ++ [x]).map key).Nodup) :
    Outstanding key snapshot live (key x) ↔ key x ∈ snapshot.map key := by
  have hfirst : key x ∉ live.map key := by
    intro hmem
    rw [List.map_append, List.nodup_append] at h
    exact h.2.2 (key x) hmem (key x) (by simp) rfl
  exact ⟨And.left, fun hmem => ⟨hmem, hfirst⟩⟩

theorem mem_splice : x ∈ splice key snapshot live ↔
    x ∈ snapshot ∨ x ∈ live ∧ key x ∉ snapshot.map key := by
  simp [splice]

/-- **Nothing is lost**, when an item of the feed with a key of the snapshot is the same item. -/
theorem mem_splice_of_mem_live (hx : x ∈ live)
    (h : ∀ y ∈ snapshot, key y = key x → y = x) : x ∈ splice key snapshot live := by
  rw [mem_splice]
  by_cases hkey : key x ∈ snapshot.map key
  · obtain ⟨y, hy, heq⟩ := List.mem_map.mp hkey
    obtain rfl := h y hy heq
    exact .inl hy
  · exact .inr ⟨hx, hkey⟩

/-- **Nothing is shown twice.** -/
theorem nodup_splice (hsnapshot : (snapshot.map key).Nodup) (hlive : (live.map key).Nodup) :
    ((splice key snapshot live).map key).Nodup := by
  rw [splice, List.map_append, List.nodup_append]
  refine ⟨hsnapshot, hlive.sublist (List.filter_sublist.map key), ?_⟩
  rintro k hk _ hmem rfl
  obtain ⟨x, hx, rfl⟩ := List.mem_map.mp hmem
  have hnew : key x ∉ snapshot.map key := by simpa using (List.mem_filter.mp hx).2
  exact hnew hk

/-- **Both sides in order, and the new items of the feed beyond the snapshot.** -/
theorem pairwise_splice {R : ε → ε → Prop} (hsnapshot : snapshot.Pairwise R)
    (hlive : live.Pairwise R)
    (h : ∀ x ∈ snapshot, ∀ y ∈ live, key y ∉ snapshot.map key → R x y) :
    (splice key snapshot live).Pairwise R := by
  refine List.pairwise_append.mpr ⟨hsnapshot, hlive.filter _, fun x hx y hy => ?_⟩
  obtain ⟨hy, hnew⟩ := List.mem_filter.mp hy
  exact h x hx y hy (by simpa using hnew)

end Splice

end Boardwalk
