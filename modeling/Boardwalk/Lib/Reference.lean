import Boardwalk.Lib.Str

/-!
# Path references

What becomes of the path of a reference that is resolved: its segments are taken one by one from the
directory that the reference stands in.  A segment of one dot stays there and one of two dots goes
up, also where the dots are percent-encoded.
-/

namespace Boardwalk

namespace Reference

/-- The spellings of a segment that stays. -/
def dots : List String := [".", "%2e", "%2E"]

/-- The spellings of a segment that goes up. -/
def dotDots : List String :=
  ["..", ".%2e", ".%2E", "%2e.", "%2E.", "%2e%2e", "%2e%2E", "%2E%2e", "%2E%2E"]

/-- The directory after a segment that others follow. -/
def enter (dir : List String) (s : String) : List String :=
  if s ∈ dotDots then dir.dropLast else if s ∈ dots then dir else dir ++ [s]

/-- The path of a last segment in a directory. -/
def finish (dir : List String) (s : String) : List String :=
  if s ∈ dotDots then dir.dropLast ++ [""] else if s ∈ dots then dir ++ [""] else dir ++ [s]

/-- The segments of the path that a reference in a directory leads to. -/
def resolve : List String → List String → List String
  | dir, [] => dir
  | dir, [s] => finish dir s
  | dir, s :: t :: rest => resolve (enter dir s) (t :: rest)

/-- The segment has no meaning of its own. -/
def IsPlain (s : String) : Prop := s ∉ dotDots ∧ s ∉ dots

instance (s : String) : Decidable (IsPlain s) := inferInstanceAs (Decidable (_ ∧ _))

theorem enter_of_isPlain {s : String} (h : IsPlain s) (dir : List String) :
    enter dir s = dir ++ [s] := by
  rw [enter, if_neg h.1, if_neg h.2]

theorem finish_of_isPlain {s : String} (h : IsPlain s) (dir : List String) :
    finish dir s = dir ++ [s] := by
  rw [finish, if_neg h.1, if_neg h.2]

/-- Plain segments are appended. -/
theorem resolve_of_isPlain {ref : List String} (h : ∀ s ∈ ref, IsPlain s) (dir : List String) :
    resolve dir ref = dir ++ ref := by
  induction ref generalizing dir with
  | nil => rw [resolve, List.append_nil]
  | cons s rest ih =>
    have hs := h s List.mem_cons_self
    cases rest with
    | nil => rw [resolve, finish_of_isPlain hs]
    | cons t rest =>
      rw [resolve, enter_of_isPlain hs, ih fun u hu => h u (List.mem_cons_of_mem s hu),
        List.append_assoc, List.singleton_append]

theorem mem_enter {dir : List String} {s x : String} (h : x ∈ enter dir s) : x ∈ dir ∨ x = s := by
  unfold enter at h
  split at h
  · exact .inl ((List.dropLast_sublist dir).mem h)
  · split at h
    · exact .inl h
    · simpa using h

/-- What a reference ends in is of its directory, or its last segment, or empty. -/
theorem mem_finish {dir : List String} {s x : String} (h : x ∈ finish dir s) :
    x ∈ dir ∨ x = s ∨ x = "" := by
  unfold finish at h
  split at h
  · rcases List.mem_append.mp h with h | h
    · exact .inl ((List.dropLast_sublist dir).mem h)
    · exact .inr (.inr (List.mem_singleton.mp h))
  · split at h
    · rcases List.mem_append.mp h with h | h
      · exact .inl h
      · exact .inr (.inr (List.mem_singleton.mp h))
    · rcases List.mem_append.mp h with h | h
      · exact .inl h
      · exact .inr (.inl (List.mem_singleton.mp h))

/-- Nothing comes into the path but the segments of the two, and the empty one. -/
theorem mem_resolve {ref dir : List String} {x : String} (h : x ∈ resolve dir ref) :
    x ∈ dir ∨ x ∈ ref ∨ x = "" := by
  induction ref generalizing dir with
  | nil => exact .inl h
  | cons s rest ih =>
    cases rest with
    | nil =>
      rcases mem_finish h with h | h | h
      · exact .inl h
      · exact .inr (.inl (List.mem_singleton.mpr h))
      · exact .inr (.inr h)
    | cons t rest =>
      rcases ih h with h | h | h
      · rcases mem_enter h with h | h
        · exact .inl h
        · exact .inr (.inl (h ▸ List.mem_cons_self))
      · exact .inr (.inl (List.mem_cons_of_mem s h))
      · exact .inr (.inr h)

end Reference

end Boardwalk
