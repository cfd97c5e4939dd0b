import Boardwalk.Lib.Cut
import Boardwalk.Query.Eval

/-!
# The language of a glob

The matcher of `like` tries, at a star, the rest of the pattern before it gives the star one more
character, and so backtracks over every way to end a star.  What it decides is that the text can be
cut into consecutive pieces, one for each character of the pattern (`globHelper_iff_cut`).  Both
recursive calls of a star shorten the pattern or the text, so that the search ends on every pair.
-/

namespace Boardwalk

/-- The piece of a text that a character of a glob takes: a star any piece, `?` one character and
any other character itself. -/
def GlobTakes (pc : Char) (piece : List Char) : Prop :=
  if pc = '*' then True
  else if pc = '?' then ∃ c, piece = [c]
  else piece = [pc]

/-- A character other than a star takes one character of the text. -/
theorem globTakes_iff {pc : Char} (hstar : pc ≠ '*') (piece : List Char) :
    GlobTakes pc piece ↔ ∃ c, piece = [c] ∧ (pc = '?' ∨ pc = c) := by
  unfold GlobTakes
  rw [if_neg hstar]
  split
  · rename_i hmark
    simp [hmark]
  · rename_i hmark
    simp [hmark]

/-- A star at the end of the text takes nothing. -/
theorem cut_star_nil_iff {p : List Char} :
    Cut GlobTakes ('*' :: p) [] ↔ Cut GlobTakes p [] := by
  rw [cut_cons_iff]
  constructor
  · rintro ⟨piece, rest, heq, -, hrest⟩
    obtain ⟨-, rfl⟩ := List.append_eq_nil_iff.mp heq.symm
    exact hrest
  · intro h
    exact ⟨[], [], rfl, by simp [GlobTakes], h⟩

/-- A star takes nothing, or the next character and then what a star takes. -/
theorem cut_star_cons_iff {p s : List Char} {c : Char} :
    Cut GlobTakes ('*' :: p) (c :: s) ↔
      Cut GlobTakes p (c :: s) ∨ Cut GlobTakes ('*' :: p) s := by
  constructor
  · intro h
    obtain ⟨piece, rest, heq, -, hrest⟩ := cut_cons_iff.mp h
    cases piece with
    | nil =>
      rw [List.nil_append] at heq
      exact Or.inl (heq ▸ hrest)
    | cons c' piece =>
      rw [List.cons_append, List.cons.injEq] at heq
      exact Or.inr (cut_cons_iff.mpr ⟨piece, rest, heq.2, by simp [GlobTakes], hrest⟩)
  · rintro (h | h)
    · exact cut_cons_iff.mpr ⟨[], c :: s, rfl, by simp [GlobTakes], h⟩
    · obtain ⟨piece, rest, rfl, -, hrest⟩ := cut_cons_iff.mp h
      exact cut_cons_iff.mpr ⟨c :: piece, rest, rfl, by simp [GlobTakes], hrest⟩

/-- Another character takes no piece of an empty text. -/
theorem not_cut_nil {pc : Char} {p : List Char} (hstar : pc ≠ '*') :
    ¬ Cut GlobTakes (pc :: p) [] := by
  rw [cut_cons_iff]
  rintro ⟨piece, rest, heq, htakes, -⟩
  obtain ⟨c, rfl, -⟩ := (globTakes_iff hstar piece).mp htakes
  simp at heq

/-- Another character takes the next character of the text. -/
theorem cut_char_cons_iff {pc c : Char} {p s : List Char} (hstar : pc ≠ '*') :
    Cut GlobTakes (pc :: p) (c :: s) ↔ (pc = '?' ∨ pc = c) ∧ Cut GlobTakes p s := by
  rw [cut_cons_iff]
  constructor
  · rintro ⟨piece, rest, heq, htakes, hrest⟩
    obtain ⟨c', rfl, hc⟩ := (globTakes_iff hstar piece).mp htakes
    rw [List.singleton_append, List.cons.injEq] at heq
    obtain ⟨rfl, rfl⟩ := heq
    exact ⟨hc, hrest⟩
  · rintro ⟨hc, hrest⟩
    exact ⟨[c], s, rfl, (globTakes_iff hstar [c]).mpr ⟨c, rfl, hc⟩, hrest⟩

/-- **The matcher decides whether the text can be cut into pieces that the characters of the glob
take**; a call answers once its two shorter calls have. -/
theorem globHelper_iff_cut (p s : List Char) :
    globHelper p s = true ↔ Cut GlobTakes p s := by
  fun_induction globHelper p s with
  | case1 => simp
  | case2 c s => simp
  | case3 p ih => rw [ih, cut_star_nil_iff]
  | case4 p c s ihskip ihmore => rw [Bool.or_eq_true, ihskip, ihmore, cut_star_cons_iff]
  | case5 pc p hstar => simp [not_cut_nil hstar]
  | case6 pc p c s hstar ih =>
    rw [cut_char_cons_iff hstar]
    simp [ih]

/-- `glob_match` on the texts. -/
theorem globMatch_iff_cut (pat s : String) :
    globMatch pat s = true ↔ Cut GlobTakes pat.toList s.toList :=
  globHelper_iff_cut pat.toList s.toList

end Boardwalk
