import Boardwalk.Events.Topic
import Boardwalk.Lib.Cut

/-!
# What a topic pattern matches

The matcher tries the lengths of a `**` one after the other.  What it decides is that the parts of
the topic can be cut into consecutive groups, one for each segment (`matchesAt_iff_cut`).  A segment
is read off one part of the pattern's text, so the parts of the text say the same (`PartTakes`).
-/

namespace Boardwalk

variable {ρ : Type} {ops : TopicOps ρ}

/-- The group of parts a segment takes. -/
def Segment.Takes (ops : TopicOps ρ) : Segment ρ → List String → Prop
  | .literal s, g => g = [s]
  | .singleWild, g => ∃ part, g = [part]
  | .multiWild, g => g ≠ []
  | .regex re, g => ∃ part, g = [part] ∧ ops.isMatch re part = true

namespace TopicPattern

/-- The first segment takes the first part alone. -/
theorem cut_cons_single_iff {seg : Segment ρ} {pat : List (Segment ρ)} {accepts : String → Bool}
    (h : ∀ g, seg.Takes ops g ↔ ∃ part, g = [part] ∧ accepts part = true) (parts : List String) :
    Cut (Segment.Takes ops) (seg :: pat) parts ↔
      ∃ part rest, parts = part :: rest ∧ accepts part = true ∧
        Cut (Segment.Takes ops) pat rest := by
  rw [cut_cons_iff]
  constructor
  · rintro ⟨g, rest, rfl, hg, hrest⟩
    obtain ⟨part, rfl, hpart⟩ := (h g).mp hg
    exact ⟨part, rest, rfl, hpart, hrest⟩
  · rintro ⟨part, rest, rfl, hpart, hrest⟩
    exact ⟨[part], rest, rfl, (h [part]).mpr ⟨part, rfl, hpart⟩, hrest⟩

/-- A segment that takes one part matches as its cut does, given the same of the rest. -/
theorem matchesAt_single {seg : Segment ρ} {pat : List (Segment ρ)} (accepts : String → Bool)
    (h : ∀ g, seg.Takes ops g ↔ ∃ part, g = [part] ∧ accepts part = true)
    (hnil : matchesAt ops (seg :: pat) [] = false)
    (hcons : ∀ part parts, matchesAt ops (seg :: pat) (part :: parts) =
      (accepts part && matchesAt ops pat parts))
    (ih : ∀ parts, matchesAt ops pat parts = true ↔ Cut (Segment.Takes ops) pat parts)
    (parts : List String) : matchesAt ops (seg :: pat) parts = true ↔
      Cut (Segment.Takes ops) (seg :: pat) parts := by
  rw [cut_cons_single_iff h]
  cases parts with
  | nil => simp [hnil]
  | cons part parts =>
    rw [hcons, Bool.and_eq_true, ih]
    constructor
    · rintro ⟨hpart, hrest⟩
      exact ⟨part, parts, rfl, hpart, hrest⟩
    · rintro ⟨part', rest, heq, hpart, hrest⟩
      cases heq
      exact ⟨hpart, hrest⟩

/-- **The matcher decides whether the parts can be cut into groups that the segments take.** -/
theorem matchesAt_iff_cut (pat : List (Segment ρ)) (parts : List String) :
    matchesAt ops pat parts = true ↔ Cut (Segment.Takes ops) pat parts := by
  -- induction on the pattern, over every list of parts
  induction pat generalizing parts with
  | nil =>
    rw [cut_nil_iff]
    simp [matchesAt]
  | cons seg pat ih =>
    cases seg with
    | literal s =>
      -- a literal, `*` and a regular expression each take one part
      refine matchesAt_single (fun part => part == s) ?_ ?_ ?_ ih parts
      · intro g
        simp [Segment.Takes]
      · cases pat <;> rfl
      · intro part parts
        cases pat <;> rfl
    | singleWild =>
      refine matchesAt_single (fun _ => true) ?_ ?_ ?_ ih parts
      · intro g
        simp [Segment.Takes]
      · cases pat <;> rfl
      · intro part parts
        cases pat <;> rfl
    | regex re =>
      refine matchesAt_single (fun part => ops.isMatch re part) ?_ ?_ ?_ ih parts
      · intro g
        exact Iff.rfl
      · cases pat <;> rfl
      · intro part parts
        cases pat <;> rfl
    | multiWild =>
      -- `**` takes one part or more
      rw [cut_cons_iff]
      cases pat with
      | nil =>
        -- at the end it takes all that is left
        have hlast : matchesAt ops [.multiWild] parts = !parts.isEmpty := rfl
        rw [hlast]
        constructor
        · intro h
          exact ⟨parts, [], (List.append_nil _).symm, by simpa [Segment.Takes] using h,
            cut_nil_iff.mpr rfl⟩
        · rintro ⟨g, rest, rfl, hg, hrest⟩
          rw [cut_nil_iff] at hrest
          subst hrest
          simpa [Segment.Takes] using hg
      | cons seg' pat =>
        -- else every length is tried, the shortest first
        have htry : matchesAt ops (.multiWild :: seg' :: pat) parts =
            (List.range parts.length).any fun n =>
              matchesAt ops (seg' :: pat) (parts.drop (n + 1)) := rfl
        rw [htry, List.any_eq_true]
        constructor
        · -- the part after the first `n + 1` goes to the rest of the pattern
          rintro ⟨n, hn, hmatch⟩
          rw [List.mem_range] at hn
          refine ⟨parts.take (n + 1), parts.drop (n + 1), (List.take_append_drop _ _).symm, ?_,
            (ih _).mp hmatch⟩
          show parts.take (n + 1) ≠ []
          rw [ne_eq, List.take_eq_nil_iff]
          rintro (h | rfl)
          · omega
          · simp at hn
        · rintro ⟨g, rest, rfl, hg, hrest⟩
          have hpos : 0 < g.length := List.length_pos_iff.mpr hg
          refine ⟨g.length - 1, ?_, ?_⟩
          · rw [List.mem_range, List.length_append]
            omega
          · rw [Nat.sub_add_cancel hpos, List.drop_left]
            exact (ih rest).mpr hrest

/-- What a pattern matches, said of the parts of a topic. -/
theorem matchesTopic_iff_cut (p : TopicPattern ρ) (topic : String) :
    p.matchesTopic ops topic = true ↔
      Cut (Segment.Takes ops) p.segments (Str.split '/' topic) :=
  matchesAt_iff_cut p.segments (Str.split '/' topic)

/-! ### The parts of the text -/

/-- The group of parts that a part of a pattern's text takes. -/
def PartTakes (ops : TopicOps ρ) (part : String) (g : List String) : Prop :=
  if part = "*" then ∃ x, g = [x]
  else if part = "**" then g ≠ []
  else match bracedInner part with
    | some inner => ∃ re, ops.regexNew inner = .ok re ∧ ∃ x, g = [x] ∧ ops.isMatch re x = true
    | none => g = [part]

/-- A part that parses takes what its segment takes. -/
theorem takes_of_parseSegment {idx : ℕ} {part : String} {seg : Segment ρ}
    (h : parseSegment ops idx part = .ok seg) (g : List String) :
    PartTakes ops part g ↔ seg.Takes ops g := by
  unfold parseSegment at h
  unfold PartTakes
  -- `*`, `**`, braces, and everything else
  split at h
  · rename_i hstar
    cases h
    rw [if_pos hstar]
    exact Iff.rfl
  · rename_i hstar
    rw [if_neg hstar]
    split at h
    · rename_i hwild
      cases h
      rw [if_pos hwild]
      exact Iff.rfl
    · rename_i hwild
      rw [if_neg hwild]
      rcases hinner : bracedInner part with _ | inner
      · simp only [hinner] at h
        cases h
        exact Iff.rfl
      · simp only [hinner] at h
        -- the regular expression compiles, or the part is no pattern at all
        split at h
        · rename_i re hre
          cases h
          simp [hre, Segment.Takes]
        · cases h

/-- A part that takes a group parses. -/
theorem parseSegment_of_takes {part : String} {g : List String} (h : PartTakes ops part g)
    (idx : ℕ) : ∃ seg, parseSegment ops idx part = .ok seg := by
  unfold PartTakes at h
  unfold parseSegment
  split at h
  · rename_i hstar
    exact ⟨.singleWild, if_pos hstar⟩
  · rename_i hstar
    rw [if_neg hstar]
    split at h
    · rename_i hwild
      exact ⟨.multiWild, if_pos hwild⟩
    · rename_i hwild
      rw [if_neg hwild]
      rcases hinner : bracedInner part with _ | inner
      · exact ⟨.literal part, rfl⟩
      · simp only [hinner] at h
        obtain ⟨re, hre, -⟩ := h
        exact ⟨.regex re, by simp [hre]⟩

/-- A pattern of parts cuts a topic exactly as the segments parsed from it do. -/
theorem cut_of_parseSegments {idx : ℕ} {parts : List String} {segs : List (Segment ρ)}
    (h : parseSegments ops idx parts = .ok segs) (topic : List String) :
    Cut (PartTakes ops) parts topic ↔ Cut (Segment.Takes ops) segs topic := by
  refine cut_forall₂_iff ?_
  induction parts generalizing idx segs with
  | nil =>
    cases h
    exact .nil
  | cons part parts ih =>
    obtain ⟨seg, hseg, h⟩ := bind_eq_ok_iff.mp h
    obtain ⟨segs', hsegs, h⟩ := bind_eq_ok_iff.mp h
    cases h
    exact .cons (takes_of_parseSegment hseg) (ih hsegs)

theorem parseSegments_of_cut {parts topic : List String} (h : Cut (PartTakes ops) parts topic)
    (idx : ℕ) : ∃ segs, parseSegments ops idx parts = .ok segs := by
  induction parts generalizing idx topic with
  | nil => exact ⟨[], rfl⟩
  | cons part parts ih =>
    obtain ⟨g, rest, -, hpart, hrest⟩ := cut_cons_iff.mp h
    obtain ⟨seg, hseg⟩ := parseSegment_of_takes hpart idx
    obtain ⟨segs, hsegs⟩ := ih hrest (idx + 1)
    exact ⟨seg :: segs, by simp only [parseSegments, hseg, hsegs]; rfl⟩

/-! ### The suffix -/

theorem ne_of_mem {s : String} (h : '?' ∉ s.toList) :
    ∀ c ∈ s.toList, decide (c ≠ '?') = true := by
  intro c hc
  rw [decide_eq_true_iff]
  rintro rfl
  exact h hc

/-- A text without `?` has no suffix. -/
theorem splitSuffix_of_not_mem {s : String} (h : '?' ∉ s.toList) : splitSuffix s = (s, none) := by
  have hall := ne_of_mem h
  unfold splitSuffix
  rw [List.takeWhile_eq_self_iff.mpr hall, List.dropWhile_eq_nil_iff.mpr hall]
  simp

/-- The first `?` of a text is what cuts it. -/
theorem splitSuffix_append {s : String} (h : '?' ∉ s.toList) (suffix : String) :
    splitSuffix (s ++ "?" ++ suffix) = (s, some suffix) := by
  have hall := ne_of_mem h
  have htext : (s ++ "?" ++ suffix).toList = s.toList ++ '?' :: suffix.toList := by
    simp
  unfold splitSuffix
  rw [htext, List.takeWhile_append_of_pos hall, List.dropWhile_append_of_pos hall]
  simp

/-- The parts of a parse that succeeds. -/
theorem parse_eq_ok_iff {input : String} {p : TopicPattern ρ} :
    parse ops input = .ok p ↔ input ≠ "" ∧
      parseSuffix ops (splitSuffix input).2 = .ok p.filter ∧
      parseSegments ops 0 (Str.split '/' (splitSuffix input).1) = .ok p.segments ∧
      p.raw = input := by
  unfold parse
  split
  · rename_i hempty
    exact ⟨nofun, fun h => absurd hempty h.1⟩
  · rename_i hne
    constructor
    · intro h
      obtain ⟨filter, hfilter, h⟩ := bind_eq_ok_iff.mp h
      obtain ⟨segs, hsegs, h⟩ := bind_eq_ok_iff.mp h
      cases h
      exact ⟨hne, hfilter, hsegs, rfl⟩
    · rintro ⟨-, hfilter, hsegs, hraw⟩
      refine bind_eq_ok_iff.mpr ⟨p.filter, hfilter, bind_eq_ok_iff.mpr ⟨p.segments, hsegs, ?_⟩⟩
      rw [← hraw]
      rfl

/-- **When a text is a pattern that matches a topic**, said of the text: it is not empty, what
follows its first `?` is a filter, and the parts of the topic can be cut into groups that the parts
of the text take. -/
theorem parse_and_match_iff {input topic : String} :
    (∃ p, parse ops input = .ok p ∧ p.matchesTopic ops topic = true) ↔
      input ≠ "" ∧ (∃ filter, parseSuffix ops (splitSuffix input).2 = .ok filter) ∧
        Cut (PartTakes ops) (Str.split '/' (splitSuffix input).1) (Str.split '/' topic) := by
  constructor
  · rintro ⟨p, hparse, hmatch⟩
    obtain ⟨hne, hfilter, hsegs, -⟩ := parse_eq_ok_iff.mp hparse
    refine ⟨hne, ⟨_, hfilter⟩, ?_⟩
    rw [cut_of_parseSegments hsegs]
    exact (matchesAt_iff_cut _ _).mp hmatch
  · rintro ⟨hne, ⟨filter, hfilter⟩, hcut⟩
    obtain ⟨segs, hsegs⟩ := parseSegments_of_cut hcut 0
    refine ⟨⟨segs, filter, input⟩, parse_eq_ok_iff.mpr ⟨hne, hfilter, hsegs, rfl⟩, ?_⟩
    rw [cut_of_parseSegments hsegs] at hcut
    exact (matchesAt_iff_cut _ _).mpr hcut

/-! ### Literal patterns -/

/-- Literals take their own parts and no others. -/
theorem matchesAt_literals {texts parts : List String} :
    matchesAt ops (texts.map .literal) parts = true ↔ parts = texts := by
  rw [matchesAt_iff_cut]
  induction texts generalizing parts with
  | nil => exact cut_nil_iff
  | cons text texts ih =>
    have htakes : ∀ g, (Segment.literal text).Takes ops g ↔
        ∃ part, g = [part] ∧ (part == text) = true := by
      intro g
      simp [Segment.Takes]
    rw [List.map_cons, cut_cons_single_iff htakes]
    constructor
    · rintro ⟨part, rest, rfl, hpart, hrest⟩
      rw [beq_iff_eq.mp hpart, ih.mp hrest]
    · rintro rfl
      exact ⟨text, texts, rfl, beq_self_eq_true text, ih.mpr rfl⟩

/-- A literal is the part it was parsed from. -/
theorem parts_of_parseSegments {idx : ℕ} {parts texts : List String}
    (h : parseSegments ops idx parts = .ok (texts.map .literal)) : parts = texts := by
  -- a pattern of literals has a literal for each part
  induction parts generalizing idx texts with
  | nil =>
    cases texts with
    | nil => rfl
    | cons text texts => cases h
  | cons part parts ih =>
    obtain ⟨seg, hseg, h⟩ := bind_eq_ok_iff.mp h
    obtain ⟨segs, hsegs, h⟩ := bind_eq_ok_iff.mp h
    cases texts with
    | nil => cases h
    | cons text texts =>
      cases h
      rw [ih hsegs]
      -- only what has no syntax in it is read as a literal
      have hpart : part = text := by
        unfold parseSegment at hseg
        split at hseg
        · cases hseg
        · split at hseg
          · cases hseg
          · split at hseg
            · split at hseg <;> cases hseg
            · cases hseg
              rfl
      rw [hpart]

/-- **A pattern of literals matches the topic it was written as.** -/
theorem matchesTopic_of_literals {input : String} {p : TopicPattern ρ} {texts : List String}
    (hparse : parse ops input = .ok p) (htexts : p.segments = texts.map .literal)
    (topic : String) : p.matchesTopic ops topic = true ↔ topic = (splitSuffix input).1 := by
  obtain ⟨-, -, hsegs, -⟩ := parse_eq_ok_iff.mp hparse
  rw [htexts] at hsegs
  unfold matchesTopic
  rw [htexts, matchesAt_literals, ← parts_of_parseSegments hsegs]
  exact ⟨Str.split_inj, fun h => by rw [h]⟩

end TopicPattern

end Boardwalk
