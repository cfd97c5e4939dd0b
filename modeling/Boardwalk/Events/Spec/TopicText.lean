import Boardwalk.Events.Spec.Topic

/-!
# The text of a topic pattern

A pattern is written as the texts of its segments with a `/` between them.  Parsing looks for the
first `?` of the whole text and for every `/` before it, also inside the braces of a regular
expression, and it rejects the empty text, which is what a single empty literal is written as.  All
other patterns parse back (`parse_written`).
-/

namespace Boardwalk

variable {ρ : Type} {ops : TopicOps ρ}

open TopicPattern

/-- A text that can be written as a literal. -/
def IsLiteral (s : String) : Prop :=
  '/' ∉ s.toList ∧ '?' ∉ s.toList ∧ s ≠ "*" ∧ s ≠ "**" ∧ bracedInner s = none

instance (s : String) : Decidable (IsLiteral s) := inferInstanceAs (Decidable (_ ∧ _))

/-- The text of a segment. -/
inductive Segment.Writes (ops : TopicOps ρ) : String → Segment ρ → Prop
  | literal {s : String} (hs : IsLiteral s) : Writes ops s (.literal s)
  | singleWild : Writes ops "*" .singleWild
  | multiWild : Writes ops "**" .multiWild
  | regex {source : String} {re : ρ} (hre : ops.regexNew source = .ok re) :
      Writes ops ("\x7b" ++ source ++ "\x7d") (.regex re)

namespace TopicPattern

/-- The inner text of a braced source is the source. -/
@[simp] theorem bracedInner_braces (source : String) :
    bracedInner ("\x7b" ++ source ++ "\x7d") = some source := by
  have htext : ("\x7b" ++ source ++ "\x7d").toList = '\x7b' :: (source.toList ++ ['\x7d']) := by
    simp
  have hsize : 2 ≤ ("\x7b" ++ source ++ "\x7d").utf8ByteSize := by
    have hopen : "\x7b".utf8ByteSize = 1 := by decide
    have hclose : "\x7d".utf8ByteSize = 1 := by decide
    rw [String.utf8ByteSize_append, String.utf8ByteSize_append]
    omega
  have hlast : ("\x7b" ++ source ++ "\x7d").toList.getLast? = some '\x7d' := by
    rw [htext, ← List.cons_append, List.getLast?_concat]
  unfold bracedInner
  rw [if_pos ⟨by simp [htext], hlast, hsize⟩, htext]
  simp

/-- The text of a segment parses as the segment. -/
theorem parseSegment_of_writes {text : String} {seg : Segment ρ} (h : Segment.Writes ops text seg)
    (idx : ℕ) : parseSegment ops idx text = .ok seg := by
  unfold parseSegment
  cases h with
  | literal hs =>
    obtain ⟨-, -, hstar, hwild, hbraced⟩ := hs
    rw [if_neg hstar, if_neg hwild, hbraced]
  | singleWild => rfl
  | multiWild => rfl
  | @regex source re hre =>
    have hstar : "\x7b" ++ source ++ "\x7d" ≠ "*" := by
      intro heq
      have hhead := congrArg (fun s => s.toList.head?) heq
      simp at hhead
    have hwild : "\x7b" ++ source ++ "\x7d" ≠ "**" := by
      intro heq
      have hhead := congrArg (fun s => s.toList.head?) heq
      simp at hhead
    rw [if_neg hstar, if_neg hwild, bracedInner_braces]
    simp only [hre]

theorem parseSegments_of_writes {texts : List String} {segs : List (Segment ρ)}
    (h : List.Forall₂ (Segment.Writes ops) texts segs) (idx : ℕ) :
    parseSegments ops idx texts = .ok segs := by
  induction h generalizing idx with
  | nil => rfl
  | cons hseg _ ih =>
    simp only [parseSegments, parseSegment_of_writes hseg idx, ih (idx + 1)]
    rfl

/-- The `ql` parameter of a suffix that has no other. -/
theorem parseFilter_of_decoded {suffix value : String} {q : Query}
    (hdecode : ops.formUrlencoded suffix = [("ql", value)]) (hq : Caql.parse value = .ok q) :
    parseFilter ops suffix = .ok q := by
  unfold parseFilter
  rw [hdecode]
  simp [hq]

/-- **A pattern parses back from its text** to its segments and the filter it was written with.  The
text of no segment has a `/` or a `?`, and without a filter it is not empty. -/
theorem parse_written {texts : List String} {segs : List (Segment ρ)}
    (hwrites : List.Forall₂ (Segment.Writes ops) texts segs) (hne : texts ≠ [])
    (hslash : ∀ text ∈ texts, '/' ∉ text.toList) (hquery : ∀ text ∈ texts, '?' ∉ text.toList) :
    ("/".intercalate texts ≠ "" → ∃ p, parse ops ("/".intercalate texts) = .ok p ∧
      p.segments = segs ∧ p.filter = none) ∧
    ∀ encoded value q, ops.formUrlencoded ("ql=" ++ encoded) = [("ql", value)] →
      Caql.parse value = .ok q →
        ∃ p, parse ops ("/".intercalate texts ++ "?ql=" ++ encoded) = .ok p ∧
          p.segments = segs ∧ p.filter = some q := by
  -- no text holds a slash, so the split gives the texts back
  have hsplit : Str.split '/' ("/".intercalate texts) = texts := Str.split_intercalate hne hslash
  have hsegs := parseSegments_of_writes hwrites 0
  -- nor a question mark, so the path ends where it was joined to the filter
  have hpath : '?' ∉ ("/".intercalate texts).toList := by
    intro hmem
    rcases Str.mem_toList_intercalate hmem with hsep | ⟨text, htext, hc⟩
    · simp at hsep
    · exact hquery text htext hc
  constructor
  · intro htext
    -- without a filter
    refine ⟨⟨segs, none, "/".intercalate texts⟩, parse_eq_ok_iff.mpr ⟨htext, ?_, ?_, rfl⟩, rfl, rfl⟩
    · rw [splitSuffix_of_not_mem hpath]
      rfl
    · rw [splitSuffix_of_not_mem hpath, hsplit]
      exact hsegs
  · intro encoded value q hdecode hq
    -- the filter begins behind the first question mark
    have hcut : splitSuffix ("/".intercalate texts ++ "?ql=" ++ encoded) =
        ("/".intercalate texts, some ("ql=" ++ encoded)) := by
      have hmark : "?ql=" = "?" ++ "ql=" := by decide
      rw [hmark, ← splitSuffix_append hpath]
      simp only [String.append_assoc]
    refine ⟨⟨segs, some q, "/".intercalate texts ++ "?ql=" ++ encoded⟩,
      parse_eq_ok_iff.mpr ⟨?_, ?_, ?_, rfl⟩, rfl, rfl⟩
    · intro hempty
      have hlen := congrArg String.length hempty
      simp [String.length_append] at hlen
    · rw [hcut]
      show (parseFilter ops ("ql=" ++ encoded)).map some = .ok (some q)
      rw [parseFilter_of_decoded hdecode hq]
      rfl
    · rw [hcut, hsplit]
      exact hsegs

end TopicPattern

/-! ### Regular expressions with optional characters -/

/-- A regular expression of letters, digits and slashes, each with a `?` after it or without. -/
def compileOptional : List Char → Option (List (Char × Bool))
  | [] => some []
  | c :: '?' :: cs =>
    if c.isAlphanum || c == '/' then (compileOptional cs).map ((c, true) :: ·) else none
  | c :: cs =>
    if c.isAlphanum || c == '/' then (compileOptional cs).map ((c, false) :: ·) else none

/-- Whether a text begins with a match. -/
def matchesPrefix : List (Char × Bool) → List Char → Bool
  | [], _ => true
  | (c, optional) :: re, s =>
    (s.head? == some c && matchesPrefix re s.tail) || (optional && matchesPrefix re s)

/-- The regular expressions of these forms; query strings have no escapes. -/
def TopicOps.optionals : TopicOps (List (Char × Bool)) where
  regexNew source := match compileOptional source.toList with
    | some re => .ok re
    | none => .error "unsupported"
  isMatch re part := part.toList.tails.any (matchesPrefix re)
  formUrlencoded := plainUrlencoded

namespace TopicPattern

/-- A pattern of all four forms, without a filter and with one. -/
theorem parse_written_hub : ∃ q, Caql.parse "where a>1" = .ok q ∧
    (∃ p, parse .optionals "hub/*/**/\x7babc\x7d" = .ok p ∧
      p.segments = [.literal "hub", .singleWild, .multiWild,
        .regex [('a', false), ('b', false), ('c', false)]] ∧ p.filter = none) ∧
    ∃ p, parse .optionals "hub/*/**/\x7babc\x7d?ql=where+a>1" = .ok p ∧
      p.segments = [.literal "hub", .singleWild, .multiWild,
        .regex [('a', false), ('b', false), ('c', false)]] ∧ p.filter = some q := by
  have hok : (Caql.parse "where a>1").toBool = true := by decide +kernel
  obtain ⟨q, hq⟩ : ∃ q, Caql.parse "where a>1" = .ok q := by
    revert hok
    cases Caql.parse "where a>1" with
    | ok q => exact fun _ => ⟨q, rfl⟩
    | error e => exact fun h => absurd h (by simp [Except.toBool])
  have hwrites : List.Forall₂ (Segment.Writes .optionals)
      ["hub", "*", "**", "\x7b" ++ "abc" ++ "\x7d"]
      [.literal "hub", .singleWild, .multiWild,
        .regex [('a', false), ('b', false), ('c', false)]] :=
    .cons (.literal (by decide))
      (.cons .singleWild (.cons .multiWild (.cons (.regex rfl) .nil)))
  -- both parts of the theorem at these texts
  have hwritten := parse_written hwrites (by decide) (by decide)
    (by decide)
  exact ⟨q, hq, hwritten.1 (by decide),
    hwritten.2 "where+a>1" "where a>1" q (by decide) hq⟩

/-- The empty literal, and regular expressions with a `?` or a `/`, do not parse back: the empty
text is rejected, and the `?` and the `/` cut the text inside the braces. -/
theorem parse_written_fails :
    (List.Forall₂ (Segment.Writes .optionals) [""] [.literal ""] ∧
      parse .optionals ("/".intercalate [""]) = .error .empty) ∧
    (List.Forall₂ (Segment.Writes .optionals) ["\x7b" ++ "colou?r" ++ "\x7d"]
        [.regex [('c', false), ('o', false), ('l', false), ('o', false), ('u', true),
          ('r', false)]] ∧
      parse .optionals ("/".intercalate ["\x7b" ++ "colou?r" ++ "\x7d"]) =
        .error (.missingQlParam "r\x7d")) ∧
    List.Forall₂ (Segment.Writes .optionals) ["\x7b" ++ "a/b" ++ "\x7d"]
        [.regex [('a', false), ('/', false), ('b', false)]] ∧
      ∃ p, parse .optionals ("/".intercalate ["\x7b" ++ "a/b" ++ "\x7d"]) = .ok p ∧
        p.segments = [.literal "\x7ba", .literal "b\x7d"] ∧ p.filter = none := by
  refine ⟨⟨.cons (.literal (by decide)) .nil, rfl⟩,
    ⟨.cons (.regex rfl) .nil, ?_⟩, .cons (.regex rfl) .nil, ?_⟩
  · -- the question mark of the regular expression is taken for the one of the filter
    have hcut : splitSuffix ("/".intercalate ["\x7b" ++ "colou?r" ++ "\x7d"]) =
        ("\x7bcolou", some "r\x7d") := by
      decide
    have hnone : parseFilter .optionals "r\x7d" = .error (.missingQlParam "r\x7d") := by
      have hfind : (plainUrlencoded "r\x7d").find? (fun kv => kv.1 == "ql") = none := by
        decide
      unfold parseFilter
      simp only [TopicOps.optionals, hfind]
    unfold parse
    rw [if_neg (by decide), hcut]
    simp only [parseSuffix, hnone]
    rfl
  · refine ⟨⟨[.literal "\x7ba", .literal "b\x7d"], none, _⟩, parse_eq_ok_iff.mpr
      ⟨by decide, ?_, ?_, rfl⟩, rfl, rfl⟩
    · have hcut : (splitSuffix ("/".intercalate ["\x7b" ++ "a/b" ++ "\x7d"])).2 = none := by
        decide
      rw [hcut]
      rfl
    · -- the slash cuts the regular expression
      have hparts : Str.split '/' (splitSuffix ("/".intercalate
          ["\x7b" ++ "a/b" ++ "\x7d"])).1 = ["\x7ba", "b\x7d"] := by
        decide
      rw [hparts]
      exact parseSegments_of_writes (.cons (.literal (by decide))
        (.cons (.literal (by decide)) .nil)) 0

end TopicPattern

end Boardwalk
