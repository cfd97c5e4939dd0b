import Boardwalk.Caql.Spec.Predictive
import Boardwalk.Caql.Spec.Tokenize

/-!
# Texts of the words of the grammar

The grammar does not ask what the names, strings and numbers of a word are, so that those that no
text spells can be replaced.  What a word of the grammar starts with, if it can be spelled, is then
what an accepted text starts with (`completable_iff`).
-/

namespace Boardwalk

namespace Caql

/-! ### Other names, strings and numbers -/

structure Contents where
  ident : String → String
  string : String → String
  number : F64 → F64

def Contents.fill (c : Contents) : Tok → Tok
  | .ident s => .ident (c.ident s)
  | .string s => .string (c.string s)
  | .number x => .number (c.number x)
  | tok => tok

section

variable (c : Contents)

theorem fill_path {w : List Tok} {path : FieldPath} (h : PathDerives w path) :
    ∃ path', PathDerives (w.map c.fill) path' := by
  cases h with
  | mk id ids =>
    refine ⟨⟨c.ident id :: ids.map c.ident⟩, ?_⟩
    have hids : (ids.flatMap fun id => [Tok.dot, .ident id]).map c.fill =
        (ids.map c.ident).flatMap fun id => [Tok.dot, .ident id] := by
      rw [List.map_flatMap, List.flatMap_map]
      rfl
    rw [List.map_cons, hids]
    exact PathDerives.mk (c.ident id) (ids.map c.ident)

/-- A repetition, when it is known for its parts. -/
theorem fill_separated {α β : Type} (sep : Tok) (hsep : c.fill sep = sep)
    {L : List Tok → β → Prop} {parts : List (List Tok × α)}
    (h : ∀ part ∈ parts, ∃ b, L (part.1.map c.fill) b) :
    ∃ parts' : List (List Tok × β), (separated sep parts).map c.fill = separated sep parts' ∧
      ∀ part ∈ parts', L part.1 part.2 := by
  induction parts with
  | nil => exact ⟨[], rfl, by simp⟩
  | cons part parts ih =>
    obtain ⟨b, hb⟩ := h part List.mem_cons_self
    obtain ⟨parts', hmap, hparts⟩ := ih fun q hq => h q (List.mem_cons_of_mem _ hq)
    refine ⟨(part.1.map c.fill, b) :: parts', ?_, ?_⟩
    · rw [separated_cons, separated_cons, List.map_cons, List.map_append, hsep, hmap]
    · intro q hq
      obtain rfl | hq := List.mem_cons.mp hq
      · exact hb
      · exact hparts q hq

/-- Filling in a token's text keeps a value a value, and an array an array. -/
theorem fill_value {w : List Tok} {v : Literal} (h : ValueDerives w v) :
    ∃ v', ValueDerives (w.map c.fill) v' ∧ v'.isArray = v.isArray := by
  induction h with
  | string s => exact ⟨_, ValueDerives.string (c.string s), rfl⟩
  | number x => exact ⟨_, ValueDerives.number (c.number x), rfl⟩
  | true => exact ⟨_, ValueDerives.true, rfl⟩
  | false => exact ⟨_, ValueDerives.false, rfl⟩
  | null => exact ⟨_, ValueDerives.null, rfl⟩
  | empty => exact ⟨_, ValueDerives.empty, rfl⟩
  | array w v parts _ _ ih ihparts =>
    obtain ⟨v', hv', -⟩ := ih
    obtain ⟨parts', hmap, hparts⟩ := fill_separated c .comma rfl (L := ValueDerives)
      fun part hpart => (ihparts part hpart).imp fun _ => And.left
    refine ⟨.array (v' :: parts'.map (·.2)), ?_, rfl⟩
    rw [List.map_cons, List.map_append, List.map_append, hmap]
    exact ValueDerives.array _ v' parts' hv' hparts

theorem fill_op {tok : Tok} {op : ComparisonOp} (h : OpDerives tok op) : c.fill tok = tok := by
  cases h <;> rfl

/-- Filling in a token's text keeps a predicate at its level. -/
theorem fill_predicate {level : Level} {w : List Tok} {p : Predicate} (h : Derives level w p) :
    ∃ p', Derives level (w.map c.fill) p' := by
  -- names, numbers and strings may be replaced, and every other token keeps its place
  induction h with
  | or w p parts _ _ ih ihparts =>
    obtain ⟨p', hp'⟩ := ih
    obtain ⟨parts', hmap, hparts⟩ := fill_separated c .or rfl (L := Derives .and) ihparts
    rw [List.map_append, hmap]
    exact ⟨_, Derives.or _ p' parts' hp' hparts⟩
  | and w p parts _ _ ih ihparts =>
    obtain ⟨p', hp'⟩ := ih
    obtain ⟨parts', hmap, hparts⟩ := fill_separated c .and rfl (L := Derives .not) ihparts
    rw [List.map_append, hmap]
    exact ⟨_, Derives.and _ p' parts' hp' hparts⟩
  | not w p _ ih =>
    obtain ⟨p', hp'⟩ := ih
    exact ⟨_, Derives.not _ p' hp'⟩
  | «exists» w path hpath =>
    obtain ⟨path', hpath'⟩ := fill_path c hpath
    exact ⟨_, Derives.exists _ path' hpath'⟩
  | primary w p _ ih =>
    obtain ⟨p', hp'⟩ := ih
    exact ⟨_, Derives.primary _ p' hp'⟩
  | paren w p _ ih =>
    obtain ⟨p', hp'⟩ := ih
    rw [List.map_cons, List.map_append]
    exact ⟨_, Derives.paren _ p' hp'⟩
  | contains w path v value hpath hvalue hscalar =>
    -- an array stays an array, so `contains` still takes a scalar
    obtain ⟨path', hpath'⟩ := fill_path c hpath
    obtain ⟨value', hvalue', harray⟩ := fill_value c hvalue
    rw [List.map_append, List.map_cons]
    exact ⟨_, Derives.contains _ path' _ value' hpath' hvalue' (harray.trans hscalar)⟩
  | compare w path tok op v value hpath hop hvalue =>
    obtain ⟨path', hpath'⟩ := fill_path c hpath
    obtain ⟨value', hvalue', -⟩ := fill_value c hvalue
    rw [List.map_append, List.map_cons, fill_op c hop]
    exact ⟨_, Derives.compare _ path' tok op _ value' hpath' hop hvalue'⟩

theorem fill_projection {w : List Tok} {projection : Projection}
    (h : ProjectionDerives w projection) :
    ∃ projection', ProjectionDerives (w.map c.fill) projection' := by
  cases h with
  | all => exact ⟨_, ProjectionDerives.all⟩
  | fields w path parts hpath hparts =>
    obtain ⟨path', hpath'⟩ := fill_path c hpath
    obtain ⟨parts', hmap, hparts'⟩ := fill_separated c .comma rfl (L := PathDerives)
      fun part hpart => fill_path c (hparts part hpart)
    rw [List.map_append, hmap]
    exact ⟨_, ProjectionDerives.fields _ path' parts' hpath' hparts'⟩

/-- A word of the grammar is one with other contents as well. -/
theorem fill_query {w : List Tok} {q : Query} (h : QueryDerives w q) :
    ∃ q', QueryDerives (w.map c.fill) q' := by
  obtain ⟨v, projection, w, predicate, hselect, hwhere⟩ := h
  have hv : ∃ projection', SelectDerives (v.map c.fill) projection' := by
    cases hselect with
    | absent => exact ⟨_, SelectDerives.absent⟩
    | select v projection hprojection =>
      obtain ⟨projection', h'⟩ := fill_projection c hprojection
      exact ⟨_, SelectDerives.select _ projection' h'⟩
  have hw : ∃ predicate', WhereDerives (w.map c.fill) predicate' := by
    cases hwhere with
    | absent => exact ⟨_, WhereDerives.absent⟩
    | «where» w p hp =>
      obtain ⟨p', hp'⟩ := fill_predicate c hp
      exact ⟨_, WhereDerives.where _ p' hp'⟩
  obtain ⟨projection', hv⟩ := hv
  obtain ⟨predicate', hw⟩ := hw
  rw [List.map_append]
  exact ⟨_, QueryDerives.mk _ projection' _ predicate' hv hw⟩

end

/-! ### Spelled tokens -/

/-- Some text is a lexeme of the token. -/
def Spelled (tok : Tok) : Prop := ∃ s : String, Lexeme tok (asBytes s) []

/-- What the lexer returns is spelled in its input. -/
theorem spelled_of_tokenize {src : String} {ts : List Spanned} (h : tokenize src = .ok ts)
    {tok : Tok} (htok : tok ∈ toks ts) : Spelled tok := by
  obtain ⟨t, ht, rfl⟩ := List.mem_map.mp htok
  obtain ⟨us, vs, rfl⟩ := List.append_of_mem ht
  obtain ⟨w, rest, hbefore, hw, -⟩ := (tokenize_eq_ok_iff.mp h).split
  obtain ⟨p, hsplit, -, hp⟩ := hbefore.asciiEnd
  obtain ⟨-, s, -, hs⟩ := Str.exists_cut hsplit hp
  obtain ⟨s', -, hs', -⟩ := Str.exists_cut hs (lexeme_asciiEnd hw)
  refine ⟨s', ?_⟩
  rw [asBytes, hs']
  exact lexeme_alone hw

/-- Spelled tokens have a text, with spaces between them. -/
theorem exists_text {w : List Tok} (hw : ∀ tok ∈ w, Spelled tok) :
    ∃ s ts, tokenize s = .ok ts ∧ toks ts = w := by
  have hreading : ∃ s : String, ∀ n, ∃ ts m, Reading n (asBytes s) ts m [] ∧ toks ts = w := by
    induction w with
    | nil => exact ⟨"", fun n => ⟨[], n, Reading.stop n [], rfl⟩⟩
    | cons tok w ih =>
      obtain ⟨s, hs⟩ := hw tok List.mem_cons_self
      obtain ⟨s', hs'⟩ := ih fun tok' h' => hw tok' (List.mem_cons_of_mem _ h')
      refine ⟨s ++ " " ++ s', fun n => ?_⟩
      obtain ⟨ts, m, hts, htoks⟩ := hs' (n + (asBytes s).length + 1)
      refine ⟨⟨tok, n⟩ :: ts, m, ?_, congrArg (tok :: ·) htoks⟩
      have hspace : asBytes " " = [0x20] := rfl
      rw [asBytes_append, asBytes_append, hspace, List.append_assoc]
      exact Reading.token (lexeme_space hs (asBytes s')) (Reading.space rfl hts)
  obtain ⟨s, hs⟩ := hreading
  obtain ⟨ts, m, hts, htoks⟩ := hs 0
  exact ⟨s, ts, tokenize_of_reading hts, htoks⟩

/-- A text for every token, with some contents. -/
def Tok.text : Tok → String
  | .select => "select"
  | .where => "where"
  | .and => "and"
  | .or => "or"
  | .not => "not"
  | .in => "in"
  | .like => "like"
  | .contains => "contains"
  | .exists => "exists"
  | .true => "true"
  | .false => "false"
  | .null => "null"
  | .ident _ => "a"
  | .number _ => "0"
  | .string _ => "\"\""
  | .dot => "."
  | .comma => ","
  | .star => "*"
  | .lParen => "("
  | .rParen => ")"
  | .lBracket => "["
  | .rBracket => "]"
  | .eq => "="
  | .ne => "!="
  | .lt => "<"
  | .le => "<="
  | .gt => ">"
  | .ge => ">="

/-- The contents of those texts. -/
def textContents : Contents where
  ident _ := "a"
  string _ := ""
  number _ := .ofRatio false 0 1

/-- Every token filled with its standard text can be spelled. -/
theorem spelled_text (tok : Tok) : Spelled (textContents.fill tok) := by
  have htext : tokenize tok.text = .ok [⟨textContents.fill tok, 0⟩] := by
    cases tok
    case ident s =>
      show tokenize "a" = .ok [⟨.ident "a", 0⟩]
      decide +kernel
    case string s =>
      show tokenize "\"\"" = .ok [⟨.string "", 0⟩]
      decide +kernel
    case number x =>
      show tokenize "0" = .ok [⟨.number (.ofRatio false 0 1), 0⟩]
      decide +kernel
    all_goals decide +kernel
  exact spelled_of_tokenize htext (by simp)

open Classical in
/-- The contents of spelled tokens as they are, and others for those that no text spells. -/
noncomputable def spelledContents : Contents where
  ident s := if Spelled (.ident s) then s else textContents.ident s
  string s := if Spelled (.string s) then s else textContents.string s
  number x := if Spelled (.number x) then x else textContents.number x

theorem fill_spelled {tok : Tok} (h : Spelled tok) : spelledContents.fill tok = tok := by
  cases tok
  case ident s => exact congrArg Tok.ident (if_pos h)
  case string s => exact congrArg Tok.string (if_pos h)
  case number x => exact congrArg Tok.number (if_pos h)
  all_goals rfl

theorem fill_unspelled {tok : Tok} (h : ¬ Spelled tok) :
    spelledContents.fill tok = textContents.fill tok := by
  cases tok
  case ident s => exact congrArg Tok.ident (if_neg h)
  case string s => exact congrArg Tok.string (if_neg h)
  case number x => exact congrArg Tok.number (if_neg h)
  all_goals rfl

theorem spelled_fill (tok : Tok) : Spelled (spelledContents.fill tok) := by
  by_cases h : Spelled tok
  · rw [fill_spelled h]
    exact h
  · rw [fill_unspelled h]
    exact spelled_text tok

/-! ### What accepted texts start with -/

/-- Some accepted text starts with the tokens. -/
def Completable (w : List Tok) : Prop :=
  ∃ input ts q, tokenize input = .ok ts ∧ parse input = .ok q ∧ w <+: toks ts

/-- Spelled tokens start an accepted text when they start a word of the grammar. -/
theorem completable_iff {w : List Tok} (hw : ∀ tok ∈ w, Spelled tok) :
    Completable w ↔ ∃ u q, QueryDerives (w ++ u) q := by
  constructor
  · rintro ⟨input, ts, q, hts, hparse, u, hu⟩
    obtain ⟨ts', hts', hq⟩ := bind_eq_ok_iff.mp hparse
    cases hts.symm.trans hts'
    refine ⟨u, q, ?_⟩
    rw [hu]
    exact parseQuery_iff_derives.mp hq
  · -- a word can be completed by tokens that have a text of their own
    rintro ⟨u, q, hq⟩
    obtain ⟨q', hq'⟩ := fill_query spelledContents hq
    have hsame : w.map spelledContents.fill = w := by
      rw [List.map_congr_left fun tok htok => fill_spelled (hw tok htok)]
      exact List.map_id w
    rw [List.map_append, hsame] at hq'
    -- so what completes it is spelled, too
    have hspelled : ∀ tok ∈ w ++ u.map spelledContents.fill, Spelled tok := by
      intro tok htok
      obtain htok | htok := List.mem_append.mp htok
      · exact hw tok htok
      · obtain ⟨tok', -, rfl⟩ := List.mem_map.mp htok
        exact spelled_fill tok'
    obtain ⟨s, ts, hts, htoks⟩ := exists_text hspelled
    rw [← htoks] at hq'
    refine ⟨s, ts, q', hts, parse_eq_ok hts hq', ?_⟩
    rw [htoks]
    exact List.prefix_append _ _

end Caql

end Boardwalk
