import Boardwalk.Caql.Spec.Parser

/-!
# The CaQL parser reads its grammar

What a word derives is what the parser makes of it, whatever follows the word and does not continue
it (`path_complete`, `value_complete`, `predicate_complete`, `query_complete`), by induction on the
derivation.
-/

namespace Boardwalk

namespace Caql

open Descent

/-- None of the tokens comes next. -/
def NotNext (bad : List Tok) (r : List Spanned) : Prop := ∀ t, r.head? = some t → t.tok ∉ bad

theorem notNext_nil (bad : List Tok) : NotNext bad [] := by
  intro t ht
  cases ht

theorem notNext_cons {bad : List Tok} {tok : Tok} (htok : tok ∉ bad) (o : ℕ)
    (r : List Spanned) : NotNext bad (⟨tok, o⟩ :: r) := by
  rintro t ⟨⟩
  exact htok

theorem NotNext.mono {bad bad' : List Tok} {r : List Spanned} (h : NotNext bad r)
    (hsub : bad' ⊆ bad) : NotNext bad' r := fun t ht hmem => h t ht (hsub hmem)

theorem NotNext.ne {bad : List Tok} {r : List Spanned} (h : NotNext bad r) {tok : Tok}
    (htok : tok ∈ bad) : ∀ t, r.head? = some t → t.tok ≠ tok := by
  rintro t ht rfl
  exact h t ht htok

/-! ### Words of spanned tokens -/

theorem toks_eq_append {us : List Spanned} {v w : List Tok} (h : toks us = v ++ w) :
    ∃ us₁ us₂, us = us₁ ++ us₂ ∧ toks us₁ = v ∧ toks us₂ = w :=
  List.map_eq_append_iff.mp h

theorem toks_eq_cons {us : List Spanned} {tok : Tok} {w : List Tok} (h : toks us = tok :: w) :
    ∃ o us', us = ⟨tok, o⟩ :: us' ∧ toks us' = w := by
  obtain ⟨⟨tok', o⟩, us', rfl, rfl, htail⟩ := List.map_eq_cons_iff.mp h
  exact ⟨o, us', rfl, htail⟩

theorem toks_eq_nil {us : List Spanned} (h : toks us = []) : us = [] :=
  List.map_eq_nil_iff.mp h

/-- A loop with separators goes through the words of a repetition. -/
theorem loop_complete {α β γ : Type} {sep : Tok} {step : γ → α → γ}
    {f : Parser Spanned QueryError α} {body : γ → Parser Spanned QueryError β} (bad : List Tok)
    (hmore : ∀ c o rest, body c (⟨sep, o⟩ :: rest) = seq f (fun a => body (step c a)) rest)
    (hsep : sep ∉ bad) {parts : List (List Tok × α)}
    (hparts : ∀ part ∈ parts, ∀ us, toks us = part.1 → ∀ r, NotNext bad r →
      f (us ++ r) = .ok (part.2, r))
    (c : γ) {us : List Spanned} (hus : toks us = separated sep parts) {r : List Spanned}
    (hr : NotNext bad r) :
    body c (us ++ r) = body (parts.foldl (fun c part => step c part.2) c) r := by
  -- induction on the parts that are left
  induction parts generalizing c us with
  | nil => rw [toks_eq_nil hus]; rfl
  | cons part parts ih =>
    rw [separated_cons] at hus
    obtain ⟨o, us', rfl, htail⟩ := toks_eq_cons hus
    obtain ⟨us₁, us₂, rfl, h₁, h₂⟩ := toks_eq_append htail
    -- after a part comes the separator or what follows the whole list
    have hnext : NotNext bad (us₂ ++ r) := by
      cases parts with
      | nil =>
        rw [toks_eq_nil h₂]
        exact hr
      | cons part' parts =>
        obtain ⟨o', us₃, rfl, -⟩ := toks_eq_cons h₂
        exact notNext_cons hsep _ _
    -- so the part is read as it is, and the loop goes on with the rest
    have hfirst : f (us₁ ++ (us₂ ++ r)) = .ok (part.2, us₂ ++ r) :=
      hparts part List.mem_cons_self us₁ h₁ (us₂ ++ r) hnext
    rw [List.cons_append, hmore, List.append_assoc, seq_of_ok hfirst]
    exact ih (fun p hp => hparts p (List.mem_cons_of_mem _ hp)) (step c part.2) h₂

/-- A loop that collects the values of its words. -/
theorem foldl_collect {α : Type} (parts : List (List Tok × α)) (as : List α) :
    parts.foldl (fun as part => as ++ [part.2]) as = as ++ parts.map (·.2) := by
  induction parts generalizing as with
  | nil => simp
  | cons part parts ih => simp [ih]

/-! ### Paths -/

theorem separated_ident (ids : List String) :
    separated .dot (ids.map fun id => ([.ident id], id)) =
      ids.flatMap fun id => [.dot, .ident id] := by
  rw [separated, List.flatMap_map]

/-- Tokens that spell a path are read by `pathParser` as that path, whatever follows but a dot. -/
theorem path_complete {w : List Tok} {path : FieldPath} (h : PathDerives w path)
    {us : List Spanned} (hus : toks us = w) {r : List Spanned} (hr : NotNext [.dot] r) :
    pathParser (us ++ r) = .ok (path, r) := by
  obtain ⟨id, ids⟩ := h
  obtain ⟨o, us', rfl, htail⟩ := toks_eq_cons hus
  rw [← separated_ident] at htail
  rw [List.cons_append, pathParser_ident, loop_complete [] pathTailParser_dot (by simp) _ [id] htail
    (by simp [NotNext]), pathTailParser_other _ (hr.ne (by decide)), foldl_collect]
  · simp [Function.comp_def]
  · intro part hpart us hus r _
    obtain ⟨id', -, rfl⟩ := List.mem_map.mp hpart
    obtain ⟨o', us', rfl, htail⟩ := toks_eq_cons hus
    rw [toks_eq_nil htail]
    rfl

/-! ### Values -/

/-- The value of a word is read whatever follows. -/
theorem value_complete {w : List Tok} {v : Literal} (h : ValueDerives w v) :
    ∀ us, toks us = w → ∀ r, valueParser (us ++ r) = .ok (v, r) := by
  have hscalar : ∀ {tok : Tok} {v : Literal}, scalarToken tok = some v →
      ∀ us, toks us = [tok] → ∀ r, valueParser (us ++ r) = .ok (v, r) := by
    intro tok v htok us hus r
    obtain ⟨o, us', rfl, htail⟩ := toks_eq_cons hus
    rw [toks_eq_nil htail]
    exact valueParser_scalar htok r
  induction h with
  | string | number | true | false | null => exact hscalar rfl
  | empty =>
    intro us hus r
    obtain ⟨o, us', rfl, htail⟩ := toks_eq_cons hus
    obtain ⟨o', us'', rfl, hend⟩ := toks_eq_cons htail
    rw [toks_eq_nil hend]
    exact valueParser_empty o o' r
  | array w v parts _ _ ih ihparts =>
    intro us hus r
    obtain ⟨o, us', rfl, htail⟩ := toks_eq_cons hus
    obtain ⟨us'', us₃, rfl, hitems, h₃⟩ := toks_eq_append htail
    obtain ⟨us₁, us₂, rfl, h₁, h₂⟩ := toks_eq_append hitems
    obtain ⟨o', us₄, rfl, h₄⟩ := toks_eq_cons h₃
    rw [toks_eq_nil h₄]
    have hfirst := ih us₁ h₁ (us₂ ++ ⟨.rBracket, o'⟩ :: r)
    -- a value does not start with a closing bracket
    have hhead : ∀ t, (us₁ ++ (us₂ ++ ⟨.rBracket, o'⟩ :: r)).head? = some t →
        t.tok ≠ .rBracket := by
      rintro ⟨tok, o⟩ ht rfl
      obtain ⟨rest, hrest⟩ := List.head?_eq_some_iff.mp ht
      rw [hrest, valueParser_other rfl (by simp)] at hfirst
      cases hfirst
    have hclose : NotNext [] (⟨.rBracket, o'⟩ :: r) := notNext_cons (by simp) o' r
    have hloop := loop_complete [] itemsParser_comma (by simp)
      (fun part hpart us hus r _ => ihparts part hpart us hus r) [v] h₂ hclose
    simp only [List.cons_append, List.append_assoc, List.nil_append]
    rw [valueParser_bracket o hhead, seq_of_ok hfirst, hloop, itemsParser_close, foldl_collect]
    rfl

/-! ### Predicates -/

theorem comparisonOp_eq_some_iff {tok : Tok} {op : ComparisonOp} :
    comparisonOp tok = some op ↔ OpDerives tok op := by
  constructor
  · intro h
    cases tok <;> cases h <;> constructor
  · intro h
    cases h <;> rfl

/-- The function that reads a nonterminal. -/
def Level.parser : Level → Parser Spanned QueryError Predicate
  | .or => orParser
  | .and => andParser
  | .not => notParser
  | .primary => cmpParser

/-- The tokens that continue a word of a nonterminal. -/
def Level.continues : Level → List Tok
  | .or => [.dot, .and, .or]
  | .and => [.dot, .and]
  | .not => [.dot]
  | .primary => [.dot]

/-- A word of a path and the operator after it. -/
theorem cmpParser_path {w : List Tok} {path : FieldPath} (hpath : PathDerives w path)
    {us : List Spanned} (hus : toks us = w) {r : List Spanned} (hr : NotNext [.dot] r) :
    cmpParser (us ++ r) = comparisonParser path r := by
  have hread : pathParser (us ++ r) = .ok (path, r) := path_complete hpath hus hr
  rw [cmpParser_other, seq_of_ok hread]
  rintro ⟨tok, o⟩ ht rfl
  obtain ⟨rest, hrest⟩ := List.head?_eq_some_iff.mp ht
  rw [hrest, pathParser_other (by simp)] at hread
  cases hread

/-- Tokens that derive a predicate at a level are read by that level's parser as that predicate, if
what follows does not continue the level. -/
theorem predicate_complete {level : Level} {w : List Tok} {p : Predicate}
    (h : Derives level w p) : ∀ us, toks us = w → ∀ r, NotNext level.continues r →
      level.parser (us ++ r) = .ok (p, r) := by
  induction h with
  | or w p parts _ _ ih ihparts =>
    intro us hus r hr
    obtain ⟨us₁, us₂, rfl, h₁, h₂⟩ := toks_eq_append hus
    have hr' : NotNext [.dot, .and] r := hr.mono (by decide)
    have hnext : NotNext [.dot, .and] (us₂ ++ r) := by
      cases parts with
      | nil =>
        rw [toks_eq_nil h₂]
        exact hr'
      | cons part parts =>
        obtain ⟨o, us₃, rfl, -⟩ := toks_eq_cons h₂
        exact notNext_cons (by decide) _ _
    have hfirst : andParser (us₁ ++ (us₂ ++ r)) = .ok (p, us₂ ++ r) := ih us₁ h₁ _ hnext
    show orParser (us₁ ++ us₂ ++ r) = _
    rw [orParser_eq, List.append_assoc, seq_of_ok hfirst,
      loop_complete [.dot, .and] orTailParser_or (by decide) ihparts p h₂ hr',
      orTailParser_other _ (hr.ne (by decide))]
  | and w p parts _ _ ih ihparts =>
    intro us hus r hr
    obtain ⟨us₁, us₂, rfl, h₁, h₂⟩ := toks_eq_append hus
    have hr' : NotNext [.dot] r := hr.mono (by decide)
    have hnext : NotNext [.dot] (us₂ ++ r) := by
      cases parts with
      | nil =>
        rw [toks_eq_nil h₂]
        exact hr'
      | cons part parts =>
        obtain ⟨o, us₃, rfl, -⟩ := toks_eq_cons h₂
        exact notNext_cons (by decide) _ _
    have hfirst : notParser (us₁ ++ (us₂ ++ r)) = .ok (p, us₂ ++ r) := ih us₁ h₁ _ hnext
    show andParser (us₁ ++ us₂ ++ r) = _
    rw [andParser_eq, List.append_assoc, seq_of_ok hfirst,
      loop_complete [.dot] andTailParser_and (by decide) ihparts p h₂ hr',
      andTailParser_other _ (hr.ne (by decide))]
  | not w p _ ih =>
    intro us hus r hr
    obtain ⟨o, us', rfl, htail⟩ := toks_eq_cons hus
    have hinner : notParser (us' ++ r) = .ok (p, r) := ih us' htail r hr
    show notParser (⟨.not, o⟩ :: (us' ++ r)) = _
    rw [notParser_not, seq_of_ok hinner]
  | «exists» w path hpath =>
    intro us hus r hr
    obtain ⟨o, us', rfl, htail⟩ := toks_eq_cons hus
    have hread : pathParser (us' ++ r) = .ok (path, r) := path_complete hpath htail hr
    show notParser (⟨.exists, o⟩ :: (us' ++ r)) = _
    rw [notParser_exists, seq_of_ok hread]
  | primary w p _ ih =>
    intro us hus r hr
    have hread : cmpParser (us ++ r) = .ok (p, r) := ih us hus r hr
    show notParser (us ++ r) = _
    rw [notParser_other, hread]
    -- `parse_cmp` would reject a word that starts with one of these
    intro t ht
    obtain ⟨rest, hrest⟩ := List.head?_eq_some_iff.mp ht
    obtain ⟨tok, o⟩ := t
    constructor <;>
    · rintro rfl
      rw [hrest, cmpParser_other (by simp), seq_of_error (pathParser_other (by simp) rest)] at hread
      cases hread
  | paren w p _ ih =>
    intro us hus r _
    obtain ⟨o, us', rfl, htail⟩ := toks_eq_cons hus
    obtain ⟨us₁, us₂, rfl, h₁, h₂⟩ := toks_eq_append htail
    obtain ⟨o', us₃, rfl, h₃⟩ := toks_eq_cons h₂
    have hinner : orParser (us₁ ++ ⟨.rParen, o'⟩ :: r) = .ok (p, ⟨.rParen, o'⟩ :: r) :=
      ih us₁ h₁ _ (notNext_cons (by decide) o' r)
    rw [toks_eq_nil h₃]
    show cmpParser (⟨.lParen, o⟩ :: (us₁ ++ [⟨.rParen, o'⟩] ++ r)) = _
    rw [cmpParser_lParen, List.append_assoc, List.singleton_append, seq_of_ok hinner]
    rfl
  | contains w path v value hpath hvalue hscalar =>
    intro us hus r hr
    obtain ⟨us₁, us₂, rfl, h₁, h₂⟩ := toks_eq_append hus
    obtain ⟨o, us₃, rfl, h₃⟩ := toks_eq_cons h₂
    have hread : valueParser (us₃ ++ r) = .ok (value, r) := value_complete hvalue us₃ h₃ r
    show cmpParser (us₁ ++ ⟨.contains, o⟩ :: us₃ ++ r) = _
    rw [List.append_assoc, List.cons_append, cmpParser_path hpath h₁ (notNext_cons (by decide) _ _),
      comparisonParser_contains, seq_of_ok hread]
    cases value
    case array items => cases hscalar
    all_goals rfl
  | compare w path tok op v value hpath hop hvalue =>
    intro us hus r hr
    obtain ⟨us₁, us₂, rfl, h₁, h₂⟩ := toks_eq_append hus
    obtain ⟨o, us₃, rfl, h₃⟩ := toks_eq_cons h₂
    have hread : valueParser (us₃ ++ r) = .ok (value, r) := value_complete hvalue us₃ h₃ r
    have hdot : tok ∉ [Tok.dot] := by cases hop <;> decide
    show cmpParser (us₁ ++ ⟨tok, o⟩ :: us₃ ++ r) = _
    rw [List.append_assoc, List.cons_append, cmpParser_path hpath h₁ (notNext_cons hdot _ _),
      comparisonParser_op path (comparisonOp_eq_some_iff.mpr hop), seq_of_ok hread]

/-! ### Queries -/

/-- Tokens that spell a projection are read as that projection, if neither a dot nor a comma
follows. -/
theorem projection_complete {w : List Tok} {projection : Projection}
    (h : ProjectionDerives w projection) {us : List Spanned} (hus : toks us = w)
    {r : List Spanned} (hr : NotNext [.dot, .comma] r) :
    projectionParser (us ++ r) = .ok (projection, r) := by
  cases h with
  | all =>
    obtain ⟨o, us', rfl, htail⟩ := toks_eq_cons hus
    rw [toks_eq_nil htail]
    exact projectionParser_star o r
  | fields w path parts hpath hparts =>
    obtain ⟨us₁, us₂, rfl, h₁, h₂⟩ := toks_eq_append hus
    have hr' : NotNext [.dot] r := hr.mono (by decide)
    -- the first path ends at a comma or at the end of the projection
    have hnext : NotNext [.dot] (us₂ ++ r) := by
      cases parts with
      | nil =>
        rw [toks_eq_nil h₂]
        exact hr'
      | cons part parts =>
        obtain ⟨o, us₃, rfl, -⟩ := toks_eq_cons h₂
        exact notNext_cons (by decide) _ _
    have hfirst : pathParser (us₁ ++ (us₂ ++ r)) = .ok (path, us₂ ++ r) :=
      path_complete hpath h₁ hnext
    have hloop := loop_complete [.dot] projectionTailParser_comma (by decide)
      (fun part hpart us hus r hr => path_complete (hparts part hpart) hus hr) [path] h₂ hr'
    obtain ⟨id, ids⟩ := hpath
    obtain ⟨o, us₁, rfl, h₁⟩ := toks_eq_cons h₁
    rw [List.append_assoc, List.cons_append] at *
    rw [projectionParser_other (by simp), seq_of_ok hfirst, hloop,
      projectionTailParser_other _ (hr.ne (by decide)), foldl_collect]
    rfl

/-- Every token list of the query grammar is read to its end, as the query it derives. -/
theorem query_complete {w : List Tok} {q : Query} (h : QueryDerives w q) {us : List Spanned}
    (hus : toks us = w) : queryParser us = .ok (q, []) := by
  obtain ⟨v, projection, w, predicate, hselect, hwhere⟩ := h
  obtain ⟨us₁, us₂, rfl, h₁, h₂⟩ := toks_eq_append hus
  -- the clause is read to the end of the text
  have hpredicate : whereParser us₂ = .ok (predicate, []) := by
    cases hwhere with
    | absent =>
      rw [toks_eq_nil h₂]
      rfl
    | «where» w p hp =>
      obtain ⟨o, us₃, rfl, h₃⟩ := toks_eq_cons h₂
      have hread := predicate_complete hp us₃ h₃ [] (notNext_nil _)
      rw [List.append_nil] at hread
      exact hread
  -- whatever comes after the projection, it does not continue it
  have hhead : NotNext [.dot, .comma, .select] us₂ := by
    cases hwhere with
    | absent =>
      rw [toks_eq_nil h₂]
      exact notNext_nil _
    | «where» w p hp =>
      obtain ⟨o, us₃, rfl, h₃⟩ := toks_eq_cons h₂
      exact notNext_cons (by decide) _ _
  have hprojection : selectParser (us₁ ++ us₂) = .ok (projection, us₂) := by
    cases hselect with
    | absent =>
      rw [toks_eq_nil h₁]
      exact selectParser_other (hhead.ne (by decide))
    | select w projection hp =>
      obtain ⟨o, us₃, rfl, h₃⟩ := toks_eq_cons h₁
      exact projection_complete hp h₃ (hhead.mono (by decide))
  rw [queryParser, seq_of_ok hprojection, seq_of_ok hpredicate]

end Caql

end Boardwalk
