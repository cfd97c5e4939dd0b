import Boardwalk.Caql.Spec.Complete

/-!
# What the CaQL parser reads

Every function of the parser is predictive and reads words of its nonterminal: a path
(`predictive_path`), a value (`predictive_value`), a predicate (`predictive_or`) and a query up to
its end (`predictive_query`).  The functions that call each other go together by induction on the
number of tokens.
-/

namespace Boardwalk

namespace Caql

open Descent

/-- The parser `f` reads words of `L` and is predictive on `ts`. -/
abbrev ReadsOn {α : Type} (L : List Tok → α → Prop) (f : Parser Spanned QueryError α)
    (ts : List Spanned) : Prop :=
  Predictive Reported (fun w a => L (toks w) a) f ts

/-- The token of a spanned one. -/
def HasTok (tok : Tok) (t : Spanned) : Prop := t.tok = tok

/-- What a loop with the separator `sep` reads, as the words between the separators. -/
theorem exists_separated {α β γ : Type} {sep : Tok} {L : List Tok → α → Prop} {step : γ → α → γ}
    {stop : γ → List Spanned → β → Prop} {c : γ} {w : List Spanned} {b : β}
    (h : Loop (HasTok sep) (fun w a => L (toks w) a) step stop c w b) :
    ∃ (parts : List (List Tok × α)) (w' : List Spanned),
      toks w = separated sep parts ++ toks w' ∧ (∀ part ∈ parts, L part.1 part.2) ∧
        stop (parts.foldl (fun c part => step c part.2) c) w' b := by
  induction h with
  | stop hstop => exact ⟨[], _, rfl, by simp, hstop⟩
  | @more c t v w a b ht hv _ ih =>
    obtain ⟨parts, w', hw, hparts, hstop⟩ := ih
    have hsep : t.tok = sep := ht
    refine ⟨(toks v, a) :: parts, w', ?_, ?_, hstop⟩
    · simp [hsep, hw]
    · intro part hpart
      obtain rfl | hpart := List.mem_cons.mp hpart
      · exact hv
      · exact hparts part hpart

/-- A loop with the separator `sep` reads a repetition, and at last what it stops at. -/
theorem reads_loop {α β γ : Type} (sep : Tok) (L : List Tok → α → Prop) (step : γ → α → γ)
    (stop : γ → List Tok → β → Prop) {f : Parser Spanned QueryError α}
    {body : γ → Parser Spanned QueryError β}
    (hmore : ∀ c o rest, body c (⟨sep, o⟩ :: rest) = seq f (fun a => body (step c a)) rest)
    (hstop : ∀ c ts, (∀ t, ts.head? = some t → ¬ HasTok sep t) → ReadsOn (stop c) (body c) ts)
    (hend : ∀ {c b}, body c [] = .ok (b, []) → ∀ c', ∃ b', body c' [] = .ok (b', [])) (c : γ)
    {ts : List Spanned} (hf : ∀ r : List Spanned, r.length < ts.length → ReadsOn L f r) :
    ReadsOn (fun w b => ∃ (parts : List (List Tok × α)) (w' : List Tok),
      w = separated sep parts ++ w' ∧ (∀ part ∈ parts, L part.1 part.2) ∧
        stop (parts.foldl (fun c part => step c part.2) c) w' b) (body c) ts := by
  have hloop : Predictive Reported
      (Loop (HasTok sep) (fun w a => L (toks w) a) step (fun c w b => stop c (toks w) b) c)
      (body c) ts := by
    apply Predictive.loop _ hstop hend c hf
    rintro c ⟨tok, o⟩ rest rfl
    exact hmore c o rest
  apply hloop.mono
  intro w b h
  obtain ⟨parts, w', hw, hparts, hb⟩ := exists_separated h
  exact ⟨parts, toks w', hw, hparts, hb⟩

/-- The same for a loop that stops before anything but a separator. -/
theorem reads_loop_before {α β γ : Type} (sep : Tok) (L : List Tok → α → Prop) (step : γ → α → γ)
    (result : γ → β) {f : Parser Spanned QueryError α} {body : γ → Parser Spanned QueryError β}
    (hmore : ∀ c o rest, body c (⟨sep, o⟩ :: rest) = seq f (fun a => body (step c a)) rest)
    (hother : ∀ c ts, (∀ t, ts.head? = some t → ¬ HasTok sep t) →
      body c ts = .ok (result c, ts))
    {u : List Spanned} {a : α} (hf : f u = .ok (a, [])) (c : γ) {ts : List Spanned}
    (hreads : ∀ r : List Spanned, r.length < ts.length → ReadsOn L f r) :
    ReadsOn (fun w b => ∃ parts : List (List Tok × α), w = separated sep parts ∧
      (∀ part ∈ parts, L part.1 part.2) ∧
        b = result (parts.foldl (fun c part => step c part.2) c)) (body c) ts := by
  have hnil : ∀ c, body c [] = .ok (result c, []) := fun c =>
    hother c [] fun t ht => by cases ht
  -- the loop of the tokens, with nothing after its last part
  have hloop := reads_loop sep L step (fun c w b => w = [] ∧ b = result c) hmore ?_
    (fun _ c' => ⟨result c', hnil c'⟩) c hreads
  · apply hloop.mono
    rintro w b ⟨parts, w', hw, hparts, rfl, rfl⟩
    rw [List.append_nil] at hw
    exact ⟨parts, hw, hparts, rfl⟩
  · intro c ts hts
    apply Predictive.stop_before (fun r hr => hother c r hr) _ ⟨rfl, rfl⟩ hts
    rintro ⟨tok, o⟩ rfl
    -- the separator may be followed by the part that is read as `a`
    refine ⟨u, result (step c a), ?_⟩
    rw [hmore, seq_of_ok hf]
    exact hnil _

/-! ### Paths -/

theorem predictive_ident (ts : List Spanned) :
    ReadsOn (fun w id => w = [.ident id]) identParser ts := by
  cases ts with
  | nil => exact Predictive.missing rfl (reported_errAt _ _)
  | cons t rest =>
    obtain ⟨tok, o⟩ := t
    cases tok
    case ident id => exact Predictive.symbol (a := id) (fun r => rfl) rfl
    all_goals exact Predictive.reject fun r => ⟨_, rfl, reported_errAt _ _⟩

theorem separated_idents {parts : List (List Tok × String)}
    (hparts : ∀ part ∈ parts, part.1 = [.ident part.2]) :
    separated .dot parts = (parts.map (·.2)).flatMap fun id => [.dot, .ident id] := by
  induction parts with
  | nil => rfl
  | cons part parts ih =>
    have hpart : part.1 = [.ident part.2] := hparts part List.mem_cons_self
    rw [separated_cons, hpart, ih fun p hp => hparts p (List.mem_cons_of_mem _ hp)]
    rfl

/-- The words of a path after the segments `segs`. -/
def PathTail (segs : List String) (w : List Tok) (path : FieldPath) : Prop :=
  ∃ ids : List String, w = ids.flatMap (fun id => [.dot, .ident id]) ∧ path = ⟨segs ++ ids⟩

theorem predictive_pathTail (segs : List String) (ts : List Spanned) :
    ReadsOn (PathTail segs) (pathTailParser segs) ts := by
  have hident : identParser [⟨.ident "a", 0⟩] = .ok ("a", []) := rfl
  have hloop := reads_loop_before .dot (fun w id => w = [.ident id]) (fun segs id => segs ++ [id])
    FieldPath.mk pathTailParser_dot (fun segs ts hts => pathTailParser_other segs hts) hident segs
    (fun r (_ : r.length < ts.length) => predictive_ident r)
  apply hloop.mono
  rintro w path ⟨parts, hw, hparts, rfl⟩
  refine ⟨parts.map (·.2), ?_, ?_⟩
  · rw [hw, separated_idents hparts]
  · rw [foldl_collect]

/-- What `pathParser` accepts is a path of the grammar. -/
theorem predictive_path (ts : List Spanned) : ReadsOn PathDerives pathParser ts := by
  cases ts with
  | nil => exact Predictive.missing rfl (reported_errAt _ _)
  | cons t rest =>
    obtain ⟨tok, o⟩ := t
    cases tok
    case ident id =>
      apply Predictive.cons (pathParser_ident id o) (predictive_pathTail [id] rest)
      rintro w path ⟨ids, hw, rfl⟩
      rw [toks_cons, hw]
      exact PathDerives.mk id ids
    all_goals exact Predictive.reject fun r => ⟨_, rfl, reported_errAt _ _⟩

/-! ### Values -/

/-- The words of an array after the values `items`. -/
def ItemsTail (items : List Literal) (w : List Tok) (v : Literal) : Prop :=
  ∃ parts : List (List Tok × Literal), w = separated .comma parts ++ [.rBracket] ∧
    (∀ part ∈ parts, ValueDerives part.1 part.2) ∧ v = .array (items ++ parts.map (·.2))

/-- What `itemsParser` accepts is the rest of a list, given the same of its values. -/
theorem predictive_items (items : List Literal) {ts : List Spanned}
    (hvalue : ∀ r : List Spanned, r.length < ts.length → ReadsOn ValueDerives valueParser r) :
    ReadsOn (ItemsTail items) (itemsParser items) ts := by
  -- after the literals comes the bracket
  have hloop := reads_loop .comma ValueDerives (fun items v => items ++ [v])
    (fun items w v => w = [.rBracket] ∧ v = .array items) itemsParser_comma ?_ ?_ items hvalue
  · apply hloop.mono
    rintro w v ⟨parts, w', hw, hparts, rfl, rfl⟩
    exact ⟨parts, hw, hparts, by rw [foldl_collect]⟩
  · intro items ts hts
    cases ts with
    | nil => exact Predictive.missing (itemsParser_nil items) (reported_errAt _ _)
    | cons t rest =>
      by_cases ht : t.tok = .rBracket
      · obtain ⟨tok, o⟩ := t
        cases ht
        exact Predictive.symbol (itemsParser_close items o) ⟨rfl, rfl⟩
      · -- no other token can follow a literal
        apply Predictive.reject
        intro r
        exact ⟨_, itemsParser_other items (hts t rfl) ht r, reported_errAt _ _⟩
  · intro items v h
    rw [itemsParser_nil] at h
    cases h

/-- What follows an opening bracket. -/
theorem predictive_bracket (o : ℕ) {ts : List Spanned}
    (hvalue : ∀ r : List Spanned, r.length ≤ ts.length → ReadsOn ValueDerives valueParser r) :
    ReadsOn (fun w v => ValueDerives (.lBracket :: w) v)
      (fun r => valueParser (⟨.lBracket, o⟩ :: r)) ts := by
  -- an array that is cut off is never read
  have hnil : ∀ p, seq valueParser (fun v => itemsParser [v]) [] ≠ .ok p := by
    intro p h
    rw [seq_of_error valueParser_nil] at h
    cases h
  cases ts with
  | nil =>
    refine Predictive.missing ?_ (reported_errAt [] "expected literal value")
    rw [valueParser_bracket o (by simp), seq_of_error valueParser_nil]
  | cons t rest =>
    -- empty, or with a first literal
    by_cases ht : t.tok = .rBracket
    · obtain ⟨tok, o'⟩ := t
      cases ht
      exact Predictive.symbol (fun r => valueParser_empty o o' r) ValueDerives.empty
    · refine Predictive.congr (fun r => valueParser_bracket o fun t' ht' => ?_) ?_ hnil
      · cases ht'
        exact ht
      · have hfirst := hvalue (t :: rest) (Nat.le_refl _)
        apply Predictive.seq (K := fun v w lit => ItemsTail [v] (toks w) lit) hfirst
        · intro v r hr
          obtain ⟨w, hw, -⟩ := hfirst.word hr
          apply predictive_items
          intro s hs
          -- the rest is shorter than what the first literal was read from
          apply hvalue
          rw [hw, List.length_append]
          omega
        · intro v lit h
          rw [itemsParser_nil] at h
          cases h
        · rintro w v w' lit hv ⟨parts, hw', hparts, rfl⟩
          rw [toks_append, hw', ← List.append_assoc]
          exact ValueDerives.array (toks w) v parts hv hparts

/-- What `valueParser` accepts is a value of the grammar. -/
theorem predictive_value (ts : List Spanned) : ReadsOn ValueDerives valueParser ts := by
  -- an array holds shorter values
  induction hn : ts.length using Nat.strong_induction_on generalizing ts with
  | _ n ih =>
  subst hn
  cases ts with
  | nil => exact Predictive.missing valueParser_nil (reported_errAt _ _)
  | cons t rest =>
    cases hscalar : scalarToken t.tok with
    | some v =>
      apply Predictive.symbol (fun r => valueParser_scalar hscalar r)
      obtain ⟨tok, o⟩ := t
      cases tok <;> cases hscalar <;> constructor
    | none =>
      -- what is no scalar is an array or nothing
      by_cases hb : t.tok = .lBracket
      · obtain ⟨tok, o⟩ := t
        cases hb
        apply Predictive.cons (fun r => rfl) (predictive_bracket o ?_) id
        intro r hr
        exact ih r.length (by rw [List.length_cons]; omega) r rfl
      · apply Predictive.reject
        intro r
        exact ⟨_, valueParser_other hscalar hb r, reported_errAt _ _⟩

/-! ### Predicates -/

/-- The words of a comparison after its path. -/
def ComparisonTail (path : FieldPath) (w : List Tok) (p : Predicate) : Prop :=
  (∃ v value, w = .contains :: v ∧ ValueDerives v value ∧ value.isArray = false ∧
    p = .contains path value) ∨
  ∃ tok op v value, w = tok :: v ∧ OpDerives tok op ∧ ValueDerives v value ∧
    p = .compare path op value

theorem valueDerives_ne_nil {w : List Tok} {v : Literal} (h : ValueDerives w v) : w ≠ [] := by
  cases h <;> simp

/-- After `contains` an array is read, and rejected at what follows it. -/
theorem predictive_contains (path : FieldPath) (ts : List Spanned) :
    ReadsOn (fun w p => ∃ value, ValueDerives w value ∧ value.isArray = false ∧
      p = .contains path value) (seq valueParser (containsParser path)) ts := by
  apply Predictive.check (predictive_value ts)
  · intro w v hv r
    exact value_complete hv w rfl r
  · rintro w v hv rfl
    exact valueDerives_ne_nil hv rfl
  · intro v
    cases v
    case array items => exact Or.inr fun r => ⟨_, rfl, reported_errAt _ _⟩
    all_goals exact Or.inl ⟨_, fun r => rfl, fun w hw => ⟨_, hw, rfl, rfl⟩⟩

/-- What `comparisonParser` accepts is the rest of a comparison. -/
theorem predictive_comparison (path : FieldPath) (ts : List Spanned) :
    ReadsOn (ComparisonTail path) (comparisonParser path) ts := by
  cases ts with
  | nil => exact Predictive.missing rfl (reported_errAt _ _)
  | cons t rest =>
    -- `contains` takes a scalar, the other operators any value
    by_cases hc : t.tok = .contains
    · obtain ⟨tok, o⟩ := t
      cases hc
      apply Predictive.cons (comparisonParser_contains path o) (predictive_contains path rest)
      rintro w p ⟨value, hvalue, hscalar, rfl⟩
      exact Or.inl ⟨toks w, value, rfl, hvalue, hscalar, rfl⟩
    · cases hop : comparisonOp t.tok with
      | some op =>
        apply Predictive.cons (K := fun w p => ∃ value, ValueDerives (toks w) value ∧
          p = .compare path op value) (comparisonParser_op path hop)
        · apply (predictive_value rest).map
          intro w value hvalue
          exact ⟨value, hvalue, rfl⟩
        · rintro w p ⟨value, hvalue, rfl⟩
          exact Or.inr ⟨t.tok, op, toks w, value, rfl, comparisonOp_eq_some_iff.mp hop, hvalue, rfl⟩
      | none =>
        -- the source looks at the operator after the path, so the error is there
        apply Predictive.reject
        intro r
        exact ⟨_, comparisonParser_other path hc hop r, reported_errAt _ _⟩

theorem predictive_close (p : Predicate) (ts : List Spanned) :
    ReadsOn (fun w q => w = [.rParen] ∧ q = p) (closeParser p) ts := by
  cases ts with
  | nil => exact Predictive.missing rfl (reported_errAt _ _)
  | cons t rest =>
    obtain ⟨tok, o⟩ := t
    cases tok
    case rParen => exact Predictive.symbol (fun r => rfl) ⟨rfl, rfl⟩
    all_goals exact Predictive.reject fun r => ⟨_, rfl, reported_errAt _ _⟩

theorem cmpParser_nil : cmpParser [] = .error (errAt [] "expected identifier, got end of input") := by
  rw [cmpParser_other (by simp)]
  exact seq_of_error rfl

/-- What `cmpParser` accepts is a primary predicate, given the same of `orParser` on shorter inputs.
-/
theorem predictive_cmp {ts : List Spanned}
    (hor : ∀ r : List Spanned, r.length < ts.length → ReadsOn (Derives .or) orParser r) :
    ReadsOn (Derives .primary) cmpParser ts := by
  cases ts with
  | nil => exact Predictive.missing cmpParser_nil (reported_errAt _ _)
  | cons t rest =>
    -- parentheses start again at the lowest level
    by_cases ht : t.tok = .lParen
    · obtain ⟨tok, o⟩ := t
      cases ht
      apply Predictive.cons (K := fun w p => ∃ v, toks w = v ++ [.rParen] ∧ Derives .or v p)
        (cmpParser_lParen o)
      · apply Predictive.seq (K := fun p w q => toks w = [.rParen] ∧ q = p) (hor rest (by simp))
        · intro p r _
          exact predictive_close p r
        · intro p q h
          cases h
        · rintro v p w q hv ⟨hw, rfl⟩
          exact ⟨toks v, by rw [toks_append, hw], hv⟩
      · rintro w p ⟨v, hw, hv⟩
        rw [toks_cons, hw]
        exact Derives.paren v p hv
    · -- a comparison is a path and what is said of it
      refine Predictive.congr (fun r => cmpParser_other (by rintro t' ⟨⟩; exact ht)) ?_ ?_
      · apply Predictive.seq (K := fun path w p => ComparisonTail path (toks w) p)
          (predictive_path _)
        · intro path r _
          exact predictive_comparison path r
        · intro path p h
          cases h
        · rintro v path w p hv (⟨u, value, hw, hvalue, hscalar, rfl⟩ |
            ⟨tok, op, u, value, hw, hop, hvalue, rfl⟩)
          · rw [toks_append, hw]
            exact Derives.contains _ path u value hv hvalue hscalar
          · rw [toks_append, hw]
            exact Derives.compare _ path tok op u value hv hop hvalue
      · rintro p ⟨⟩

/-- What `notParser` accepts is a negation or a primary predicate, given the same of `orParser` on
shorter inputs. -/
theorem predictive_not {ts : List Spanned}
    (hor : ∀ r : List Spanned, r.length < ts.length → ReadsOn (Derives .or) orParser r) :
    ReadsOn (Derives .not) notParser ts := by
  -- `not` may be repeated
  induction hn : ts.length using Nat.strong_induction_on generalizing ts with
  | _ n ih =>
  subst hn
  have hcmp : ReadsOn (Derives .not) cmpParser ts :=
    (predictive_cmp hor).mono fun h => Derives.primary _ _ h
  cases ts with
  | nil =>
    refine Predictive.missing ?_ (reported_errAt [] "expected identifier, got end of input")
    rw [notParser_other (by simp), cmpParser_nil]
  | cons t rest =>
    by_cases hnot : t.tok = .not
    · obtain ⟨tok, o⟩ := t
      cases hnot
      have hrest : ReadsOn (Derives .not) notParser rest :=
        ih rest.length (by simp) (fun r hr => hor r (by rw [List.length_cons]; omega)) rfl
      apply Predictive.cons (notParser_not o) (K := fun w p => Derives .not (.not :: toks w) p)
      · exact hrest.map fun h => Derives.not _ _ h
      · exact id
    · -- `exists` takes a path, and all else is a comparison
      by_cases hexists : t.tok = .exists
      · obtain ⟨tok, o⟩ := t
        cases hexists
        apply Predictive.cons (notParser_exists o)
          (K := fun w p => Derives .not (.exists :: toks w) p)
        · exact (predictive_path rest).map fun h => Derives.exists _ _ h
        · exact id
      · refine Predictive.congr (fun r => notParser_other (by rintro t' ⟨⟩; exact ⟨hnot, hexists⟩))
          hcmp ?_
        rintro p h
        rw [cmpParser_nil] at h
        cases h

/-- A first word and a loop over further ones read a repetition that is nested to the left. -/
theorem predictive_repetition {L R : List Tok → Predicate → Prop} {sep : Tok}
    {step : Predicate → Predicate → Predicate} {f : Parser Spanned QueryError Predicate}
    {body : Predicate → Parser Spanned QueryError Predicate}
    (hmore : ∀ c o rest, body c (⟨sep, o⟩ :: rest) = seq f (fun a => body (step c a)) rest)
    (hother : ∀ c ts, (∀ t, ts.head? = some t → ¬ HasTok sep t) → body c ts = .ok (c, ts))
    {u : List Spanned} {a : Predicate} (hu : f u = .ok (a, []))
    (hR : ∀ w p parts, L w p → (∀ part ∈ parts, L part.1 part.2) →
      R (w ++ separated sep parts) (parts.foldl (fun lhs part => step lhs part.2) p))
    {ts : List Spanned} (hf : ∀ r : List Spanned, r.length ≤ ts.length → ReadsOn L f r) :
    ReadsOn R (seq f body) ts := by
  have hfirst : ReadsOn L f ts := hf ts (Nat.le_refl _)
  apply Predictive.seq (K := fun p w q => ∃ parts : List (List Tok × Predicate),
    toks w = separated sep parts ∧ (∀ part ∈ parts, L part.1 part.2) ∧
      q = parts.foldl (fun lhs part => step lhs part.2) p) hfirst
  · -- the operands after the first one are shorter
    intro p r hr
    obtain ⟨w, hw, -⟩ := hfirst.word hr
    apply reads_loop_before sep L step id hmore hother hu p
    intro s hs
    apply hf
    rw [hw, List.length_append]
    omega
  · intro p q _ p'
    exact ⟨p', hother p' [] fun t ht => by cases ht⟩
  · rintro v p w q hv ⟨parts, hw, hparts, rfl⟩
    rw [toks_append, hw]
    exact hR _ p parts hv hparts

theorem notParser_exists_ident :
    notParser [⟨.exists, 0⟩, ⟨.ident "a", 0⟩] = .ok (.exists ⟨["a"]⟩, []) := by
  rw [notParser_exists]
  rfl

theorem andParser_exists_ident :
    andParser [⟨.exists, 0⟩, ⟨.ident "a", 0⟩] = .ok (.exists ⟨["a"]⟩, []) := by
  rw [andParser_eq, seq_of_ok notParser_exists_ident, andTailParser_other _ (by simp)]

theorem predictive_and {ts : List Spanned}
    (hor : ∀ r : List Spanned, r.length < ts.length → ReadsOn (Derives .or) orParser r) :
    ReadsOn (Derives .and) andParser ts := by
  rw [show andParser = seq notParser andTailParser from funext andParser_eq]
  apply predictive_repetition andTailParser_and (fun c ts hts => andTailParser_other c hts)
    notParser_exists_ident Derives.and
  intro r hr
  exact predictive_not fun s hs => hor s (by omega)

theorem predictive_or (ts : List Spanned) : ReadsOn (Derives .or) orParser ts := by
  induction hn : ts.length using Nat.strong_induction_on generalizing ts with
  | _ n ih =>
  subst hn
  rw [show orParser = seq andParser orTailParser from funext orParser_eq]
  apply predictive_repetition orTailParser_or (fun c ts hts => orTailParser_other c hts)
    andParser_exists_ident Derives.or
  intro r hr
  exact predictive_and fun s hs => ih s.length (by omega) s rfl

/-! ### Queries -/

/-- What `projectionParser` accepts is a projection of the grammar. -/
theorem predictive_projection (ts : List Spanned) :
    ReadsOn ProjectionDerives projectionParser ts := by
  cases ts with
  | nil => exact Predictive.missing rfl (reported_errAt _ _)
  | cons t rest =>
    -- `*` stands alone, and paths are separated by commas
    by_cases ht : t.tok = .star
    · obtain ⟨tok, o⟩ := t
      cases ht
      exact Predictive.symbol (projectionParser_star o) ProjectionDerives.all
    · refine Predictive.congr (fun r => projectionParser_other ht r) ?_ ?_
      · apply Predictive.seq (K := fun path w q => ∃ parts : List (List Tok × FieldPath),
          toks w = separated .comma parts ∧ (∀ part ∈ parts, PathDerives part.1 part.2) ∧
            q = .fields (path :: parts.map (·.2))) (predictive_path _)
        · intro path r _
          have hident : pathParser [⟨.ident "a", 0⟩] = .ok (⟨["a"]⟩, []) := rfl
          have hloop := reads_loop_before .comma PathDerives (fun paths path => paths ++ [path])
            Projection.fields projectionTailParser_comma
            (fun paths ts hts => projectionTailParser_other paths hts) hident [path]
            (fun s (_ : s.length < r.length) => predictive_path s)
          apply hloop.mono
          rintro w q ⟨parts, hw, hparts, rfl⟩
          exact ⟨parts, hw, hparts, by rw [foldl_collect]; rfl⟩
        · -- a path may be the last one
          intro path q _ path'
          exact ⟨_, projectionTailParser_other [path'] (by simp)⟩
        · rintro v path w q hv ⟨parts, hw, hparts, rfl⟩
          rw [toks_append, hw]
          exact ProjectionDerives.fields _ path parts hv hparts
      · rintro p ⟨⟩

theorem predictive_select (ts : List Spanned) : ReadsOn SelectDerives selectParser ts := by
  by_cases hts : ∀ t, ts.head? = some t → ¬ HasTok .select t
  · apply Predictive.stop_before (fun r hr => selectParser_other hr) _ SelectDerives.absent hts
    rintro ⟨tok, o⟩ rfl
    exact ⟨[⟨.star, 0⟩], .all, rfl⟩
  · push Not at hts
    obtain ⟨⟨tok, o⟩, ht, rfl⟩ := hts
    obtain ⟨rest, rfl⟩ := List.head?_eq_some_iff.mp ht
    exact Predictive.cons (fun r => rfl) (predictive_projection rest)
      fun h => SelectDerives.select _ _ h

theorem predictive_where (ts : List Spanned) : ReadsOn WhereDerives whereParser ts := by
  by_cases hts : ∀ t, ts.head? = some t → ¬ HasTok .where t
  · apply Predictive.stop_before (fun r hr => whereParser_other hr) _ WhereDerives.absent hts
    rintro ⟨tok, o⟩ rfl
    refine ⟨[⟨.exists, 0⟩, ⟨.ident "a", 0⟩], .exists ⟨["a"]⟩, ?_⟩
    show orParser _ = _
    rw [orParser_eq, seq_of_ok andParser_exists_ident, orTailParser_other _ (by simp)]
  · push Not at hts
    obtain ⟨⟨tok, o⟩, ht, rfl⟩ := hts
    obtain ⟨rest, rfl⟩ := List.head?_eq_some_iff.mp ht
    exact Predictive.cons (fun r => rfl) (predictive_or rest) fun h => WhereDerives.where _ _ h

theorem predictive_query (ts : List Spanned) : ReadsOn QueryDerives queryParser ts := by
  unfold queryParser
  apply Predictive.seq (K := fun projection w q => ∃ predicate, WhereDerives (toks w) predicate ∧
    q = { projection, predicate }) (predictive_select ts)
  · intro projection r _
    exact (predictive_where r).map fun {w} predicate h => ⟨predicate, h, rfl⟩
  · intro projection q _ projection'
    exact ⟨{ projection := projection', predicate := .true }, rfl⟩
  · rintro v projection w q hv ⟨predicate, hw, rfl⟩
    rw [toks_append]
    exact QueryDerives.mk _ projection _ predicate hv hw

/-! ### The parser and the grammar -/

theorem parseQuery_iff_derives {ts : List Spanned} {q : Query} :
    parseQuery ts = .ok q ↔ QueryDerives (toks ts) q := by
  rw [parseQuery_eq_ok_iff]
  constructor
  · intro h
    obtain ⟨w, hw, hq, -⟩ := (predictive_query ts).word h
    rw [List.append_nil] at hw
    rw [hw]
    exact hq
  · intro h
    exact query_complete h rfl

/-- A query in its text. -/
theorem parse_eq_ok {input : String} {ts : List Spanned} {q : Query}
    (hts : tokenize input = .ok ts) (hq : QueryDerives (toks ts) q) : parse input = .ok q := by
  unfold parse
  rw [hts]
  exact parseQuery_iff_derives.mpr hq

/-- **The parser accepts exactly the grammar**, and returns the query that the tokens derive; a list
of tokens derives at most one. -/
theorem parseQuery_exact (ts : List Spanned) :
    (∀ q, parseQuery ts = .ok q ↔ QueryDerives (toks ts) q) ∧
      ∀ q q', QueryDerives (toks ts) q → QueryDerives (toks ts) q' → q = q' := by
  constructor
  · intro q
    exact parseQuery_iff_derives
  · intro q q' hq hq'
    have h := (query_complete hq rfl).symm.trans (query_complete hq' rfl)
    exact (Prod.mk.inj (Except.ok.inj h)).1

end Caql

end Boardwalk
