import Boardwalk.Caql.Spec.Spelling

/-!
# Where a parse error points

The culprit of a rejected text is its first token that no accepted text goes on with, and the end of
the text where there is none (`AtCulprit`).  Every error site but one takes the token that it rejects
before it reports the next one, or offset zero at the end; the one that does not is the check for
trailing tokens.  So an error is at the culprit exactly when the tokens before it are a query by
themselves (`atCulprit_iff`).
-/

namespace Boardwalk

namespace Caql

open Descent

/-- Accepted texts start with the tokens before `t`, and none with these and `t`. -/
def Culprit (ts : List Spanned) (t : Spanned) : Prop :=
  ∃ us vs, ts = us ++ t :: vs ∧ Completable (toks us) ∧ ¬ Completable (toks (us ++ [t]))

/-- The offset is that of the culprit, or the length of the text when there is none. -/
def AtCulprit (input : String) (ts : List Spanned) (offset : ℕ) : Prop :=
  (∃ t, Culprit ts t ∧ offset = t.offset) ∨
    (∀ t, ¬ Culprit ts t) ∧ offset = (asBytes input).length

/-! ### Completable and viable -/

/-- What the parser can go on with is what accepted texts start with. -/
theorem viable_iff {ts : List Spanned} (hts : ∀ tok ∈ toks ts, Spelled tok) :
    Viable queryParser ts ↔ Completable (toks ts) := by
  rw [completable_iff hts]
  constructor
  · rintro ⟨u, q, hq⟩
    refine ⟨toks u, q, ?_⟩
    rw [← toks_append]
    exact parseQuery_iff_derives.mp (parseQuery_eq_ok_iff.mpr hq)
  · rintro ⟨u, q, hq⟩
    refine ⟨u.map (⟨·, 0⟩), q, parseQuery_eq_ok_iff.mp (parseQuery_iff_derives.mpr ?_)⟩
    have htoks : toks (u.map (⟨·, 0⟩)) = u := by
      simp [toks, Function.comp_def]
    rw [toks_append, htoks]
    exact hq

/-- The empty text is a query. -/
theorem queryDerives_nil : QueryDerives [] {} :=
  QueryDerives.mk [] .all [] .true SelectDerives.absent WhereDerives.absent

theorem Completable.of_query {w : List Tok} (hw : ∀ tok ∈ w, Spelled tok) {q : Query}
    (h : QueryDerives w q) : Completable w := by
  rw [completable_iff hw]
  refine ⟨[], q, ?_⟩
  rw [List.append_nil]
  exact h

/-- In what cannot be completed there is a culprit. -/
theorem exists_culprit {c : List Spanned} (h : ¬ Completable (toks c)) (r : List Spanned) :
    ∃ t, Culprit (c ++ r) t := by
  induction c using List.reverseRecOn generalizing r with
  | nil => exact absurd (Completable.of_query (by simp) queryDerives_nil) h
  | append_singleton c t ih =>
    by_cases hc : Completable (toks c)
    · exact ⟨t, c, r, by simp, hc, h⟩
    · obtain ⟨t', hculprit⟩ := ih hc (t :: r)
      refine ⟨t', ?_⟩
      rw [List.append_assoc]
      exact hculprit

/-! ### Errors -/

theorem parseQuery_nil : parseQuery [] = .ok {} := parseQuery_iff_derives.mpr queryDerives_nil

section

variable {input : String} {ts : List Spanned} (hts : tokenize input = .ok ts)

include hts

theorem parse_eq : parse input = parseQuery ts := by
  unfold parse
  rw [hts]
  rfl

/-- An offset says how much of the text is before it. -/
theorem before_unique {us vs c r : List Spanned} {t t' : Spanned} (h : ts = us ++ t :: vs)
    (h' : ts = c ++ t' :: r) (hoffset : t.offset = t'.offset) : us = c := by
  have hpairwise := (tokenize_eq_ok_iff.mp hts).pairwise
  -- offsets grow along the tokens, so of two tokens neither stands before the other
  have hlt : ∀ {a b : List Spanned}, ts = a ++ t :: (b ++ t' :: r) → False := by
    rintro a b rfl
    have hrest := (List.pairwise_cons.mp (List.pairwise_append.mp hpairwise).2.1).1 t' (by simp)
    omega
  have hgt : ∀ {a b : List Spanned}, ts = a ++ t' :: (b ++ t :: vs) → False := by
    rintro a b rfl
    have hrest := (List.pairwise_cons.mp (List.pairwise_append.mp hpairwise).2.1).1 t (by simp)
    omega
  -- one of the two prefixes is a prefix of the other
  obtain ⟨a, rfl, ha⟩ | ⟨a, rfl, ha⟩ := List.append_eq_append_iff.mp (h.symm.trans h')
  · cases a with
    | nil => exact (List.append_nil us).symm
    | cons u a =>
      obtain ⟨rfl, -⟩ := List.cons.inj ha
      refine (hlt (a := us) (b := a) ?_).elim
      rw [h']
      simp
  · cases a with
    | nil => exact List.append_nil c
    | cons u a =>
      obtain ⟨rfl, -⟩ := List.cons.inj ha
      refine (hgt (a := c) (b := a) ?_).elim
      rw [h]
      simp

/-- A token at offset zero is the first one. -/
theorem before_zero {us vs : List Spanned} {t : Spanned} (h : ts = us ++ t :: vs)
    (hoffset : t.offset = 0) : us = [] := by
  cases us with
  | nil => rfl
  | cons u us =>
    have hpairwise := (tokenize_eq_ok_iff.mp hts).pairwise
    rw [h, List.cons_append] at hpairwise
    have hlt := (List.pairwise_cons.mp hpairwise).1 t (by simp)
    omega

theorem eq_nil_of_length (hlength : (asBytes input).length = 0) : ts = [] := by
  have hmem := (tokenize_eq_ok_iff.mp hts).offset_mem
  cases ts with
  | nil => rfl
  | cons t ts =>
    have := hmem t List.mem_cons_self
    omega

/-- **An error is at the culprit** exactly when it is about trailing tokens. -/
theorem atCulprit_iff {offset : ℕ} {message : String}
    (herror : parse input = .error (.parse offset message)) :
    AtCulprit input ts offset ↔
      ∃ us t vs q, ts = us ++ t :: vs ∧ QueryDerives (toks us) q ∧
        ¬ Completable (toks (us ++ [t])) := by
  have hspelled : ∀ {c r : List Spanned}, ts = c ++ r → ∀ tok ∈ toks c, Spelled tok := by
    rintro c r rfl tok htok
    apply spelled_of_tokenize hts
    rw [toks_append]
    exact List.mem_append_left _ htok
  have hviable : ∀ {c r : List Spanned}, ts = c ++ r →
      (Viable queryParser c ↔ Completable (toks c)) := fun h => viable_iff (hspelled h)
  rw [parse_eq hts] at herror
  constructor
  · intro hat
    obtain hinner | ⟨q, t, r, hleft, -⟩ := parseQuery_eq_error herror
    · obtain ⟨c, r, hcr, ⟨message', he⟩, hwrong⟩ := not_viable_of_error predictive_query hinner
      cases he
      rw [hviable hcr] at hwrong
      cases r with
      | nil =>
        -- zero is the culprit's offset only where that is the first token
        obtain ⟨t, ⟨us, vs, hsplit, -, hbad⟩, hoffset⟩ | ⟨-, hoffset⟩ := hat
        · obtain rfl := before_zero hts hsplit hoffset.symm
          exact ⟨[], t, vs, {}, hsplit, queryDerives_nil, hbad⟩
        · rw [eq_nil_of_length hts hoffset.symm, parseQuery_nil] at herror
          cases herror
      | cons t' r =>
        have hc : ¬ Completable (toks c) := hwrong.resolve_left (by simp)
        obtain ⟨t, ⟨us, vs, hsplit, hus, -⟩, hoffset⟩ | ⟨hnone, -⟩ := hat
        · rw [before_unique hts hsplit hcr hoffset.symm] at hus
          exact absurd hus hc
        · obtain ⟨t, hculprit⟩ := exists_culprit hc (t' :: r)
          rw [← hcr] at hculprit
          exact absurd hculprit (hnone t)
    · obtain ⟨us, hsplit, hread, hbad⟩ := not_viable_of_left predictive_query hleft
      have hsplit' : ts = us ++ [t] ++ r := by simp [hsplit]
      refine ⟨us, t, r, q, hsplit, ?_, ?_⟩
      · exact parseQuery_iff_derives.mp (parseQuery_eq_ok_iff.mpr hread)
      · rw [← hviable hsplit']
        exact hbad
  · rintro ⟨us, t, vs, q, hsplit, hq, hbad⟩
    have hsplit' : ts = us ++ [t] ++ vs := by simp [hsplit]
    have hread := parseQuery_eq_ok_iff.mp (parseQuery_iff_derives.mpr hq)
    have hleft := left_of_not_viable predictive_query hread ((hviable hsplit').not.mpr hbad) vs
    rw [parseQuery_eq, hsplit, hleft] at herror
    cases herror
    exact Or.inl ⟨t, ⟨us, vs, hsplit, Completable.of_query (hspelled hsplit) hq, hbad⟩, rfl⟩

end

theorem atCulprit_iff_kind : AtCulprit "kind" [⟨.ident "kind", 0⟩] 0 ↔
    ∃ us t vs q, [⟨.ident "kind", 0⟩] = us ++ t :: vs ∧ QueryDerives (toks us) q ∧
      ¬ Completable (toks (us ++ [t])) := by
  have hts : tokenize "kind" = .ok [⟨.ident "kind", 0⟩] := by decide +kernel
  have herror : parse "kind" = .error (.parse 0 "unexpected trailing tokens") := by
    rw [parse_eq hts]
    rfl
  exact atCulprit_iff hts herror

/-- The tokens of `where kind =`. -/
def whereKindEq : List Spanned := [⟨.where, 0⟩, ⟨.ident "kind", 6⟩, ⟨.eq, 11⟩]

/-- A value is missing at the end of `where kind =`, twelve bytes in, and the error is at zero. -/
theorem not_atCulprit_whereKindEq : tokenize "where kind =" = .ok whereKindEq ∧
    parse "where kind =" = .error (.parse 0 "expected literal value") ∧
    ¬ AtCulprit "where kind =" whereKindEq 0 := by
  have hts : tokenize "where kind =" = .ok whereKindEq := by decide +kernel
  refine ⟨hts, ?_, ?_⟩
  · -- level by level the parser meets the missing literal
    have hpath : pathParser [⟨.ident "kind", 6⟩, ⟨.eq, 11⟩] = .ok (⟨["kind"]⟩, [⟨.eq, 11⟩]) :=
      pathTailParser_other ["kind"] (by simp)
    have hnot : notParser [⟨.ident "kind", 6⟩, ⟨.eq, 11⟩] =
        .error (errAt [] "expected literal value") := by
      rw [notParser_other (by simp), cmpParser_other (by simp), seq_of_ok hpath,
        comparisonParser_op _ rfl]
      exact seq_of_error valueParser_nil
    have hand : andParser [⟨.ident "kind", 6⟩, ⟨.eq, 11⟩] =
        .error (errAt [] "expected literal value") := by
      rw [andParser_eq]
      exact seq_of_error hnot
    have hor : orParser [⟨.ident "kind", 6⟩, ⟨.eq, 11⟩] =
        .error (errAt [] "expected literal value") := by
      rw [orParser_eq]
      exact seq_of_error hand
    have hquery : queryParser whereKindEq = .error (errAt [] "expected literal value") := by
      unfold queryParser
      rw [seq_of_ok (selectParser_other (by simp [whereKindEq]))]
      exact seq_of_error hor
    rw [parse_eq hts, parseQuery_eq, hquery]
    rfl
  · -- neither a token at offset 0 nor the end of the text is the culprit
    rintro (⟨t, ⟨us, vs, hsplit, -, hbad⟩, hoffset⟩ | ⟨-, hlength⟩)
    · obtain rfl := before_zero hts hsplit hoffset.symm
      have hts' : tokenize "where exists a" =
          .ok [⟨.where, 0⟩, ⟨.exists, 6⟩, ⟨.ident "a", 13⟩] := by decide +kernel
      have hquery := QueryDerives.of_not (Derives.exists _ _ (PathDerives.mk "a" []))
      obtain ⟨rfl, -⟩ := List.cons.inj hsplit
      exact hbad ⟨_, _, _, hts', parse_eq_ok hts' hquery, [.exists, .ident "a"], rfl⟩
    · have htwelve : (asBytes "where kind =").length = 12 := by decide
      omega

end Caql

end Boardwalk
