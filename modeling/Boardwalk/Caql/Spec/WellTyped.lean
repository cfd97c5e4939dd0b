import Boardwalk.Caql.Spec.Predictive
import Boardwalk.Query.Eval

/-!
# The operands of membership tests

`contains` rejects an array, and `in` takes any value.  A query that is accepted has operands of the
right shape exactly when a bracket follows every `in` of its text (`wellTyped_iff`); the evaluator
makes a wrong one false of everything.
-/

namespace Boardwalk

/-! ### Predicates -/

mutual

/-- In the predicate and all of its parts, `in` has an array at its right and `contains` has none. -/
def Predicate.wellTyped : Predicate → Bool
  | .true | .false | .exists _ => .true
  | .and items => Predicate.wellTypedAll items
  | .or items => Predicate.wellTypedAll items
  | .not inner => inner.wellTyped
  | .compare _ op right => op != .inSet || right.isArray
  | .contains _ value => !value.isArray

def Predicate.wellTypedAll : List Predicate → Bool
  | [] => .true
  | item :: items => item.wellTyped && Predicate.wellTypedAll items

end

/-- Membership in what is not an array is false. -/
theorem compareWith_inSet_of_not_array (got : Option Json) {v : Literal} (h : v.isArray = false) :
    compareWith .inSet got v = false := by
  cases v
  case array => cases h
  all_goals rfl

namespace Caql

/-! ### Words -/

/-- An opening bracket follows every `in`. -/
def bracketedIn : List Tok → Bool
  | [] => true
  | .in :: rest => rest.head? == some .lBracket && bracketedIn rest
  | _ :: rest => bracketedIn rest

theorem bracketedIn_cons {tok : Tok} (htok : tok ≠ .in) (rest : List Tok) :
    bracketedIn (tok :: rest) = bracketedIn rest := by
  cases tok
  case «in» => exact absurd rfl htok
  all_goals rfl

/-- A word without `in` adds nothing. -/
theorem bracketedIn_append {w : List Tok} (hw : .in ∉ w) (r : List Tok) :
    bracketedIn (w ++ r) = bracketedIn r := by
  induction w with
  | nil => rfl
  | cons tok w ih =>
    rw [List.mem_cons, not_or] at hw
    rw [List.cons_append, bracketedIn_cons (Ne.symm hw.1)]
    exact ih hw.2

theorem not_mem_path {w : List Tok} {path : FieldPath} (h : PathDerives w path) : .in ∉ w := by
  cases h
  simp

theorem not_mem_value {w : List Tok} {v : Literal} (h : ValueDerives w v) : .in ∉ w := by
  induction h with
  | array w v parts _ _ ih ihparts =>
    simp only [separated, List.mem_cons, List.mem_append, List.mem_flatMap, List.not_mem_nil,
      reduceCtorEq, or_false, false_or, not_or, not_exists, not_and]
    exact ⟨ih, ihparts⟩
  | _ => simp

/-- A value starts with a bracket when it is an array. -/
theorem value_head {w : List Tok} {v : Literal} (h : ValueDerives w v) (r : List Tok) :
    ((w ++ r).head? == some .lBracket) = v.isArray := by
  cases h <;> rfl

/-! ### Derivations -/

/-- Folding operands to the left keeps the check of `in` on the tokens equal to the check on the
tree. -/
theorem foldl_wellTyped (node : Predicate → Predicate → Predicate)
    (hnode : ∀ p q, (node p q).wellTyped = (p.wellTyped && q.wellTyped)) {sep : Tok}
    (hsep : sep ≠ .in) {parts : List (List Tok × Predicate)}
    (hparts : ∀ part ∈ parts, ∀ r, bracketedIn (part.1 ++ r) = (part.2.wellTyped && bracketedIn r))
    (p : Predicate) (r : List Tok) :
    (p.wellTyped && bracketedIn (separated sep parts ++ r)) =
      ((parts.foldl (fun lhs part => node lhs part.2) p).wellTyped && bracketedIn r) := by
  induction parts generalizing p with
  | nil => rfl
  | cons part parts ih =>
    have hpart := hparts part List.mem_cons_self (separated sep parts ++ r)
    rw [List.foldl_cons, ← ih (fun q hq => hparts q (List.mem_cons_of_mem _ hq)), hnode,
      separated_cons, List.cons_append, bracketedIn_cons hsep, List.append_assoc, hpart,
      Bool.and_assoc]

/-- The brackets after the `in`s of a word are the arrays at the `in`s of its predicate. -/
theorem bracketedIn_derives {level : Level} {w : List Tok} {p : Predicate}
    (h : Derives level w p) (r : List Tok) :
    bracketedIn (w ++ r) = (p.wellTyped && bracketedIn r) := by
  -- only a comparison with `in` has something to check, and it is the head of its value
  induction h generalizing r with
  | or w p parts _ _ ih ihparts =>
    rw [List.append_assoc, ih]
    apply foldl_wellTyped (fun lhs rhs => .or [lhs, rhs]) _ (by simp) ihparts
    intro p q
    simp [Predicate.wellTyped, Predicate.wellTypedAll]
  | and w p parts _ _ ih ihparts =>
    rw [List.append_assoc, ih]
    apply foldl_wellTyped (fun lhs rhs => .and [lhs, rhs]) _ (by simp) ihparts
    intro p q
    simp [Predicate.wellTyped, Predicate.wellTypedAll]
  | not w p _ ih =>
    rw [List.cons_append, bracketedIn_cons (by simp), ih, Predicate.wellTyped]
  | «exists» w path hpath =>
    rw [List.cons_append, bracketedIn_cons (by simp), bracketedIn_append (not_mem_path hpath),
      Predicate.wellTyped, Bool.true_and]
  | primary w p _ ih => exact ih r
  | paren w p _ ih =>
    rw [List.cons_append, bracketedIn_cons (by simp), List.append_assoc, ih]
    rfl
  | contains w path v value hpath hvalue hscalar =>
    rw [List.append_assoc, bracketedIn_append (not_mem_path hpath), List.cons_append,
      bracketedIn_cons (by simp), bracketedIn_append (not_mem_value hvalue), Predicate.wellTyped,
      hscalar]
    rfl
  | compare w path tok op v value hpath hop hvalue =>
    rw [List.append_assoc, bracketedIn_append (not_mem_path hpath), List.cons_append]
    -- `in` is well typed with an array only
    cases hop
    case inSet =>
      rw [bracketedIn, value_head hvalue, bracketedIn_append (not_mem_value hvalue)]
      rfl
    all_goals
      rw [bracketedIn_cons (by simp), bracketedIn_append (not_mem_value hvalue)]
      rfl

theorem not_mem_projection {w : List Tok} {projection : Projection}
    (h : ProjectionDerives w projection) : .in ∉ w := by
  cases h with
  | all => simp
  | fields w path parts hpath hparts =>
    simp only [separated, List.mem_append, List.mem_flatMap, List.mem_cons, reduceCtorEq, false_or,
      not_or, not_exists, not_and]
    exact ⟨not_mem_path hpath, fun part hpart => not_mem_path (hparts part hpart)⟩

/-- On a query of the grammar, every `in` has its bracket exactly when the predicate is well typed.
-/
theorem bracketedIn_query {w : List Tok} {q : Query} (h : QueryDerives w q) :
    bracketedIn w = q.predicate.wellTyped := by
  obtain ⟨v, projection, w, predicate, hselect, hwhere⟩ := h
  have hv : .in ∉ v := by
    cases hselect with
    | absent => simp
    | select v projection hp => simp [not_mem_projection hp]
  rw [bracketedIn_append hv]
  cases hwhere with
  | absent => rfl
  | «where» w p hp =>
    have hbracketed := bracketedIn_derives hp []
    rw [List.append_nil] at hbracketed
    rw [bracketedIn_cons (by simp), hbracketed]
    exact Bool.and_true _

/-! ### Queries -/

/-- In the text of a query every `in` has a bracket after it. -/
def InsBracketed (input : String) : Prop :=
  ∃ ts, tokenize input = .ok ts ∧ bracketedIn (toks ts) = true

/-- **Accepted queries are well typed** exactly when a bracket follows every `in` that they spell. -/
theorem wellTyped_iff {input : String} {q : Query} (h : parse input = .ok q) :
    q.predicate.wellTyped = true ↔ InsBracketed input := by
  obtain ⟨ts, hts, hparse⟩ := bind_eq_ok_iff.mp h
  rw [← bracketedIn_query (parseQuery_iff_derives.mp hparse)]
  constructor
  · intro hin
    exact ⟨ts, hts, hin⟩
  · rintro ⟨ts', hts', hin⟩
    cases hts.symm.trans hts'
    exact hin

/-- The query `kind in [null]`. -/
def kindInNulls : Query := { predicate := .compare ⟨["kind"]⟩ .inSet (.array [.null]) }

theorem parse_kindInNulls : parse "where kind in [null]" = .ok kindInNulls := by
  have hts : tokenize "where kind in [null]" =
      .ok [⟨.where, 0⟩, ⟨.ident "kind", 6⟩, ⟨.in, 11⟩, ⟨.lBracket, 14⟩, ⟨.null, 15⟩,
        ⟨.rBracket, 19⟩] := by
    decide +kernel
  have hvalue : ValueDerives [.lBracket, .null, .rBracket] (.array [.null]) :=
    ValueDerives.array [.null] .null [] ValueDerives.null (by simp)
  exact parse_eq_ok hts (QueryDerives.of_compare (PathDerives.mk "kind" []) OpDerives.inSet hvalue)

theorem wellTyped_iff_kindInNulls :
    kindInNulls.predicate.wellTyped = true ↔ InsBracketed "where kind in [null]" :=
  wellTyped_iff parse_kindInNulls

/-- The query `kind in null`. -/
def kindInNull : Query := { predicate := .compare ⟨["kind"]⟩ .inSet .null }

/-- The text `where kind in null` is accepted, and the query is false of everything. -/
theorem accepts_kindInNull : parse "where kind in null" = .ok kindInNull ∧
    kindInNull.predicate.wellTyped = false ∧ ∀ t, kindInNull.matches t = .ok false := by
  refine ⟨?_, rfl, ?_⟩
  · have hts : tokenize "where kind in null" =
        .ok [⟨.where, 0⟩, ⟨.ident "kind", 6⟩, ⟨.in, 11⟩, ⟨.null, 14⟩] := by
      decide +kernel
    exact parse_eq_ok hts
      (QueryDerives.of_compare (PathDerives.mk "kind" []) OpDerives.inSet ValueDerives.null)
  · intro t
    rw [Query.matches, kindInNull, evalPred, compareWith_inSet_of_not_array _ rfl]

end Caql

end Boardwalk
