import Boardwalk.Query.Eval

/-!
# Laws of the query operators

What `=` is for a value says everything about the other operators that compare for equality: `!=`
is its negation, `contains` looks for an element that is equal, and `in` is the disjunction of the
comparisons with its items — but for one case.  A path that does not resolve is equal to `null`,
and `in` is false there whatever its items are (`inLaw_iff`).
-/

namespace Boardwalk

/-- A disjunction as the parser builds it, nested to the left; of nothing it is false. -/
def Predicate.disjunction : List Predicate → Predicate
  | [] => .false
  | p :: ps => ps.foldl (fun lhs rhs => .or [lhs, rhs]) p

/-! ### Disjunctions -/

/-- A disjunction of two whose items have values. -/
theorem evalPred_or {t : Json} {p q : Predicate} {x y : Bool} (hp : evalPred t p = .ok x)
    (hq : evalPred t q = .ok y) : evalPred t (.or [p, q]) = .ok (x || y) := by
  rw [evalPred, evalOr, hp]
  cases x
  · show evalOr t [q] = .ok (false || y)
    rw [evalOr, hq]
    cases y <;> rfl
  · rfl

/-- A fold of disjuncts evaluates to whether any of them holds. -/
theorem evalPred_foldl_or {α : Type} {t : Json} {f : α → Predicate} {b : α → Bool}
    (hf : ∀ v, evalPred t (f v) = .ok (b v)) (vs : List α) {lhs : Predicate} {x : Bool}
    (hlhs : evalPred t lhs = .ok x) :
    evalPred t ((vs.map f).foldl (fun lhs rhs => .or [lhs, rhs]) lhs) = .ok (x || vs.any b) := by
  induction vs generalizing lhs x with
  | nil =>
    rw [List.any_nil, Bool.or_false]
    exact hlhs
  | cons v vs ih =>
    rw [List.map_cons, List.foldl_cons, List.any_cons, ← Bool.or_assoc]
    apply ih
    exact evalPred_or hlhs (hf v)

/-- A disjunction is true when one of its items is. -/
theorem evalPred_disjunction {α : Type} {t : Json} {f : α → Predicate} {b : α → Bool}
    (hf : ∀ v, evalPred t (f v) = .ok (b v)) (vs : List α) :
    evalPred t (.disjunction (vs.map f)) = .ok (vs.any b) := by
  cases vs with
  | nil => rfl
  | cons v vs =>
    rw [List.any_cons]
    exact evalPred_foldl_or hf vs (hf v)

/-! ### Equality -/

@[simp]
theorem evalPred_compare (t : Json) (path : FieldPath) (op : ComparisonOp) (v : Literal) :
    evalPred t (.compare path op v) = .ok (compareWith op (lookup path t) v) := by
  rw [evalPred]

/-- Whether a literal is the one that a missing value is equal to. -/
def Literal.isNull : Literal → Bool
  | .null => true
  | _ => false

theorem Literal.isNull_iff {v : Literal} : v.isNull = true ↔ v = .null := by
  cases v <;> simp [isNull]

theorem compareWith_eq_none (v : Literal) : compareWith .eq none v = v.isNull := by
  cases v <;> rfl

theorem compareWith_ne (got : Option Json) (v : Literal) :
    compareWith .ne got v = !compareWith .eq got v := by
  cases got with
  | none => cases v <;> rfl
  | some _ => rfl

/-! ### The laws -/

/-- `path in [v1, ..., vn]` has the value of `path = v1 or ... or path = vn`. -/
def InLaw (t : Json) (path : FieldPath) (vs : List Literal) : Prop :=
  evalPred t (.compare path .inSet (.array vs)) =
    evalPred t (.disjunction (vs.map (.compare path .eq)))

/-- `path != v` has the value of the negation of `path = v`. -/
def NeLaw (t : Json) (path : FieldPath) (v : Literal) : Prop :=
  evalPred t (.compare path .ne v) = evalPred t (.not (.compare path .eq v))

/-- `path contains v` is true exactly when the path resolves to an array that has an element equal
to `v`. -/
def ContainsLaw (t : Json) (path : FieldPath) (v : Literal) : Prop :=
  evalPred t (.contains path v) = .ok true ↔
    ∃ items, lookup path t = some (.array items) ∧
      ∃ w ∈ items, compareWith .eq (some w) v = true

/-- Membership is the disjunction of the equalities unless the path is missing and `null` is one of
the items. -/
theorem inLaw_iff (t : Json) (path : FieldPath) (vs : List Literal) :
    InLaw t path vs ↔ ((lookup path t).isSome = true ∨ Literal.null ∉ vs) := by
  rw [InLaw, evalPred_compare, evalPred_disjunction (evalPred_compare t path .eq),
    Except.ok.injEq]
  cases lookup path t with
  | some g =>
    have hin : compareWith .inSet (some g) (.array vs) = vs.any (compareWith .eq (some g)) := rfl
    simp [hin]
  | none =>
    have hin : compareWith .inSet none (.array vs) = false := rfl
    have hnull : Literal.null ∈ vs ↔ vs.any (compareWith .eq none) = true := by
      rw [List.any_eq_true]
      constructor
      · intro h
        exact ⟨.null, h, rfl⟩
      · rintro ⟨v, hv, heq⟩
        rw [compareWith_eq_none, Literal.isNull_iff] at heq
        exact heq ▸ hv
    rw [hin, hnull, Bool.not_eq_true, eq_comm]
    simp

theorem neLaw (t : Json) (path : FieldPath) (v : Literal) : NeLaw t path v := by
  rw [NeLaw, evalPred, evalPred, evalPred_compare, compareWith_ne]
  rfl

/-- `contains` is membership in an array and substring in a string. -/
theorem containsLaw (t : Json) (path : FieldPath) (v : Literal) : ContainsLaw t path v := by
  rw [ContainsLaw, evalPred]
  split
  · rename_i items hitems
    rw [hitems, Except.ok.injEq, List.any_eq_true]
    constructor
    · intro h
      exact ⟨items, rfl, h⟩
    · rintro ⟨items', heq, w, hw, hv⟩
      cases heq
      exact ⟨w, hw, hv⟩
  · rename_i hother
    constructor
    · intro h
      cases h
    · rintro ⟨items, heq, -⟩
      exact absurd heq (hother items)

/-- **The laws of the operators.**  They hold together exactly where the path resolves or no item
of the list is `null`. -/
theorem operatorLaws_iff (t : Json) (path : FieldPath) (vs : List Literal) (v : Literal) :
    (InLaw t path vs ∧ NeLaw t path v ∧ ContainsLaw t path v) ↔
      ((lookup path t).isSome = true ∨ Literal.null ∉ vs) := by
  rw [inLaw_iff]
  constructor
  · rintro ⟨h, -, -⟩
    exact h
  · intro h
    exact ⟨h, neLaw t path v, containsLaw t path v⟩

/-- On the empty object `x = null` is true and `x in [null]` is not. -/
theorem not_inLaw_missing_null :
    ¬ (InLaw (.object []) ⟨["x"]⟩ [.null] ∧ NeLaw (.object []) ⟨["x"]⟩ .null ∧
      ContainsLaw (.object []) ⟨["x"]⟩ .null) := by
  rintro ⟨hin, -, -⟩
  have hmissing : lookup ⟨["x"]⟩ (.object []) = none := rfl
  obtain h | h := (inLaw_iff _ _ _).mp hin
  · rw [hmissing] at h
    cases h
  · exact h List.mem_cons_self

end Boardwalk
