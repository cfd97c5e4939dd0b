import Boardwalk.Caql.Parse

/-!
# The grammar of CaQL

What a list of tokens derives, as relations between its words and the syntax trees that they stand
for.  A repetition `x (sep x)*` is a first word and a list of further ones (`separated`).
-/

namespace Boardwalk

def Literal.isArray : Literal → Bool
  | .array _ => true
  | _ => false

namespace Caql

/-- The words of a repetition after the first one, each with the separator before it. -/
def separated {α : Type} (sep : Tok) (parts : List (List Tok × α)) : List Tok :=
  parts.flatMap fun part => sep :: part.1

@[simp]
theorem separated_nil {α : Type} (sep : Tok) : separated sep ([] : List (List Tok × α)) = [] := rfl

@[simp]
theorem separated_cons {α : Type} (sep : Tok) (part : List Tok × α)
    (parts : List (List Tok × α)) :
    separated sep (part :: parts) = sep :: (part.1 ++ separated sep parts) := rfl

/-- `path = ident ("." ident)*` -/
inductive PathDerives : List Tok → FieldPath → Prop where
  | mk (id : String) (ids : List String) :
    PathDerives (.ident id :: ids.flatMap fun id => [.dot, .ident id]) ⟨id :: ids⟩

/-- `value = string | number | bool | "null" | "[" (value ("," value)*)? "]"` -/
inductive ValueDerives : List Tok → Literal → Prop where
  | string (s : String) : ValueDerives [.string s] (.string s)
  | number (x : F64) : ValueDerives [.number x] (.number x)
  | true : ValueDerives [.true] (.bool true)
  | false : ValueDerives [.false] (.bool false)
  | null : ValueDerives [.null] .null
  | empty : ValueDerives [.lBracket, .rBracket] (.array [])
  | array (w : List Tok) (v : Literal) (parts : List (List Tok × Literal)) :
    ValueDerives w v → (∀ part ∈ parts, ValueDerives part.1 part.2) →
    ValueDerives (.lBracket :: (w ++ separated .comma parts ++ [.rBracket]))
      (.array (v :: parts.map (·.2)))

/-- `op = "=" | "!=" | "<" | "<=" | ">" | ">=" | "like" | "in"` -/
inductive OpDerives : Tok → ComparisonOp → Prop where
  | eq : OpDerives .eq .eq
  | ne : OpDerives .ne .ne
  | lt : OpDerives .lt .lt
  | le : OpDerives .le .le
  | gt : OpDerives .gt .gt
  | ge : OpDerives .ge .ge
  | like : OpDerives .like .like
  | inSet : OpDerives .in .inSet

/-- The nonterminals of a predicate, from the one that binds least. -/
inductive Level where
  | or
  | and
  | not
  | primary
  deriving Repr, DecidableEq

/-- What a word derives as a predicate:

* `or = and ("or" and)*` and `and = not ("and" not)*`, nested to the left,
* `not = "not" not | "exists" path | primary`,
* `primary = "(" or ")" | path "contains" scalar | path op value`. -/
inductive Derives : Level → List Tok → Predicate → Prop where
  | or (w : List Tok) (p : Predicate) (parts : List (List Tok × Predicate)) :
    Derives .and w p → (∀ part ∈ parts, Derives .and part.1 part.2) →
    Derives .or (w ++ separated .or parts) (parts.foldl (fun lhs part => .or [lhs, part.2]) p)
  | and (w : List Tok) (p : Predicate) (parts : List (List Tok × Predicate)) :
    Derives .not w p → (∀ part ∈ parts, Derives .not part.1 part.2) →
    Derives .and (w ++ separated .and parts) (parts.foldl (fun lhs part => .and [lhs, part.2]) p)
  | not (w : List Tok) (p : Predicate) : Derives .not w p → Derives .not (.not :: w) (.not p)
  | exists (w : List Tok) (path : FieldPath) :
    PathDerives w path → Derives .not (.exists :: w) (.exists path)
  | primary (w : List Tok) (p : Predicate) : Derives .primary w p → Derives .not w p
  | paren (w : List Tok) (p : Predicate) :
    Derives .or w p → Derives .primary (.lParen :: (w ++ [.rParen])) p
  | contains (w : List Tok) (path : FieldPath) (v : List Tok) (value : Literal) :
    PathDerives w path → ValueDerives v value → value.isArray = false →
    Derives .primary (w ++ .contains :: v) (.contains path value)
  | compare (w : List Tok) (path : FieldPath) (tok : Tok) (op : ComparisonOp) (v : List Tok)
      (value : Literal) :
    PathDerives w path → OpDerives tok op → ValueDerives v value →
    Derives .primary (w ++ tok :: v) (.compare path op value)

/-- `"*" | path ("," path)*` -/
inductive ProjectionDerives : List Tok → Projection → Prop where
  | all : ProjectionDerives [.star] .all
  | fields (w : List Tok) (path : FieldPath) (parts : List (List Tok × FieldPath)) :
    PathDerives w path → (∀ part ∈ parts, PathDerives part.1 part.2) →
    ProjectionDerives (w ++ separated .comma parts) (.fields (path :: parts.map (·.2)))

/-- `["select" projection]`, everything when it is left out. -/
inductive SelectDerives : List Tok → Projection → Prop where
  | absent : SelectDerives [] .all
  | select (w : List Tok) (projection : Projection) :
    ProjectionDerives w projection → SelectDerives (.select :: w) projection

/-- `["where" or]`, the predicate that is true when it is left out. -/
inductive WhereDerives : List Tok → Predicate → Prop where
  | absent : WhereDerives [] .true
  | where (w : List Tok) (p : Predicate) : Derives .or w p → WhereDerives (.where :: w) p

/-- `query = ["select" projection] ["where" or]` -/
inductive QueryDerives : List Tok → Query → Prop where
  | mk (v : List Tok) (projection : Projection) (w : List Tok) (predicate : Predicate) :
    SelectDerives v projection → WhereDerives w predicate →
    QueryDerives (v ++ w) { projection, predicate }

/-- A predicate on its own is a query. -/
theorem QueryDerives.of_not {w : List Tok} {p : Predicate} (h : Derives .not w p) :
    QueryDerives (.where :: w) { predicate := p } := by
  have hand := Derives.and w p [] h (by simp)
  have hor := Derives.or _ _ [] hand (by simp)
  have hquery := QueryDerives.mk [] .all _ _ SelectDerives.absent (WhereDerives.where _ _ hor)
  simpa using hquery

/-- A comparison on its own is a query. -/
theorem QueryDerives.of_compare {u : List Tok} {path : FieldPath} {tok : Tok} {op : ComparisonOp}
    {w : List Tok} {value : Literal} (hpath : PathDerives u path) (hop : OpDerives tok op)
    (hvalue : ValueDerives w value) :
    QueryDerives (.where :: (u ++ tok :: w)) { predicate := .compare path op value } :=
  .of_not (Derives.primary _ _ (Derives.compare u path tok op w value hpath hop hvalue))

end Caql

end Boardwalk
