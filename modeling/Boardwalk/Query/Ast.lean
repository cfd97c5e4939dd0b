import Boardwalk.Events.Policy
import Boardwalk.Query.Json

/-!
# The query model

The types of `query/ast.rs`.  CaQL is the only syntax that compiles into them.
-/

namespace Boardwalk

inductive Literal where
  | string (s : String)
  | number (x : F64)
  | bool (b : Bool)
  | null
  | array (items : List Literal)
  deriving Repr

inductive ComparisonOp where
  | eq
  | ne
  | lt
  | le
  | gt
  | ge
  | like
  | inSet
  deriving Repr, DecidableEq

inductive Predicate where
  | true
  | false
  | and (items : List Predicate)
  | or (items : List Predicate)
  | not (inner : Predicate)
  | compare (left : FieldPath) (op : ComparisonOp) (right : Literal)
  | contains (path : FieldPath) (value : Literal)
  | exists (path : FieldPath)
  deriving Repr

inductive Projection where
  | all
  | fields (paths : List FieldPath)
  deriving Repr

structure Query where
  projection : Projection := .all
  predicate : Predicate := .true
  deriving Repr

inductive QueryError where
  | parse (offset : ℕ) (message : String)
  | invalidPath (message : String)
  | unknown (field : String)
  | eval (message : String)
  deriving Repr, DecidableEq

/-- The text of an error. -/
def QueryError.display : QueryError → String
  | parse offset message => "parse error at offset " ++ toString offset ++ ": " ++ message
  | invalidPath message => "invalid path: " ++ message
  | unknown field => "unknown field: " ++ field
  | eval message => "evaluation error: " ++ message

end Boardwalk
