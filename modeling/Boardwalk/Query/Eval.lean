import Boardwalk.Query.Ast

/-!
# The query evaluator

`matches` of `query/eval.rs`: a predicate against a JSON value, whose root is where every dotted
path starts.  The result type has errors, which no branch returns.  And `project`, which copies the
values at some paths into a new object.
-/

namespace Boardwalk

/-- `lookup`, and `FieldPath::extract`: the value at a path of object keys. -/
def lookupPath : List String → Json → Option Json
  | [], t => some t
  | seg :: segs, t => (t.get seg).bind (lookupPath segs)

def lookup (p : FieldPath) (t : Json) : Option Json := lookupPath p.segments t

/-- `json_eq`. -/
def jsonEq : Json → Literal → Bool
  | .string a, .string b => a == b
  | .number a, .number b => a.asF64.any fun x => x.eq b
  | .bool a, .bool b => a == b
  | .null, .null => true
  | _, _ => false

/-- `glob_match`'s `helper`: `*` matches any run, `?` one character. -/
def globHelper : List Char → List Char → Bool
  | [], [] => true
  | [], _ :: _ => false
  | '*' :: p, [] => globHelper p []
  | '*' :: p, c :: s => globHelper p (c :: s) || globHelper ('*' :: p) s
  | _ :: _, [] => false
  | pc :: p, sc :: s => (pc == '?' || pc == sc) && globHelper p s
termination_by p s => p.length + s.length

/-- `glob_match`. -/
def globMatch (pat s : String) : Bool := globHelper pat.toList s.toList

/-- An ordered comparison, with the orders of numbers and of strings; the order of the bytes of two
strings is the order of their characters. -/
def compareOrder (number : F64 → F64 → Bool) (string : String → String → Bool) (got : Option Json)
    (rhs : Literal) : Bool :=
  match got, rhs with
  | some (.number n), .number r => n.asF64.any fun l => number l r
  | some (.string s), .string r => string s r
  | _, _ => false

/-- `compare`. -/
def compareWith (op : ComparisonOp) (got : Option Json) (rhs : Literal) : Bool :=
  match op with
  | .eq =>
    match got with
    | some v => jsonEq v rhs
    | none => match rhs with
      -- a missing path counts as `null`
      | .null => true
      | _ => false
  | .ne =>
    match got with
    | some v => !jsonEq v rhs
    | none => match rhs with
      | .null => false
      | _ => true
  | .lt => compareOrder F64.lt (fun s r => decide (s < r)) got rhs
  | .le => compareOrder F64.le (fun s r => decide (s ≤ r)) got rhs
  | .gt => compareOrder (fun l r => r.lt l) (fun s r => decide (r < s)) got rhs
  | .ge => compareOrder (fun l r => r.le l) (fun s r => decide (r ≤ s)) got rhs
  | .like =>
    match got, rhs with
    | some (.string s), .string pat => globMatch pat s
    | _, _ => false
  | .inSet =>
    match rhs, got with
    | .array items, some g => items.any fun i => jsonEq g i
    | _, _ => false

mutual

/-- `eval_pred`. -/
def evalPred (t : Json) : Predicate → Except QueryError Bool
  | .true => .ok true
  | .false => .ok false
  | .and items => evalAnd t items
  | .or items => evalOr t items
  | .not inner => do return !(← evalPred t inner)
  | .compare left op right => .ok (compareWith op (lookup left t) right)
  | .contains path value =>
    match lookup path t with
    | some (.array items) => .ok (items.any fun i => jsonEq i value)
    | _ => .ok false
  | .exists path => .ok (lookup path t).isSome

/-- The loop of `And`: the first false item ends it. -/
def evalAnd (t : Json) : List Predicate → Except QueryError Bool
  | [] => .ok true
  | i :: items => do
    if !(← evalPred t i) then return false
    evalAnd t items

/-- The loop of `Or`: the first true item ends it. -/
def evalOr (t : Json) : List Predicate → Except QueryError Bool
  | [] => .ok false
  | i :: items => do
    if ← evalPred t i then return true
    evalOr t items

end

/-- `query::matches`. -/
def Query.matches (q : Query) (target : Json) : Except QueryError Bool :=
  evalPred target q.predicate

/-! ### Projections -/

/-- `Map::insert`: the value of a key is replaced, a new key is added. -/
def insertKey (out : List (String × Json)) (key : String) (value : Json) : List (String × Json) :=
  match out with
  | [] => [(key, value)]
  | m :: out => if m.1 == key then (m.1, value) :: out else m :: insertKey out key value

/-- `insert_path`: the objects on the way to the value are made where nothing is there, and nothing
is inserted below another value. -/
def insertPath (out : List (String × Json)) : List String → Json → List (String × Json)
  | [], _ => out
  | [seg], value => insertKey out seg value
  | seg :: segs, value =>
    match (Json.lookupKey out seg).getD (.object []) with
    | .object m => insertKey out seg (.object (insertPath m segs value))
    | _ => out

/-- The loop of `project` over the paths. -/
def projectFields (target : Json) (out : List (String × Json)) :
    List FieldPath → List (String × Json)
  | [] => out
  | p :: paths =>
    match lookup p target with
    | some v => projectFields target (insertPath out p.segments v) paths
    | none => projectFields target out paths

/-- `query::project`. -/
def Query.project (q : Query) (target : Json) : Json :=
  match q.projection with
  | .all => target
  | .fields paths => .object (projectFields target [] paths)

end Boardwalk
