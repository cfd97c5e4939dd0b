import Boardwalk.Caql.Lex

/-!
# The CaQL parser

`caql/parse.rs`, by recursive descent.  The state of the parser is the list of the tokens that are
left, and a parse that succeeds leaves fewer, which its result carries along (`Parsed`).  An error
is reported at the token that stands next, or at `0` when there is none; most functions take the
token that they do not accept before they report it.
-/

namespace Boardwalk

namespace Caql

/-- A result with the tokens that are left, fewer than `n`. -/
structure Parsed (α : Type) (n : ℕ) where
  value : α
  rest : List Spanned
  shorter : rest.length < n

/-- `Parser::err`: an error at the next token. -/
def errAt (toks : List Spanned) (message : String) : QueryError :=
  .parse ((toks.head?.map (·.offset)).getD 0) message

/-- The same result, for a longer list of tokens. -/
def Parsed.weaken {α : Type} {m n : ℕ} (p : Parsed α m) (h : m ≤ n) : Parsed α n :=
  ⟨p.value, p.rest, Nat.lt_of_lt_of_le p.shorter h⟩

/-! ### Paths and values -/

/-- The segments of a path after the first one. -/
def parsePathTail (segs : List String) : (toks : List Spanned) →
    Except QueryError (Parsed FieldPath (toks.length + 1))
  | ⟨.dot, _⟩ :: ⟨.ident id, _⟩ :: rest =>
    (parsePathTail (segs ++ [id]) rest).map (·.weaken (by simp))
  | ⟨.dot, _⟩ :: _ :: rest => .error (errAt rest "expected identifier after `.`")
  | [⟨.dot, _⟩] => .error (errAt [] "expected identifier after `.`")
  | toks => .ok ⟨⟨segs⟩, toks, Nat.lt_succ_self _⟩

/-- `parse_path`. -/
def parsePath : (toks : List Spanned) → Except QueryError (Parsed FieldPath toks.length)
  | ⟨.ident id, _⟩ :: rest => parsePathTail [id] rest
  | _ :: rest => .error (errAt rest "expected identifier")
  | [] => .error (errAt [] "expected identifier, got end of input")

/-- The paths of a projection after the first one. -/
def parseProjectionTail (paths : List FieldPath) (toks : List Spanned) :
    Except QueryError (Parsed Projection (toks.length + 1)) :=
  match toks with
  | ⟨.comma, _⟩ :: rest =>
    match parsePath rest with
    | .error e => .error e
    | .ok p =>
      (parseProjectionTail (paths ++ [p.value]) p.rest).map
        (·.weaken (by have := p.shorter; simp only [List.length_cons]; omega))
  | toks => .ok ⟨.fields paths, toks, Nat.lt_succ_self _⟩
termination_by toks.length
decreasing_by
  have := p.shorter
  simp only [List.length_cons]
  omega

/-- `parse_projection`. -/
def parseProjection (toks : List Spanned) : Except QueryError (Parsed Projection toks.length) :=
  match toks with
  | ⟨.star, _⟩ :: rest => .ok ⟨.all, rest, by simp⟩
  | toks =>
    match parsePath toks with
    | .error e => .error e
    | .ok p => (parseProjectionTail [p.value] p.rest).map (·.weaken p.shorter)

mutual

/-- `parse_value`. -/
def parseValue (toks : List Spanned) : Except QueryError (Parsed Literal toks.length) :=
  match toks with
  | ⟨.string v, _⟩ :: rest => .ok ⟨.string v, rest, by simp⟩
  | ⟨.number n, _⟩ :: rest => .ok ⟨.number n, rest, by simp⟩
  | ⟨.true, _⟩ :: rest => .ok ⟨.bool true, rest, by simp⟩
  | ⟨.false, _⟩ :: rest => .ok ⟨.bool false, rest, by simp⟩
  | ⟨.null, _⟩ :: rest => .ok ⟨.null, rest, by simp⟩
  | ⟨.lBracket, _⟩ :: ⟨.rBracket, _⟩ :: rest =>
    .ok ⟨.array [], rest, by simp only [List.length_cons]; omega⟩
  | ⟨.lBracket, _⟩ :: rest =>
    match parseValue rest with
    | .error e => .error e
    | .ok p => (parseItems [p.value] p.rest).map
        (·.weaken (by have := p.shorter; simp only [List.length_cons]; omega))
  | _ :: rest => .error (errAt rest "expected literal value")
  | [] => .error (errAt [] "expected literal value")
termination_by toks.length
decreasing_by
  · simp
  · have := p.shorter
    simp only [List.length_cons]
    omega

/-- The items of an array after the first one, and its closing bracket. -/
def parseItems (items : List Literal) (toks : List Spanned) :
    Except QueryError (Parsed Literal toks.length) :=
  match toks with
  | ⟨.comma, _⟩ :: rest =>
    match parseValue rest with
    | .error e => .error e
    | .ok p => (parseItems (items ++ [p.value]) p.rest).map
        (·.weaken (by have := p.shorter; simp only [List.length_cons]; omega))
  | ⟨.rBracket, _⟩ :: rest => .ok ⟨.array items, rest, by simp⟩
  | _ :: rest => .error (errAt rest "expected `]`")
  | [] => .error (errAt [] "expected `]`")
termination_by toks.length
decreasing_by
  · simp
  · have := p.shorter
    simp only [List.length_cons]
    omega

end

theorem parseValue_nil : parseValue [] = .error (errAt [] "expected literal value") := by
  rw [parseValue]

theorem parseItems_nil (items : List Literal) :
    parseItems items [] = .error (errAt [] "expected `]`") := by
  rw [parseItems]

/-! ### Predicates -/

/-- The operator of a comparison. -/
def comparisonOp : Tok → Option ComparisonOp
  | .eq => some .eq
  | .ne => some .ne
  | .lt => some .lt
  | .le => some .le
  | .gt => some .gt
  | .ge => some .ge
  | .like => some .like
  | .in => some .inSet
  | _ => none

/-- What follows the path of a comparison: `contains`, or an operator, and a value. -/
def parseComparison (left : FieldPath) (toks : List Spanned) :
    Except QueryError (Parsed Predicate toks.length) :=
  match toks with
  | ⟨.contains, _⟩ :: rest =>
    match parseValue rest with
    | .error e => .error e
    | .ok p =>
      match p.value with
      | .array _ => .error (errAt p.rest "`contains` rhs must be a single literal, not an array")
      | right => .ok ⟨.contains left right, p.rest, Nat.lt_succ_of_lt p.shorter⟩
  | ⟨tok, _⟩ :: rest =>
    match comparisonOp tok with
    | none => .error (errAt rest "expected comparison operator")
    | some op =>
      match parseValue rest with
      | .error e => .error e
      | .ok p => .ok ⟨.compare left op p.value, p.rest, Nat.lt_succ_of_lt p.shorter⟩
  | [] => .error (errAt [] "expected comparison operator")

/-- The closing parenthesis after `p`. -/
def closeParen {n : ℕ} (p : Parsed Predicate n) : Except QueryError (Parsed Predicate n) :=
  match h : p.rest with
  | ⟨.rParen, _⟩ :: rest =>
    .ok ⟨p.value, rest, by have := p.shorter; simp only [h, List.length_cons] at this; omega⟩
  | _ :: rest => .error (errAt rest "expected `)`")
  | [] => .error (errAt [] "expected `)`")

mutual

/-- `parse_or`. -/
def parseOr (toks : List Spanned) : Except QueryError (Parsed Predicate toks.length) :=
  match parseAnd toks with
  | .error e => .error e
  | .ok p => (parseOrTail p.value p.rest).map (·.weaken p.shorter)
termination_by 4 * toks.length + 3
decreasing_by
  · omega
  · have := p.shorter
    omega

/-- The loop of `parse_or`. -/
def parseOrTail (lhs : Predicate) (toks : List Spanned) :
    Except QueryError (Parsed Predicate (toks.length + 1)) :=
  match toks with
  | ⟨.or, _⟩ :: rest =>
    match parseAnd rest with
    | .error e => .error e
    | .ok p => (parseOrTail (.or [lhs, p.value]) p.rest).map
        (·.weaken (by have := p.shorter; simp only [List.length_cons]; omega))
  | toks => .ok ⟨lhs, toks, Nat.lt_succ_self _⟩
termination_by 4 * toks.length
decreasing_by
  · simp only [List.length_cons]
    omega
  · have := p.shorter
    simp only [List.length_cons]
    omega

/-- `parse_and`. -/
def parseAnd (toks : List Spanned) : Except QueryError (Parsed Predicate toks.length) :=
  match parseNot toks with
  | .error e => .error e
  | .ok p => (parseAndTail p.value p.rest).map (·.weaken p.shorter)
termination_by 4 * toks.length + 2
decreasing_by
  · omega
  · have := p.shorter
    omega

/-- The loop of `parse_and`. -/
def parseAndTail (lhs : Predicate) (toks : List Spanned) :
    Except QueryError (Parsed Predicate (toks.length + 1)) :=
  match toks with
  | ⟨.and, _⟩ :: rest =>
    match parseNot rest with
    | .error e => .error e
    | .ok p => (parseAndTail (.and [lhs, p.value]) p.rest).map
        (·.weaken (by have := p.shorter; simp only [List.length_cons]; omega))
  | toks => .ok ⟨lhs, toks, Nat.lt_succ_self _⟩
termination_by 4 * toks.length
decreasing_by
  · simp only [List.length_cons]
    omega
  · have := p.shorter
    simp only [List.length_cons]
    omega

/-- `parse_not`. -/
def parseNot (toks : List Spanned) : Except QueryError (Parsed Predicate toks.length) :=
  match toks with
  | ⟨.not, _⟩ :: rest =>
    (parseNot rest).map fun p => ⟨.not p.value, p.rest, Nat.lt_succ_of_lt p.shorter⟩
  | ⟨.exists, _⟩ :: rest =>
    (parsePath rest).map fun p => ⟨.exists p.value, p.rest, Nat.lt_succ_of_lt p.shorter⟩
  | toks => parseCmp toks
termination_by 4 * toks.length + 1
decreasing_by
  · simp only [List.length_cons]
    omega
  · omega

/-- `parse_cmp`. -/
def parseCmp (toks : List Spanned) : Except QueryError (Parsed Predicate toks.length) :=
  match toks with
  | ⟨.lParen, _⟩ :: rest =>
    match parseOr rest with
    | .error e => .error e
    | .ok p => closeParen (p.weaken (Nat.le_succ _))
  | toks =>
    match parsePath toks with
    | .error e => .error e
    | .ok p => (parseComparison p.value p.rest).map (·.weaken (Nat.le_of_lt p.shorter))
termination_by 4 * toks.length
decreasing_by
  simp only [List.length_cons]
  omega

end

/-! ### Queries -/

/-- The end of a query: no token may be left. -/
def parseEnd (projection : Projection) (predicate : Predicate) :
    List Spanned → Except QueryError Query
  | [] => .ok { projection, predicate }
  | toks => .error (errAt toks "unexpected trailing tokens")

/-- The `where` part of a query. -/
def parseWhere (projection : Projection) : List Spanned → Except QueryError Query
  | ⟨.where, _⟩ :: rest => do
    let p ← parseOr rest
    parseEnd projection p.value p.rest
  | toks => parseEnd projection .true toks

/-- `parse_query`. -/
def parseQuery : List Spanned → Except QueryError Query
  | ⟨.select, _⟩ :: rest => do
    let p ← parseProjection rest
    parseWhere p.value p.rest
  | toks => parseWhere .all toks

/-- `caql::parse`. -/
def parse (input : String) : Except QueryError Query := do parseQuery (← tokenize input)

end Caql

end Boardwalk
