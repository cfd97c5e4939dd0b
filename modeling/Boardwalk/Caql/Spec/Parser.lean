import Boardwalk.Caql.Spec.Grammar
import Boardwalk.Lib.Descent

/-!
# The functions of the CaQL parser

The functions are taken without the lengths that their results carry (`plain`), and each then is
what a rule for predictive parsers is about: a sequence, a loop with separators, or a token that is
taken or rejected.
-/

namespace Boardwalk

namespace Caql

open Descent

/-- A result without the lengths. -/
def plain {α : Type} {n : ℕ} (result : Except QueryError (Parsed α n)) :
    Except QueryError (α × List Spanned) :=
  result.map fun p => (p.value, p.rest)

/-- An error stands at the next token. -/
def Reported (e : QueryError) (r : List Spanned) : Prop := ∃ message, e = errAt r message

theorem reported_errAt (r : List Spanned) (message : String) : Reported (errAt r message) r :=
  ⟨message, rfl⟩

/-- The tokens without their offsets. -/
def toks (ts : List Spanned) : List Tok := ts.map (·.tok)

@[simp]
theorem toks_cons (t : Spanned) (ts : List Spanned) : toks (t :: ts) = t.tok :: toks ts := rfl

@[simp]
theorem toks_append (ts us : List Spanned) : toks (ts ++ us) = toks ts ++ toks us :=
  List.map_append

/-- Giving a result other lengths, or another value, does not change what is left. -/
theorem plain_map {α β : Type} {m n : ℕ} {result : Except QueryError (Parsed α m)}
    {k : Parsed α m → Parsed β n} {g : α → β}
    (hk : ∀ p, (k p).value = g p.value ∧ (k p).rest = p.rest) :
    plain (result.map k) = (plain result).map fun p => (g p.1, p.2) := by
  cases result with
  | error e => rfl
  | ok p =>
    show Except.ok ((k p).value, (k p).rest) = _
    rw [(hk p).1, (hk p).2]
    rfl

theorem plain_weaken {α : Type} {m n : ℕ} {result : Except QueryError (Parsed α m)}
    {k : Parsed α m → Parsed α n} (hk : ∀ p, (k p).value = p.value ∧ (k p).rest = p.rest) :
    plain (result.map k) = plain result := by
  rw [plain_map (g := id) hk]
  cases plain result <;> rfl

/-- A function that goes on with the result of another one. -/
theorem plain_bind {α β : Type} {m n : ℕ} {f : Parser Spanned QueryError α}
    {g : α → Parser Spanned QueryError β} {ts : List Spanned}
    {x : Except QueryError (Parsed α m)} {y : Except QueryError (Parsed β n)} (hf : f ts = plain x)
    (herror : ∀ e, x = .error e → y = .error e)
    (hok : ∀ p, x = .ok p → plain y = g p.value p.rest) : plain y = seq f g ts := by
  cases x with
  | error e =>
    rw [seq_of_error hf, herror e rfl]
    rfl
  | ok p =>
    rw [seq_of_ok hf]
    exact hok p rfl

/-! ### The functions as parsers -/

def pathTailParser (segs : List String) : Parser Spanned QueryError FieldPath :=
  fun ts => plain (parsePathTail segs ts)

def pathParser : Parser Spanned QueryError FieldPath := fun ts => plain (parsePath ts)

def projectionTailParser (paths : List FieldPath) : Parser Spanned QueryError Projection :=
  fun ts => plain (parseProjectionTail paths ts)

def projectionParser : Parser Spanned QueryError Projection := fun ts => plain (parseProjection ts)

def valueParser : Parser Spanned QueryError Literal := fun ts => plain (parseValue ts)

def itemsParser (items : List Literal) : Parser Spanned QueryError Literal :=
  fun ts => plain (parseItems items ts)

def comparisonParser (left : FieldPath) : Parser Spanned QueryError Predicate :=
  fun ts => plain (parseComparison left ts)

def orParser : Parser Spanned QueryError Predicate := fun ts => plain (parseOr ts)

def orTailParser (lhs : Predicate) : Parser Spanned QueryError Predicate :=
  fun ts => plain (parseOrTail lhs ts)

def andParser : Parser Spanned QueryError Predicate := fun ts => plain (parseAnd ts)

def andTailParser (lhs : Predicate) : Parser Spanned QueryError Predicate :=
  fun ts => plain (parseAndTail lhs ts)

def notParser : Parser Spanned QueryError Predicate := fun ts => plain (parseNot ts)

def cmpParser : Parser Spanned QueryError Predicate := fun ts => plain (parseCmp ts)

/-- An identifier after a dot. -/
def identParser : Parser Spanned QueryError String
  | ⟨.ident id, _⟩ :: rest => .ok (id, rest)
  | _ :: rest => .error (errAt rest "expected identifier after `.`")
  | [] => .error (errAt [] "expected identifier after `.`")

/-- A closing parenthesis after `p`. -/
def closeParser (p : Predicate) : Parser Spanned QueryError Predicate
  | ⟨.rParen, _⟩ :: rest => .ok (p, rest)
  | _ :: rest => .error (errAt rest "expected `)`")
  | [] => .error (errAt [] "expected `)`")

/-- What `contains` makes of the value after it. -/
def containsParser (left : FieldPath) : Literal → Parser Spanned QueryError Predicate
  | .array _ => fun r => .error (errAt r "`contains` rhs must be a single literal, not an array")
  | right => fun r => .ok (.contains left right, r)

/-- `select` and a projection, or nothing. -/
def selectParser : Parser Spanned QueryError Projection
  | ⟨.select, _⟩ :: rest => projectionParser rest
  | ts => .ok (.all, ts)

/-- `where` and a predicate, or nothing. -/
def whereParser : Parser Spanned QueryError Predicate
  | ⟨.where, _⟩ :: rest => orParser rest
  | ts => .ok (.true, ts)

/-- A query, whatever follows it. -/
def queryParser : Parser Spanned QueryError Query :=
  seq selectParser fun projection =>
    seq whereParser fun predicate r => .ok ({ projection, predicate }, r)

/-! ### What the functions do on their first token -/

theorem pathTailParser_dot (segs : List String) (o : ℕ) (rest : List Spanned) :
    pathTailParser segs (⟨.dot, o⟩ :: rest) =
      seq identParser (fun id => pathTailParser (segs ++ [id])) rest := by
  unfold pathTailParser seq
  cases rest with
  | nil => rfl
  | cons t rest =>
    obtain ⟨tok, o'⟩ := t
    cases tok
    case ident id => exact plain_weaken fun p => ⟨rfl, rfl⟩
    all_goals rfl

theorem pathTailParser_other (segs : List String) {ts : List Spanned}
    (hts : ∀ t, ts.head? = some t → t.tok ≠ .dot) :
    pathTailParser segs ts = .ok (⟨segs⟩, ts) := by
  have hpath : pathTailParser segs ts = plain (parsePathTail segs ts) := rfl
  rw [hpath]
  cases ts with
  | nil => rfl
  | cons t rest =>
    obtain ⟨tok, o⟩ := t
    cases tok
    case dot => exact absurd rfl (hts _ rfl)
    all_goals rfl

theorem pathParser_ident (id : String) (o : ℕ) (rest : List Spanned) :
    pathParser (⟨.ident id, o⟩ :: rest) = pathTailParser [id] rest := rfl

theorem pathParser_other {t : Spanned} (ht : ∀ id, t.tok ≠ .ident id) (rest : List Spanned) :
    pathParser (t :: rest) = .error (errAt rest "expected identifier") := by
  obtain ⟨tok, o⟩ := t
  cases tok
  case ident id => exact absurd rfl (ht id)
  all_goals rfl

theorem projectionTailParser_comma (paths : List FieldPath) (o : ℕ) (rest : List Spanned) :
    projectionTailParser paths (⟨.comma, o⟩ :: rest) =
      seq pathParser (fun path => projectionTailParser (paths ++ [path])) rest := by
  unfold projectionTailParser
  rw [parseProjectionTail]
  apply plain_bind (f := pathParser) rfl
  · intro e h
    rw [h]
  · intro p h
    rw [h]
    exact plain_weaken fun p => ⟨rfl, rfl⟩

theorem projectionTailParser_other (paths : List FieldPath) {ts : List Spanned}
    (hts : ∀ t, ts.head? = some t → t.tok ≠ .comma) :
    projectionTailParser paths ts = .ok (.fields paths, ts) := by
  have hprojection : projectionTailParser paths ts = plain (parseProjectionTail paths ts) := rfl
  rw [hprojection, parseProjectionTail]
  · rfl
  · rintro o rest rfl
    exact hts _ rfl rfl

theorem projectionParser_star (o : ℕ) (rest : List Spanned) :
    projectionParser (⟨.star, o⟩ :: rest) = .ok (.all, rest) := rfl

theorem projectionParser_other {t : Spanned} (ht : t.tok ≠ .star) (rest : List Spanned) :
    projectionParser (t :: rest) =
      seq pathParser (fun path => projectionTailParser [path]) (t :: rest) := by
  have hprojection : projectionParser (t :: rest) = plain (parseProjection (t :: rest)) := rfl
  rw [hprojection, parseProjection]
  · apply plain_bind (f := pathParser) rfl
    · intro e h
      rw [h]
    · intro p h
      rw [h]
      exact plain_weaken fun p => ⟨rfl, rfl⟩
  · rintro o rest' ⟨⟩
    exact ht rfl

/-- The literal of a token that is a value by itself. -/
def scalarToken : Tok → Option Literal
  | .string s => some (.string s)
  | .number x => some (.number x)
  | .true => some (.bool true)
  | .false => some (.bool false)
  | .null => some .null
  | _ => none

theorem valueParser_scalar {t : Spanned} {v : Literal} (ht : scalarToken t.tok = some v)
    (rest : List Spanned) : valueParser (t :: rest) = .ok (v, rest) := by
  obtain ⟨tok, o⟩ := t
  unfold valueParser
  cases tok
  case string | number | true | false | null =>
    cases ht
    rw [parseValue]
    rfl
  all_goals cases ht

theorem valueParser_other {t : Spanned} (ht : scalarToken t.tok = none) (hb : t.tok ≠ .lBracket)
    (rest : List Spanned) :
    valueParser (t :: rest) = .error (errAt rest "expected literal value") := by
  obtain ⟨tok, o⟩ := t
  unfold valueParser
  cases tok
  case string | number | true | false | null => cases ht
  case lBracket => exact absurd rfl hb
  all_goals
    rw [parseValue]
    · rfl
    all_goals simp

theorem valueParser_nil : valueParser [] = .error (errAt [] "expected literal value") := by
  unfold valueParser
  rw [parseValue_nil]
  rfl

theorem valueParser_empty (o o' : ℕ) (rest : List Spanned) :
    valueParser (⟨.lBracket, o⟩ :: ⟨.rBracket, o'⟩ :: rest) = .ok (.array [], rest) := by
  unfold valueParser
  rw [parseValue]
  rfl

theorem valueParser_bracket (o : ℕ) {rest : List Spanned}
    (hrest : ∀ t, rest.head? = some t → t.tok ≠ .rBracket) :
    valueParser (⟨.lBracket, o⟩ :: rest) =
      seq valueParser (fun v => itemsParser [v]) rest := by
  have hvalue : valueParser (⟨.lBracket, o⟩ :: rest) = plain (parseValue (⟨.lBracket, o⟩ :: rest)) :=
    rfl
  rw [hvalue, parseValue]
  · apply plain_bind (f := valueParser) rfl
    · intro e h
      rw [h]
    · intro p h
      rw [h]
      exact plain_weaken fun p => ⟨rfl, rfl⟩
  · rintro o' rest' rfl
    exact hrest _ rfl rfl

theorem itemsParser_comma (items : List Literal) (o : ℕ) (rest : List Spanned) :
    itemsParser items (⟨.comma, o⟩ :: rest) =
      seq valueParser (fun v => itemsParser (items ++ [v])) rest := by
  have hitems : itemsParser items (⟨.comma, o⟩ :: rest) =
      plain (parseItems items (⟨.comma, o⟩ :: rest)) := rfl
  rw [hitems, parseItems]
  apply plain_bind (f := valueParser) rfl
  · intro e h
    rw [h]
  · intro p h
    rw [h]
    exact plain_weaken fun p => ⟨rfl, rfl⟩

theorem itemsParser_close (items : List Literal) (o : ℕ) (rest : List Spanned) :
    itemsParser items (⟨.rBracket, o⟩ :: rest) = .ok (.array items, rest) := by
  unfold itemsParser
  rw [parseItems]
  rfl

theorem itemsParser_other (items : List Literal) {t : Spanned} (hc : t.tok ≠ .comma)
    (hb : t.tok ≠ .rBracket) (rest : List Spanned) :
    itemsParser items (t :: rest) = .error (errAt rest "expected `]`") := by
  obtain ⟨tok, o⟩ := t
  unfold itemsParser
  cases tok
  case comma => exact absurd rfl hc
  case rBracket => exact absurd rfl hb
  all_goals
    rw [parseItems]
    · rfl
    all_goals simp

theorem itemsParser_nil (items : List Literal) :
    itemsParser items [] = .error (errAt [] "expected `]`") := by
  unfold itemsParser
  rw [parseItems_nil]
  rfl

theorem comparisonParser_contains (left : FieldPath) (o : ℕ) (rest : List Spanned) :
    comparisonParser left (⟨.contains, o⟩ :: rest) =
      seq valueParser (containsParser left) rest := by
  have hcomparison : comparisonParser left (⟨.contains, o⟩ :: rest) =
      plain (parseComparison left (⟨.contains, o⟩ :: rest)) := rfl
  rw [hcomparison, parseComparison]
  apply plain_bind (f := valueParser) rfl
  · intro e h
    rw [h]
  · intro p h
    rw [h]
    obtain ⟨v, r, hr⟩ := p
    cases v <;> rfl

theorem comparisonParser_op (left : FieldPath) {t : Spanned} {op : ComparisonOp}
    (ht : comparisonOp t.tok = some op) (rest : List Spanned) :
    comparisonParser left (t :: rest) =
      seq valueParser (fun v r => .ok (.compare left op v, r)) rest := by
  obtain ⟨tok, o⟩ := t
  have hcomparison : comparisonParser left (⟨tok, o⟩ :: rest) =
      plain (parseComparison left (⟨tok, o⟩ :: rest)) := rfl
  have hop : comparisonOp tok = some op := ht
  rw [hcomparison, parseComparison, hop]
  · apply plain_bind (f := valueParser) rfl
    · intro e h
      rw [h]
    · intro p h
      rw [h]
      rfl
  · rintro rfl
    cases ht

theorem comparisonParser_other (left : FieldPath) {t : Spanned} (hc : t.tok ≠ .contains)
    (ht : comparisonOp t.tok = none) (rest : List Spanned) :
    comparisonParser left (t :: rest) = .error (errAt rest "expected comparison operator") := by
  obtain ⟨tok, o⟩ := t
  have hcomparison : comparisonParser left (⟨tok, o⟩ :: rest) =
      plain (parseComparison left (⟨tok, o⟩ :: rest)) := rfl
  have hop : comparisonOp tok = none := ht
  rw [hcomparison, parseComparison, hop]
  · rfl
  · rintro rfl
    exact hc rfl

theorem plain_closeParen {n : ℕ} (p : Parsed Predicate n) :
    plain (closeParen p) = closeParser p.value p.rest := by
  obtain ⟨v, r, hr⟩ := p
  cases r with
  | nil => rfl
  | cons t r =>
    obtain ⟨tok, o⟩ := t
    cases tok <;> rfl

theorem orParser_eq (ts : List Spanned) : orParser ts = seq andParser orTailParser ts := by
  have hor : orParser ts = plain (parseOr ts) := rfl
  rw [hor, parseOr]
  apply plain_bind (f := andParser) rfl
  · intro e h
    rw [h]
  · intro p h
    rw [h]
    exact plain_weaken fun p => ⟨rfl, rfl⟩

theorem orTailParser_or (lhs : Predicate) (o : ℕ) (rest : List Spanned) :
    orTailParser lhs (⟨.or, o⟩ :: rest) =
      seq andParser (fun rhs => orTailParser (.or [lhs, rhs])) rest := by
  have hor : orTailParser lhs (⟨.or, o⟩ :: rest) =
      plain (parseOrTail lhs (⟨.or, o⟩ :: rest)) := rfl
  rw [hor, parseOrTail]
  apply plain_bind (f := andParser) rfl
  · intro e h
    rw [h]
  · intro p h
    rw [h]
    exact plain_weaken fun p => ⟨rfl, rfl⟩

theorem orTailParser_other (lhs : Predicate) {ts : List Spanned}
    (hts : ∀ t, ts.head? = some t → t.tok ≠ .or) : orTailParser lhs ts = .ok (lhs, ts) := by
  have hor : orTailParser lhs ts = plain (parseOrTail lhs ts) := rfl
  rw [hor, parseOrTail]
  · rfl
  · rintro o rest rfl
    exact hts _ rfl rfl

theorem andParser_eq (ts : List Spanned) : andParser ts = seq notParser andTailParser ts := by
  have hand : andParser ts = plain (parseAnd ts) := rfl
  rw [hand, parseAnd]
  apply plain_bind (f := notParser) rfl
  · intro e h
    rw [h]
  · intro p h
    rw [h]
    exact plain_weaken fun p => ⟨rfl, rfl⟩

theorem andTailParser_and (lhs : Predicate) (o : ℕ) (rest : List Spanned) :
    andTailParser lhs (⟨.and, o⟩ :: rest) =
      seq notParser (fun rhs => andTailParser (.and [lhs, rhs])) rest := by
  have hand : andTailParser lhs (⟨.and, o⟩ :: rest) =
      plain (parseAndTail lhs (⟨.and, o⟩ :: rest)) := rfl
  rw [hand, parseAndTail]
  apply plain_bind (f := notParser) rfl
  · intro e h
    rw [h]
  · intro p h
    rw [h]
    exact plain_weaken fun p => ⟨rfl, rfl⟩

theorem andTailParser_other (lhs : Predicate) {ts : List Spanned}
    (hts : ∀ t, ts.head? = some t → t.tok ≠ .and) : andTailParser lhs ts = .ok (lhs, ts) := by
  have hand : andTailParser lhs ts = plain (parseAndTail lhs ts) := rfl
  rw [hand, parseAndTail]
  · rfl
  · rintro o rest rfl
    exact hts _ rfl rfl

theorem plain_map_value {m n : ℕ} {α : Type} {f : Parser Spanned QueryError α}
    {ts : List Spanned} {result : Except QueryError (Parsed α m)} (hf : f ts = plain result)
    {k : Parsed α m → Parsed Predicate n} {g : α → Predicate}
    (hk : ∀ p, (k p).value = g p.value ∧ (k p).rest = p.rest) :
    plain (result.map k) = seq f (fun a r => .ok (g a, r)) ts := by
  rw [plain_map hk]
  cases result with
  | error e => rw [seq_of_error hf]; rfl
  | ok p => rw [seq_of_ok hf]; rfl

theorem notParser_not (o : ℕ) (rest : List Spanned) :
    notParser (⟨.not, o⟩ :: rest) = seq notParser (fun p r => .ok (.not p, r)) rest := by
  have hnot : notParser (⟨.not, o⟩ :: rest) = plain (parseNot (⟨.not, o⟩ :: rest)) := rfl
  rw [hnot, parseNot]
  exact plain_map_value (g := Predicate.not) rfl fun p => ⟨rfl, rfl⟩

theorem notParser_exists (o : ℕ) (rest : List Spanned) :
    notParser (⟨.exists, o⟩ :: rest) = seq pathParser (fun p r => .ok (.exists p, r)) rest := by
  have hnot : notParser (⟨.exists, o⟩ :: rest) = plain (parseNot (⟨.exists, o⟩ :: rest)) := rfl
  rw [hnot, parseNot]
  exact plain_map_value (g := Predicate.exists) rfl fun p => ⟨rfl, rfl⟩

theorem notParser_other {ts : List Spanned}
    (hts : ∀ t, ts.head? = some t → t.tok ≠ .not ∧ t.tok ≠ .exists) :
    notParser ts = cmpParser ts := by
  have hnot : notParser ts = plain (parseNot ts) := rfl
  rw [hnot, parseNot]
  · rfl
  · rintro o rest rfl
    exact (hts _ rfl).1 rfl
  · rintro o rest rfl
    exact (hts _ rfl).2 rfl

theorem cmpParser_lParen (o : ℕ) (rest : List Spanned) :
    cmpParser (⟨.lParen, o⟩ :: rest) = seq orParser closeParser rest := by
  have hcmp : cmpParser (⟨.lParen, o⟩ :: rest) = plain (parseCmp (⟨.lParen, o⟩ :: rest)) := rfl
  rw [hcmp, parseCmp]
  apply plain_bind (f := orParser) rfl
  · intro e h
    rw [h]
  · intro p h
    rw [h]
    exact plain_closeParen _

theorem cmpParser_other {ts : List Spanned} (hts : ∀ t, ts.head? = some t → t.tok ≠ .lParen) :
    cmpParser ts = seq pathParser comparisonParser ts := by
  have hcmp : cmpParser ts = plain (parseCmp ts) := rfl
  rw [hcmp, parseCmp]
  · apply plain_bind (f := pathParser) rfl
    · intro e h
      rw [h]
    · intro p h
      rw [h]
      exact plain_weaken fun p => ⟨rfl, rfl⟩
  · rintro o rest rfl
    exact hts _ rfl rfl

/-! ### Queries -/

theorem selectParser_other {ts : List Spanned} (hts : ∀ t, ts.head? = some t → t.tok ≠ .select) :
    selectParser ts = .ok (.all, ts) := by
  rw [selectParser]
  rintro o rest rfl
  exact hts _ rfl rfl

theorem whereParser_other {ts : List Spanned} (hts : ∀ t, ts.head? = some t → t.tok ≠ .where) :
    whereParser ts = .ok (.true, ts) := by
  rw [whereParser]
  rintro o rest rfl
  exact hts _ rfl rfl

theorem parseWhere_eq (projection : Projection) (ts : List Spanned) :
    parseWhere projection ts =
      (whereParser ts).bind fun p => parseEnd projection p.1 p.2 := by
  by_cases hts : ∀ t, ts.head? = some t → t.tok ≠ .where
  · rw [whereParser_other hts, parseWhere]
    · rfl
    · rintro o rest rfl
      exact hts _ rfl rfl
  · push Not at hts
    obtain ⟨⟨tok, o⟩, ht, rfl⟩ := hts
    obtain ⟨rest, rfl⟩ : ∃ rest, ts = ⟨.where, o⟩ :: rest := List.head?_eq_some_iff.mp ht
    have hwhere : whereParser (⟨.where, o⟩ :: rest) = plain (parseOr rest) := rfl
    rw [hwhere, parseWhere]
    cases parseOr rest <;> rfl

/-- The query that was read, when nothing is left. -/
def finish (p : Query × List Spanned) : Except QueryError Query :=
  parseEnd p.1.projection p.1.predicate p.2

/-- A query is what `queryParser` reads, and nothing after it. -/
theorem parseQuery_eq (ts : List Spanned) : parseQuery ts = (queryParser ts).bind finish := by
  have hwhere : ∀ projection r, parseWhere projection r =
      (seq whereParser (fun predicate r => .ok ({ projection, predicate }, r)) r).bind finish := by
    intro projection r
    rw [parseWhere_eq]
    cases h : whereParser r with
    | error e => rw [seq_of_error h]; rfl
    | ok p => rw [seq_of_ok h]; rfl
  unfold queryParser
  -- a query begins with `select` or goes without a projection
  by_cases hts : ∀ t, ts.head? = some t → t.tok ≠ .select
  · rw [seq_of_ok (selectParser_other hts), ← hwhere, parseQuery]
    rintro o rest rfl
    exact hts _ rfl rfl
  · push Not at hts
    obtain ⟨⟨tok, o⟩, ht, rfl⟩ := hts
    obtain ⟨rest, rfl⟩ : ∃ rest, ts = ⟨.select, o⟩ :: rest := List.head?_eq_some_iff.mp ht
    have hselect : selectParser (⟨.select, o⟩ :: rest) = plain (parseProjection rest) := rfl
    rw [parseQuery]
    cases h : parseProjection rest with
    | error e =>
      rw [h] at hselect
      rw [seq_of_error hselect]
      rfl
    | ok p =>
      rw [h] at hselect
      rw [seq_of_ok hselect, ← hwhere]
      rfl

theorem parseQuery_eq_ok_iff {ts : List Spanned} {q : Query} :
    parseQuery ts = .ok q ↔ queryParser ts = .ok (q, []) := by
  rw [parseQuery_eq]
  constructor
  · intro h
    cases hq : queryParser ts with
    | error e =>
      rw [hq] at h
      cases h
    | ok p =>
      obtain ⟨⟨projection, predicate⟩, r⟩ := p
      rw [hq] at h
      cases r with
      | nil =>
        cases h
        rfl
      | cons t r => cases h
  · intro h
    rw [h]
    rfl

/-- A query is rejected where `queryParser` rejects it, or at what that leaves. -/
theorem parseQuery_eq_error {ts : List Spanned} {e : QueryError} (h : parseQuery ts = .error e) :
    queryParser ts = .error e ∨ ∃ q t r, queryParser ts = .ok (q, t :: r) ∧
      e = errAt (t :: r) "unexpected trailing tokens" := by
  rw [parseQuery_eq] at h
  cases hq : queryParser ts with
  | error e' =>
    rw [hq] at h
    left
    exact congrArg _ (Except.error.inj h)
  | ok p =>
    obtain ⟨q, r⟩ := p
    rw [hq] at h
    cases r with
    | nil => cases h
    | cons t r =>
      right
      exact ⟨q, t, r, rfl, (Except.error.inj h).symm⟩

end Caql

end Boardwalk
