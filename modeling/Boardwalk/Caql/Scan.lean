import Boardwalk.Caql.Lex

/-!
# The CaQL lexer by its index

`tokenize` of `caql/lex.rs` with the index `i` into the bytes of the text that the source keeps, and
with the panics of the operations that it applies to it: an index out of range and a slice off a
character boundary.  The outer loop may or may not finish within a number of rounds.
-/

namespace Boardwalk

namespace Caql

/-- What ends the lexer without tokens. -/
inductive Halt where
  | error (e : QueryError)
  | panic
  deriving Repr, DecidableEq

/-- `src.as_bytes()`. -/
def asBytes (src : String) : List UInt8 := src.toUTF8.data.toList

/-- `bytes[i]`. -/
def byteAt (bytes : List UInt8) (i : ℕ) : Except Halt UInt8 :=
  match bytes[i]? with
  | some b => .ok b
  | none => .error .panic

/-- `&src[i..j]`. -/
def slice (src : String) (i j : ℕ) : Except Halt (List UInt8) :=
  if i ≤ j ∧ String.Pos.Raw.isValid src ⟨i⟩ = true ∧ String.Pos.Raw.isValid src ⟨j⟩ = true then
    .ok (((asBytes src).take j).drop i)
  else .error .panic

/-- The loop `while j < bytes.len() && p(bytes[j]) { j += 1 }`. -/
def skipWhile (bytes : List UInt8) (p : UInt8 → Bool) (j : ℕ) : Except Halt ℕ :=
  if j < bytes.length then do
    let b ← byteAt bytes j
    if p b then skipWhile bytes p (j + 1) else return j
  else return j
termination_by bytes.length - j

/-- `if j < bytes.len() && p(bytes[j]) { j += 1 }`. -/
def skipIf (bytes : List UInt8) (p : UInt8 → Bool) (j : ℕ) : Except Halt ℕ :=
  if j < bytes.length then do
    let b ← byteAt bytes j
    return if p b then j + 1 else j
  else return j

/-- The loop over the body of a string literal, which pushes the literal where it is closed. -/
def scanString (bytes : List UInt8) (start : ℕ) (out : List Spanned) (s : List Char) (i : ℕ) :
    Except Halt (List Spanned × ℕ) :=
  if i < bytes.length then do
    let b ← byteAt bytes i
    if b == 0x5C then
      if bytes.length ≤ i + 1 then .error (.error (.parse start "unterminated escape"))
      else
        let other ← byteAt bytes (i + 1)
        scanString bytes start out (s ++ [unescape other]) (i + 2)
    else if b == 0x22 then return (out ++ [⟨.string (.ofList s), start⟩], i + 1)
    else scanString bytes start out (s ++ [toChar b]) (i + 1)
  else return (out, i)
termination_by bytes.length - i

/-- The last pushed token is a string literal that started at `start`. -/
def lastIsString (out : List Spanned) (start : ℕ) : Bool :=
  match out.getLast? with
  | some ⟨.string _, offset⟩ => offset == start
  | _ => false

/-- The arm of a string literal that starts at `i`. -/
def scanQuote (bytes : List UInt8) (out : List Spanned) (i : ℕ) :
    Except Halt (List Spanned × ℕ) := do
  let r ← scanString bytes i out [] (i + 1)
  if r.2 == bytes.length && !lastIsString r.1 i then
    .error (.error (.parse i "unterminated string literal"))
  else return r

/-- The end of a number that starts at `i` with the byte `c`. -/
def scanNumber (bytes : List UInt8) (c : UInt8) (i : ℕ) : Except Halt ℕ := do
  let j := if c == 0x2D || c == 0x2B then i + 1 else i
  let j ← skipWhile bytes (fun b => isAsciiDigit b || b == 0x2E) j
  if j < bytes.length then
    let mark ← byteAt bytes j
    if mark == 0x65 || mark == 0x45 then
      let j ← skipIf bytes (fun b => b == 0x2B || b == 0x2D) (j + 1)
      skipWhile bytes isAsciiDigit j
    else return j
  else return j

/-- The arm of the loop for the byte `c` at `i`, which is not whitespace: the tokens with the new
one, and where the loop goes on. -/
def scanToken (src : String) (out : List Spanned) (i : ℕ) (c : UInt8) :
    Except Halt (List Spanned × ℕ) :=
  let bytes := asBytes src
  match toChar c with
  | '.' => .ok (out ++ [⟨.dot, i⟩], i + 1)
  | ',' => .ok (out ++ [⟨.comma, i⟩], i + 1)
  | '*' => .ok (out ++ [⟨.star, i⟩], i + 1)
  | '(' => .ok (out ++ [⟨.lParen, i⟩], i + 1)
  | ')' => .ok (out ++ [⟨.rParen, i⟩], i + 1)
  | '[' => .ok (out ++ [⟨.lBracket, i⟩], i + 1)
  | ']' => .ok (out ++ [⟨.rBracket, i⟩], i + 1)
  | '=' => .ok (out ++ [⟨.eq, i⟩], i + 1)
  | '!' =>
    if bytes[i + 1]? = some 0x3D then .ok (out ++ [⟨.ne, i⟩], i + 2)
    else .error (.error (.parse i "expected `!=`"))
  | '<' =>
    if bytes[i + 1]? = some 0x3D then .ok (out ++ [⟨.le, i⟩], i + 2)
    else .ok (out ++ [⟨.lt, i⟩], i + 1)
  | '>' =>
    if bytes[i + 1]? = some 0x3D then .ok (out ++ [⟨.ge, i⟩], i + 2)
    else .ok (out ++ [⟨.gt, i⟩], i + 1)
  | '"' => scanQuote bytes out i
  | ch =>
    if isAsciiDigit c || c == 0x2D || c == 0x2B then do
      -- `parse::<f64>` has the last word on what `scanNumber` took
      let j ← scanNumber bytes c i
      let text ← slice src i j
      match parseF64 text with
      | some x => return (out ++ [⟨.number x, i⟩], j)
      | none => .error (.error (.parse i ("invalid number `" ++ sliceText text ++ "`")))
    else if isAsciiAlphabetic c || c == 0x5F then do
      let j ← skipWhile bytes isIdentByte (i + 1)
      let ident ← slice src i j
      return (out ++ [⟨wordToken (sliceText ident), i⟩], j)
    else .error (.error (.parse i ("unexpected character `" ++ ch.toString ++ "`")))

/-- The loop `while i < bytes.len()`, when it ends within the rounds. -/
def scanLoop (src : String) : ℕ → List Spanned → ℕ → Option (Except Halt (List Spanned))
  | 0, _, _ => none
  | rounds + 1, out, i =>
    if i < (asBytes src).length then
      match byteAt (asBytes src) i with
      | .error e => some (.error e)
      | .ok c =>
        if isAsciiWhitespace c then scanLoop src rounds out (i + 1)
        else
          match scanToken src out i c with
          | .error e => some (.error e)
          | .ok (out, i) => scanLoop src rounds out i
    else some (.ok out)

theorem scanLoop_end {src : String} {rounds : ℕ} {out : List Spanned} {i : ℕ}
    (h : (asBytes src).length ≤ i) : scanLoop src (rounds + 1) out i = some (.ok out) := by
  rw [scanLoop, if_neg (by omega)]

/-- `tokenize`, within a number of rounds of its loop. -/
def scan (src : String) (rounds : ℕ) : Option (Except Halt (List Spanned)) :=
  scanLoop src rounds [] 0

end Caql

end Boardwalk
