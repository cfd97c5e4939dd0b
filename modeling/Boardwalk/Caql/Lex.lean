import Boardwalk.Lib.Str
import Boardwalk.Query.Ast

/-!
# The CaQL lexer

`caql/lex.rs`.  The lexer reads bytes; what is left of the input is a list of them, and the offset
of a token is the number of bytes before it.  A byte of a string literal becomes the character of
that number, as `b as char` does, also where it is part of a longer UTF-8 sequence.
-/

namespace Boardwalk

namespace Caql

inductive Tok where
  | select
  | where
  | and
  | or
  | not
  | in
  | like
  | contains
  | exists
  | true
  | false
  | null
  | ident (name : String)
  | number (x : F64)
  | string (s : String)
  | dot
  | comma
  | star
  | lParen
  | rParen
  | lBracket
  | rBracket
  | eq
  | ne
  | lt
  | le
  | gt
  | ge
  deriving Repr, DecidableEq

structure Spanned where
  tok : Tok
  offset : ℕ
  deriving Repr, DecidableEq

/-- `u8 as char`. -/
def toChar (b : UInt8) : Char := Char.ofNat b.toNat

/-- `u8::is_ascii_whitespace`: space, tab, line feed, form feed and carriage return. -/
def isAsciiWhitespace (b : UInt8) : Bool :=
  b == 0x20 || b == 0x09 || b == 0x0A || b == 0x0C || b == 0x0D

def isAsciiDigit (b : UInt8) : Bool := decide (0x30 ≤ b ∧ b ≤ 0x39)

def isAsciiAlphabetic (b : UInt8) : Bool :=
  decide (0x41 ≤ b ∧ b ≤ 0x5A ∨ 0x61 ≤ b ∧ b ≤ 0x7A)

/-- A letter, a digit or `_`. -/
def isIdentByte (b : UInt8) : Bool := isAsciiAlphabetic b || isAsciiDigit b || b == 0x5F

/-- The text of a slice of ASCII bytes. -/
def sliceText (bytes : List UInt8) : String := .ofList (bytes.map toChar)

/-! ### Numbers -/

/-- Splits off a leading sign; `true` for a minus. -/
def splitSign : List UInt8 → Bool × List UInt8
  | 0x2D :: rest => (true, rest)
  | 0x2B :: rest => (false, rest)
  | rest => (false, rest)

def decimalValue (digits : List UInt8) : ℕ :=
  digits.foldl (fun n b => 10 * n + (b.toNat - 0x30)) 0

/-- The exponent of a number, read to its end. -/
def parseExponent : List UInt8 → Option ℤ
  | [] => some 0
  | b :: rest =>
    let (negative, digits) := splitSign rest
    if (b == 0x65 || b == 0x45) && !digits.isEmpty && digits.all isAsciiDigit then
      some (if negative then -(decimalValue digits : ℤ) else decimalValue digits)
    else none

/-- `f64::from_str` on what the lexer hands it, which never spells an infinity or a `NaN`: a sign,
digits with at most one point, and an exponent, rounded to the nearest value. -/
def parseF64 (bytes : List UInt8) : Option F64 :=
  let (negative, rest) := splitSign bytes
  let whole := rest.takeWhile isAsciiDigit
  let rest := rest.dropWhile isAsciiDigit
  let (fraction, rest) := match rest with
    | 0x2E :: rest => (rest.takeWhile isAsciiDigit, rest.dropWhile isAsciiDigit)
    | rest => ([], rest)
  if whole.isEmpty && fraction.isEmpty then none
  else
    (parseExponent rest).map fun e =>
      let e : ℤ := e - fraction.length
      .ofRatio negative (decimalValue (whole ++ fraction) * 10 ^ e.toNat) (10 ^ (-e).toNat)

/-- The part of a number after `e` or `E`: a sign and digits, as many as there are. -/
def exponentSpan (rest : List UInt8) : List UInt8 × List UInt8 :=
  let sign := (rest.take 1).takeWhile fun b => b == 0x2B || b == 0x2D
  let rest := rest.drop sign.length
  (sign ++ rest.takeWhile isAsciiDigit, rest.dropWhile isAsciiDigit)

/-- The bytes of a number after its first one, and what follows them. -/
def numberSpan (rest : List UInt8) : List UInt8 × List UInt8 :=
  let mantissa := rest.takeWhile fun b => isAsciiDigit b || b == 0x2E
  let rest := rest.dropWhile fun b => isAsciiDigit b || b == 0x2E
  match rest with
  | b :: rest' =>
    if b == 0x65 || b == 0x45 then
      let (exponent, rest'') := exponentSpan rest'
      (mantissa ++ b :: exponent, rest'')
    else (mantissa, rest)
  | [] => (mantissa, [])

/-! ### Strings and words -/

/-- The character an escaped byte stands for. -/
def unescape (b : UInt8) : Char :=
  if b == 0x6E then '\n'
  else if b == 0x74 then '\t'
  else if b == 0x72 then '\r'
  else toChar b

/-- The body of a string literal that starts at `start`, up to its closing quote. -/
def lexString (start : ℕ) (s : List Char) :
    List UInt8 → Except QueryError (List Char × List UInt8)
  | [] => .error (.parse start "unterminated string literal")
  | [b] =>
    if b == 0x5C then .error (.parse start "unterminated escape")
    else if b == 0x22 then .ok (s, [])
    else .error (.parse start "unterminated string literal")
  | b :: b' :: rest =>
    if b == 0x5C then lexString start (s ++ [unescape b']) rest
    else if b == 0x22 then .ok (s, b' :: rest)
    else lexString start (s ++ [toChar b]) (b' :: rest)

/-- A keyword, in any case, or an identifier. -/
def wordToken (ident : String) : Tok :=
  match Str.toAsciiLowercase ident with
  | "select" => .select
  | "where" => .where
  | "and" => .and
  | "or" => .or
  | "not" => .not
  | "in" => .in
  | "like" => .like
  | "contains" => .contains
  | "exists" => .exists
  | "true" => .true
  | "false" => .false
  | "null" => .null
  | _ => .ident ident

/-! ### The loop -/

/-- An operator that a following `=` makes the longer one. -/
def withEq (short long : Tok) : List UInt8 → Tok × List UInt8
  | 0x3D :: rest => (long, rest)
  | rest => (short, rest)

/-- The token that starts with the byte `b` at `start`, and what follows it. -/
def lexToken (start : ℕ) (b : UInt8) (rest : List UInt8) : Except QueryError (Tok × List UInt8) :=
  match toChar b with
  | '.' => .ok (.dot, rest)
  | ',' => .ok (.comma, rest)
  | '*' => .ok (.star, rest)
  | '(' => .ok (.lParen, rest)
  | ')' => .ok (.rParen, rest)
  | '[' => .ok (.lBracket, rest)
  | ']' => .ok (.rBracket, rest)
  | '=' => .ok (.eq, rest)
  | '!' =>
    match rest with
    | 0x3D :: rest => .ok (.ne, rest)
    | _ => .error (.parse start "expected `!=`")
  | '<' => .ok (withEq .lt .le rest)
  | '>' => .ok (withEq .gt .ge rest)
  | '"' => do
    let (s, rest) ← lexString start [] rest
    return (.string (.ofList s), rest)
  | c =>
    -- a sign belongs to the number: the source has no unary operators
    if isAsciiDigit b || b == 0x2D || b == 0x2B then
      let (tail, rest) := numberSpan rest
      match parseF64 (b :: tail) with
      | some x => .ok (.number x, rest)
      | none => .error (.parse start ("invalid number `" ++ sliceText (b :: tail) ++ "`"))
    else if isAsciiAlphabetic b || b == 0x5F then
      .ok (wordToken (sliceText (b :: rest.takeWhile isIdentByte)), rest.dropWhile isIdentByte)
    else .error (.parse start ("unexpected character `" ++ c.toString ++ "`"))

theorem length_exponentSpan (rest : List UInt8) :
    (exponentSpan rest).2.length ≤ rest.length := by
  unfold exponentSpan
  refine ((List.dropWhile_sublist _).length_le).trans ?_
  simp

/-- What is left after a number is no longer than the input. -/
theorem length_numberSpan (rest : List UInt8) : (numberSpan rest).2.length ≤ rest.length := by
  have hdrop := (List.dropWhile_sublist (fun b => isAsciiDigit b || b == 0x2E)
    (l := rest)).length_le
  unfold numberSpan
  dsimp only
  split
  · rename_i b rest' hrest
    rw [hrest, List.length_cons] at hdrop
    split
    · have := length_exponentSpan rest'
      show (exponentSpan rest').2.length ≤ _
      omega
    · rw [hrest, List.length_cons]
      exact hdrop
  · exact Nat.zero_le _

/-- What is left after a string literal is no longer than the input. -/
theorem length_lexString {start : ℕ} {rest rest' : List UInt8} {s s' : List Char}
    (h : lexString start s rest = .ok (s', rest')) : rest'.length ≤ rest.length := by
  fun_induction lexString start s rest with
  | case1 => cases h
  | case2 => cases h
  | case3 =>
    cases h
    exact Nat.zero_le _
  | case4 => cases h
  | case5 s b b' rest hb ih =>
    have := ih h
    simp only [List.length_cons]
    omega
  | case6 =>
    cases h
    simp
  | case7 s b b' rest hb hb' ih =>
    have := ih h
    simp only [List.length_cons] at this ⊢
    omega

/-- A token takes at least its first byte. -/
theorem length_lexToken {start : ℕ} {b : UInt8} {rest rest' : List UInt8} {tok : Tok}
    (h : lexToken start b rest = .ok (tok, rest')) : rest'.length ≤ rest.length := by
  -- an operator takes at most one byte more than its first
  have hoperator : ∀ {short long : Tok}, withEq short long rest = (tok, rest') →
      rest'.length ≤ rest.length := by
    intro short long h
    unfold withEq at h
    split at h <;> cases h <;> simp
  unfold lexToken at h
  dsimp only at h
  split at h
  -- `!`, which must be followed by `=`
  case h_9 =>
    split at h
    · cases h
      simp
    · cases h
  case h_10 | h_11 => exact hoperator (Except.ok.inj h)
  -- a string
  case h_12 =>
    obtain ⟨⟨s, rest''⟩, hlex, h⟩ := bind_eq_ok_iff.mp h
    cases h
    exact length_lexString hlex
  -- numbers and words
  case h_13 =>
    split at h
    · split at h
      · cases h
        exact length_numberSpan rest
      · cases h
    · split at h
      · obtain ⟨-, rfl⟩ := Prod.mk.inj (Except.ok.inj h)
        exact (List.dropWhile_sublist _).length_le
      · cases h
  all_goals
    cases h
    exact Nat.le_refl _

/-- `tokenize` from where `rest` starts, in an input of `len` bytes. -/
def tokenizeFrom (len : ℕ) : List UInt8 → Except QueryError (List Spanned)
  | [] => .ok []
  | b :: rest =>
    if isAsciiWhitespace b then tokenizeFrom len rest
    else
      let start := len - (b :: rest).length
      match _h : lexToken start b rest with
      | .error e => .error e
      | .ok (tok, rest') => do return ⟨tok, start⟩ :: (← tokenizeFrom len rest')
termination_by rest => rest.length
decreasing_by
  · simp
  · have := length_lexToken _h
    simp only [List.length_cons]
    omega

/-- `tokenize`. -/
def tokenize (src : String) : Except QueryError (List Spanned) :=
  let bytes := src.toUTF8.data.toList
  tokenizeFrom bytes.length bytes

end Caql

end Boardwalk
