import Boardwalk.Caql.Lex

/-!
# The lexemes of CaQL

What a token is spelled like (`Lexeme`) and what is wrong where none stands (`Offending`), said about
the bytes without the order in which the lexer looks at them.  A lexeme is as long as it can be: what
follows a word is no byte of a word, and what follows a number does not go on with it.  The lexer
takes the lexeme that stands first (`lexToken_of_lexeme`) and reports the first that offends
(`lexToken_of_offending`).
-/

namespace Boardwalk

namespace Caql

/-- The first byte of what follows does not satisfy `p`. -/
def EndsBefore (p : UInt8 → Bool) (tail : List UInt8) : Prop :=
  ∀ b, tail.head? = some b → p b = false

/-! ### Runs of bytes -/

/-- Where a run of bytes ends, `takeWhile` and `dropWhile` split there. -/
theorem takeWhile_append_of_endsBefore {p : UInt8 → Bool} {w tail : List UInt8}
    (hw : ∀ b ∈ w, p b = true) (htail : EndsBefore p tail) :
    (w ++ tail).takeWhile p = w ∧ (w ++ tail).dropWhile p = tail := by
  induction w with
  | nil =>
    cases tail with
    | nil => exact ⟨rfl, rfl⟩
    | cons b tail => simp [htail b rfl]
  | cons b w ih =>
    have hb : p b = true := hw b List.mem_cons_self
    obtain ⟨htake, hdrop⟩ := ih fun c hc => hw c (List.mem_cons_of_mem _ hc)
    simp [hb, htake, hdrop]

/-- What `dropWhile` leaves starts with no byte of the run. -/
theorem endsBefore_dropWhile (p : UInt8 → Bool) (bytes : List UInt8) :
    EndsBefore p (bytes.dropWhile p) := by
  intro b hb
  induction bytes with
  | nil => cases hb
  | cons c bytes ih =>
    rw [List.dropWhile_cons] at hb
    split at hb
    · exact ih hb
    · rename_i hc
      cases hb
      exact Bool.not_eq_true _ ▸ hc

theorem all_takeWhile (p : UInt8 → Bool) (bytes : List UInt8) :
    ∀ b ∈ bytes.takeWhile p, p b = true := fun _ hb => List.mem_takeWhile_imp hb

/-! ### Strings -/

/-- The bytes between the quotes of a string literal and the characters that they stand for. -/
inductive StringBody : List UInt8 → List Char → Prop where
  | nil : StringBody [] []
  | plain (b : UInt8) (w : List UInt8) (s : List Char) :
    b ≠ 0x22 → b ≠ 0x5C → StringBody w s → StringBody (b :: w) (toChar b :: s)
  | escape (b : UInt8) (w : List UInt8) (s : List Char) :
    StringBody w s → StringBody (0x5C :: b :: w) (unescape b :: s)

/-- A literal that is closed is read up to its closing quote. -/
theorem lexString_closed (start : ℕ) {w : List UInt8} {s : List Char} (h : StringBody w s)
    (acc : List Char) (rest : List UInt8) :
    lexString start acc (w ++ 0x22 :: rest) = .ok (acc ++ s, rest) := by
  induction h generalizing acc with
  | nil =>
    rw [List.append_nil, List.nil_append]
    cases rest <;> simp [lexString]
  | plain b w s hq hs _ ih =>
    obtain ⟨b', w', hw⟩ : ∃ b' w', w ++ 0x22 :: rest = b' :: w' :=
      List.exists_cons_of_ne_nil (by simp)
    rw [List.cons_append, hw, lexString, ← hw, ih]
    simp [hq, hs]
  | escape b w s _ ih =>
    simp [lexString, ih]

/-- One that the input ends in is an error. -/
theorem lexString_open (start : ℕ) {w : List UInt8} {s : List Char} (h : StringBody w s)
    (acc : List Char) :
    lexString start acc w = .error (.parse start "unterminated string literal") := by
  induction h generalizing acc with
  | nil => rfl
  | plain b w s hq hs _ ih =>
    cases w with
    | nil => simp [lexString, hq, hs]
    | cons b' w => simp [lexString, hq, hs, ih]
  | escape b w s _ ih => simp [lexString, ih]

/-- So is one that the input ends in after a backslash. -/
theorem lexString_openEscape (start : ℕ) {w : List UInt8} {s : List Char} (h : StringBody w s)
    (acc : List Char) :
    lexString start acc (w ++ [0x5C]) = .error (.parse start "unterminated escape") := by
  induction h generalizing acc with
  | nil => rfl
  | plain b w s hq hs _ ih =>
    obtain ⟨b', w', hw⟩ : ∃ b' w', w ++ [0x5C] = b' :: w' := List.exists_cons_of_ne_nil (by simp)
    rw [List.cons_append, hw, lexString, ← hw, ih]
    simp [hq, hs]
  | escape b w s _ ih => simp [lexString, ih]

/-- After an opening quote there is a closed literal, an open one or an open escape. -/
theorem stringBody_cases (bytes : List UInt8) :
    (∃ w s rest, bytes = w ++ 0x22 :: rest ∧ StringBody w s) ∨ (∃ s, StringBody bytes s) ∨
      ∃ w s, bytes = w ++ [0x5C] ∧ StringBody w s := by
  -- an escape takes two bytes, so the induction is on the length
  induction hn : bytes.length using Nat.strong_induction_on generalizing bytes with
  | _ n ih =>
  subst hn
  cases bytes with
  | nil => exact Or.inr (Or.inl ⟨[], StringBody.nil⟩)
  | cons b rest =>
    by_cases hq : b = 0x22
    · subst hq
      exact Or.inl ⟨[], [], rest, rfl, StringBody.nil⟩
    · by_cases hs : b = 0x5C
      · subst hs
        cases rest with
        | nil => exact Or.inr (Or.inr ⟨[], [], rfl, StringBody.nil⟩)
        | cons b' rest =>
          have hrest := ih rest.length (by simp only [List.length_cons]; omega) rest rfl
          -- each outcome of the rest is one of the whole
          obtain ⟨w, s, rest', rfl, hw⟩ | ⟨s, hw⟩ | ⟨w, s, rfl, hw⟩ := hrest
          · exact Or.inl ⟨_, _, rest', rfl, StringBody.escape b' w s hw⟩
          · exact Or.inr (Or.inl ⟨_, StringBody.escape b' rest s hw⟩)
          · exact Or.inr (Or.inr ⟨_, _, rfl, StringBody.escape b' w s hw⟩)
      · have hrest := ih rest.length (by simp) rest rfl
        obtain ⟨w, s, rest', rfl, hw⟩ | ⟨s, hw⟩ | ⟨w, s, rfl, hw⟩ := hrest
        · exact Or.inl ⟨_, _, rest', rfl, StringBody.plain b w s hq hs hw⟩
        · exact Or.inr (Or.inl ⟨_, StringBody.plain b rest s hq hs hw⟩)
        · exact Or.inr (Or.inr ⟨_, _, rfl, StringBody.plain b w s hq hs hw⟩)

/-! ### Numbers -/

def isDecimalByte (b : UInt8) : Bool := isAsciiDigit b || b == 0x2E

def isSign (b : UInt8) : Bool := b == 0x2B || b == 0x2D

def isExponentMark (b : UInt8) : Bool := b == 0x65 || b == 0x45

/-- What follows the mark of an exponent, up to `tail`: a sign or none, and digits or none. -/
inductive ExponentTail : List UInt8 → List UInt8 → Prop where
  | signed (b : UInt8) (digits tail : List UInt8) :
    isSign b = true → (∀ b ∈ digits, isAsciiDigit b = true) → EndsBefore isAsciiDigit tail →
    ExponentTail (b :: digits) tail
  | unsigned (digits tail : List UInt8) :
    (∀ b ∈ digits, isAsciiDigit b = true) → EndsBefore isAsciiDigit tail →
    EndsBefore isSign (digits ++ tail) → ExponentTail digits tail

/-- What follows the first byte of a number, up to `tail`: digits and points, and an exponent where
a mark of one comes next. -/
inductive NumberTail : List UInt8 → List UInt8 → Prop where
  | plain (mantissa tail : List UInt8) :
    (∀ b ∈ mantissa, isDecimalByte b = true) → EndsBefore isDecimalByte tail →
    EndsBefore isExponentMark tail → NumberTail mantissa tail
  | exponent (mantissa : List UInt8) (mark : UInt8) (w tail : List UInt8) :
    (∀ b ∈ mantissa, isDecimalByte b = true) → isExponentMark mark = true →
    ExponentTail w tail → NumberTail (mantissa ++ mark :: w) tail

/-- The span of an exponent that is known to end is that exponent. -/
theorem exponentSpan_of_tail {w tail : List UInt8} (h : ExponentTail w tail) :
    exponentSpan (w ++ tail) = (w, tail) := by
  cases h with
  | signed b digits tail hb hdigits htail =>
    obtain ⟨htake, hdrop⟩ := takeWhile_append_of_endsBefore hdigits htail
    have hsign : (b == 0x2B || b == 0x2D) = true := hb
    simp [exponentSpan, hsign, htake, hdrop]
  | unsigned digits tail hdigits htail hsign =>
    obtain ⟨htake, hdrop⟩ := takeWhile_append_of_endsBefore hdigits htail
    have hnone : ((w ++ tail).take 1).takeWhile (fun b => b == 0x2B || b == 0x2D) = [] := by
      cases hw : w ++ tail with
      | nil => rfl
      | cons b rest =>
        have hb : (b == 0x2B || b == 0x2D) = false := hsign b (by rw [hw]; rfl)
        simp [hb]
    rw [exponentSpan, hnone]
    simp [htake, hdrop]

/-- The span of an exponent is a prefix of the input and ends where the grammar says it does. -/
theorem exponentTail_span (rest : List UInt8) :
    rest = (exponentSpan rest).1 ++ (exponentSpan rest).2 ∧
      ExponentTail (exponentSpan rest).1 (exponentSpan rest).2 := by
  cases rest with
  | nil =>
    refine ⟨rfl, ExponentTail.unsigned [] [] (by simp) ?_ ?_⟩ <;>
    · intro b hb
      cases hb
  | cons b rest =>
    by_cases hb : isSign b = true
    · -- a sign after the mark belongs to the exponent
      have hsign : (b == 0x2B || b == 0x2D) = true := hb
      have hspan : exponentSpan (b :: rest) =
          (b :: rest.takeWhile isAsciiDigit, rest.dropWhile isAsciiDigit) := by
        simp [exponentSpan, hsign]
      rw [hspan]
      refine ⟨by simp, ExponentTail.signed b _ _ hb (all_takeWhile _ _) (endsBefore_dropWhile _ _)⟩
    · have hsign : (b == 0x2B || b == 0x2D) = false := Bool.not_eq_true _ ▸ hb
      have hspan : exponentSpan (b :: rest) =
          ((b :: rest).takeWhile isAsciiDigit, (b :: rest).dropWhile isAsciiDigit) := by
        simp [exponentSpan, hsign]
      rw [hspan]
      refine ⟨by simp, ExponentTail.unsigned _ _ (all_takeWhile _ _) (endsBefore_dropWhile _ _) ?_⟩
      rw [List.takeWhile_append_dropWhile]
      rintro c ⟨⟩
      exact hsign

/-- `numberSpan` splits the input at the one place where a number can end. -/
theorem numberSpan_eq_iff {rest w tail : List UInt8} :
    numberSpan rest = (w, tail) ↔ rest = w ++ tail ∧ NumberTail w tail := by
  have hmantissa : (fun b => isAsciiDigit b || b == 0x2E) = isDecimalByte := rfl
  have hmark : ∀ b : UInt8, (b == 0x65 || b == 0x45) = isExponentMark b := fun _ => rfl
  unfold numberSpan
  -- the digits and dots, then an exponent if a mark follows
  simp only [hmantissa, hmark]
  constructor
  · intro h
    have hsplit := List.takeWhile_append_dropWhile (p := isDecimalByte) (l := rest)
    have hends := endsBefore_dropWhile isDecimalByte rest
    split at h
    · rename_i b rest' hrest
      rw [hrest] at hsplit hends
      split at h
      · rename_i hb
        cases h
        obtain ⟨hsplit', htail⟩ := exponentTail_span rest'
        refine ⟨?_, NumberTail.exponent _ b _ _ (all_takeWhile _ _) hb htail⟩
        rw [List.append_assoc, List.cons_append, ← hsplit']
        exact hsplit.symm
      · rename_i hb
        rw [hrest] at h
        cases h
        refine ⟨hsplit.symm, NumberTail.plain _ _ (all_takeWhile _ _) hends ?_⟩
        rintro c ⟨⟩
        exact Bool.not_eq_true _ ▸ hb
    · rename_i hrest
      rw [hrest] at hsplit hends
      cases h
      refine ⟨hsplit.symm, NumberTail.plain _ _ (all_takeWhile _ _) hends ?_⟩
      intro c hc
      cases hc
  · rintro ⟨rfl, h⟩
    -- the two forms of a tail are read back by the two branches
    cases h with
    | plain w tail hw hends hmarks =>
      obtain ⟨htake, hdrop⟩ := takeWhile_append_of_endsBefore hw hends
      rw [htake, hdrop]
      cases tail with
      | nil => rfl
      | cons b tail =>
        have hb : isExponentMark b = false := hmarks b rfl
        simp [hb]
    | exponent mantissa mark w tail hw hb htail =>
      have hends : EndsBefore isDecimalByte (mark :: (w ++ tail)) := by
        rintro c ⟨⟩
        have hmark : mark = 0x65 ∨ mark = 0x45 := by simpa [isExponentMark] using hb
        obtain rfl | rfl := hmark <;> decide
      obtain ⟨htake, hdrop⟩ := takeWhile_append_of_endsBefore hw hends
      rw [List.append_assoc, List.cons_append, htake, hdrop]
      simp [hb, exponentSpan_of_tail htail]

/-! ### Lexemes -/

/-- The token of a byte that no other byte makes a longer one. -/
def symbol : UInt8 → Option Tok
  | 0x2E => some .dot
  | 0x2C => some .comma
  | 0x2A => some .star
  | 0x28 => some .lParen
  | 0x29 => some .rParen
  | 0x5B => some .lBracket
  | 0x5D => some .rBracket
  | 0x3D => some .eq
  | _ => none

def startsNumber (b : UInt8) : Bool := isAsciiDigit b || b == 0x2D || b == 0x2B

def startsWord (b : UInt8) : Bool := isAsciiAlphabetic b || b == 0x5F

/-- One of `!`, `<`, `>` and `"`. -/
def startsOperator (b : UInt8) : Bool := b == 0x21 || b == 0x3C || b == 0x3E || b == 0x22

/-- A lexeme, and what follows it. -/
inductive Lexeme : Tok → List UInt8 → List UInt8 → Prop where
  | symbol (b : UInt8) (tok : Tok) (tail : List UInt8) :
    symbol b = some tok → Lexeme tok [b] tail
  | ne (tail : List UInt8) : Lexeme .ne [0x21, 0x3D] tail
  | lt (tail : List UInt8) : EndsBefore (· == 0x3D) tail → Lexeme .lt [0x3C] tail
  | le (tail : List UInt8) : Lexeme .le [0x3C, 0x3D] tail
  | gt (tail : List UInt8) : EndsBefore (· == 0x3D) tail → Lexeme .gt [0x3E] tail
  | ge (tail : List UInt8) : Lexeme .ge [0x3E, 0x3D] tail
  | string (w : List UInt8) (s : List Char) (tail : List UInt8) :
    StringBody w s → Lexeme (.string (.ofList s)) (0x22 :: (w ++ [0x22])) tail
  | number (b : UInt8) (w tail : List UInt8) (x : F64) :
    startsNumber b = true → NumberTail w tail → parseF64 (b :: w) = some x →
    Lexeme (.number x) (b :: w) tail
  | word (b : UInt8) (w tail : List UInt8) :
    startsWord b = true → (∀ c ∈ w, isIdentByte c = true) → EndsBefore isIdentByte tail →
    Lexeme (wordToken (sliceText (b :: w))) (b :: w) tail

/-- What offends at the start of the bytes, with the message about it. -/
inductive Offending : List UInt8 → String → Prop where
  | bang (tail : List UInt8) :
    EndsBefore (· == 0x3D) tail → Offending (0x21 :: tail) "expected `!=`"
  | string (w : List UInt8) (s : List Char) :
    StringBody w s → Offending (0x22 :: w) "unterminated string literal"
  | escape (w : List UInt8) (s : List Char) :
    StringBody w s → Offending (0x22 :: (w ++ [0x5C])) "unterminated escape"
  | number (b : UInt8) (w tail : List UInt8) :
    startsNumber b = true → NumberTail w tail → parseF64 (b :: w) = none →
    Offending (b :: (w ++ tail)) ("invalid number `" ++ sliceText (b :: w) ++ "`")
  | byte (b : UInt8) (tail : List UInt8) :
    isAsciiWhitespace b = false → symbol b = none → startsOperator b = false →
    startsNumber b = false → startsWord b = false →
    Offending (b :: tail) ("unexpected character `" ++ (toChar b).toString ++ "`")

/-! ### One token -/

theorem toChar_inj {b c : UInt8} (h : toChar b = toChar c) : b = c := by
  have hnat : ∀ b : UInt8, (toChar b).toNat = b.toNat := by
    intro b
    have hb := b.toNat_lt
    have hvalid : b.toNat.isValidChar := Or.inl (by omega)
    rw [toChar, Char.ofNat, dif_pos hvalid]
    rfl
  have h' := congrArg Char.toNat h
  rw [hnat, hnat] at h'
  exact UInt8.toNat_inj.mp h'

theorem lexToken_symbol (start : ℕ) {b : UInt8} {tok : Tok} (h : symbol b = some tok)
    (rest : List UInt8) : lexToken start b rest = .ok (tok, rest) := by
  unfold symbol at h
  split at h
  case h_9 => cases h
  all_goals
    cases h
    rfl

/-- A byte that stands for nothing by itself starts a number or a word, or offends. -/
theorem lexToken_other (start : ℕ) {b : UInt8} (hs : symbol b = none)
    (ho : startsOperator b = false) (rest : List UInt8) :
    lexToken start b rest =
      if startsNumber b then
        (parseF64 (b :: (numberSpan rest).1)).elim
          (.error (.parse start
            ("invalid number `" ++ sliceText (b :: (numberSpan rest).1) ++ "`")))
          fun x => .ok (.number x, (numberSpan rest).2)
      else if startsWord b then
        .ok (wordToken (sliceText (b :: rest.takeWhile isIdentByte)), rest.dropWhile isIdentByte)
      else .error (.parse start ("unexpected character `" ++ (toChar b).toString ++ "`")) := by
  -- no byte is one of the symbols above, as none of them is a case of `hs` or `ho`
  have hne : ∀ c : UInt8, toChar b = toChar c → b = c := fun c h => toChar_inj h
  unfold lexToken
  dsimp only
  split
  case h_13 => cases parseF64 (b :: (numberSpan rest).1) <;> rfl
  case h_1 h => cases hne 0x2E h; cases hs
  case h_2 h => cases hne 0x2C h; cases hs
  case h_3 h => cases hne 0x2A h; cases hs
  case h_4 h => cases hne 0x28 h; cases hs
  case h_5 h => cases hne 0x29 h; cases hs
  case h_6 h => cases hne 0x5B h; cases hs
  case h_7 h => cases hne 0x5D h; cases hs
  case h_8 h => cases hne 0x3D h; cases hs
  case h_9 h => cases hne 0x21 h; cases ho
  case h_10 h => cases hne 0x3C h; cases ho
  case h_11 h => cases hne 0x3E h; cases ho
  case h_12 h => cases hne 0x22 h; cases ho

/-- The classes of first bytes are apart. -/
theorem byte_class (b : UInt8) :
    (startsNumber b = true →
      isAsciiWhitespace b = false ∧ symbol b = none ∧ startsOperator b = false) ∧
    (startsWord b = true →
      isAsciiWhitespace b = false ∧ symbol b = none ∧ startsOperator b = false ∧
        startsNumber b = false) ∧
    ((symbol b).isSome = true → isAsciiWhitespace b = false) := by
  revert b
  apply Str.forall_byte
  decide +kernel

theorem startsNumber_class (b : UInt8) : startsNumber b = true →
    isAsciiWhitespace b = false ∧ symbol b = none ∧ startsOperator b = false :=
  (byte_class b).1

theorem startsWord_class (b : UInt8) : startsWord b = true →
    isAsciiWhitespace b = false ∧ symbol b = none ∧ startsOperator b = false ∧
      startsNumber b = false :=
  (byte_class b).2.1

theorem symbol_class (b : UInt8) : (symbol b).isSome = true →
    isAsciiWhitespace b = false :=
  (byte_class b).2.2

theorem withEq_of_endsBefore {short long : Tok} {tail : List UInt8}
    (h : EndsBefore (· == 0x3D) tail) : withEq short long tail = (short, tail) := by
  unfold withEq
  split
  · have h' := h 0x3D rfl
    cases h'
  · rfl

/-- The lexer takes a lexeme that stands first. -/
theorem lexToken_of_lexeme (start : ℕ) {tok : Tok} {w tail : List UInt8} (h : Lexeme tok w tail) :
    ∃ b w', w = b :: w' ∧ isAsciiWhitespace b = false ∧
      lexToken start b (w' ++ tail) = .ok (tok, tail) := by
  cases h with
  | symbol b tok tail hb =>
    exact ⟨b, [], rfl, symbol_class b (by rw [hb]; rfl), lexToken_symbol start hb tail⟩
  | ne => exact ⟨0x21, [0x3D], rfl, rfl, rfl⟩
  | lt tail htail =>
    refine ⟨0x3C, [], rfl, rfl, ?_⟩
    show Except.ok (withEq .lt .le tail) = _
    rw [withEq_of_endsBefore htail]
  | le => exact ⟨0x3C, [0x3D], rfl, rfl, rfl⟩
  | gt tail htail =>
    refine ⟨0x3E, [], rfl, rfl, ?_⟩
    show Except.ok (withEq .gt .ge tail) = _
    rw [withEq_of_endsBefore htail]
  | ge => exact ⟨0x3E, [0x3D], rfl, rfl, rfl⟩
  | string w s tail hw =>
    -- the closing quote is the first one that is not escaped
    refine ⟨0x22, w ++ [0x22], rfl, rfl, ?_⟩
    show ((lexString start [] (w ++ [0x22] ++ tail)).bind
      fun r => .ok (Tok.string (.ofList r.1), r.2)) = _
    rw [List.append_assoc, List.singleton_append, lexString_closed start hw]
    rfl
  | number b w tail x hb hw hx =>
    -- the number is as long as it can be
    obtain ⟨hspace, hs, ho⟩ := startsNumber_class b hb
    refine ⟨b, w, rfl, hspace, ?_⟩
    have hspan := numberSpan_eq_iff.mpr ⟨rfl, hw⟩
    rw [lexToken_other start hs ho, if_pos hb, hspan, hx]
    rfl
  | word b w tail hb hw htail =>
    obtain ⟨hspace, hs, ho, hn⟩ := startsWord_class b hb
    refine ⟨b, w, rfl, hspace, ?_⟩
    obtain ⟨htake, hdrop⟩ := takeWhile_append_of_endsBefore hw htail
    rw [lexToken_other start hs ho, hn, hb, htake, hdrop]
    rfl

/-- The lexer reports what offends first. -/
theorem lexToken_of_offending (start : ℕ) {bytes : List UInt8} {message : String}
    (h : Offending bytes message) :
    ∃ b rest, bytes = b :: rest ∧ isAsciiWhitespace b = false ∧
      lexToken start b rest = .error (.parse start message) := by
  cases h with
  | bang tail htail =>
    refine ⟨0x21, tail, rfl, rfl, ?_⟩
    have hbang : toChar 0x21 = '!' := rfl
    -- only `=` may follow
    unfold lexToken
    simp only [hbang]
    split
    · have h' := htail 0x3D rfl
      cases h'
    · rfl
  | string w s hw =>
    refine ⟨0x22, w, rfl, rfl, ?_⟩
    show ((lexString start [] w).bind fun r => .ok (Tok.string (.ofList r.1), r.2)) = _
    rw [lexString_open start hw]
    rfl
  | escape w s hw =>
    refine ⟨0x22, w ++ [0x5C], rfl, rfl, ?_⟩
    show ((lexString start [] (w ++ [0x5C])).bind fun r => .ok (Tok.string (.ofList r.1), r.2)) = _
    rw [lexString_openEscape start hw]
    rfl
  | number b w tail hb hw hx =>
    obtain ⟨hspace, hs, ho⟩ := startsNumber_class b hb
    refine ⟨b, w ++ tail, rfl, hspace, ?_⟩
    have hspan := numberSpan_eq_iff.mpr ⟨rfl, hw⟩
    rw [lexToken_other start hs ho, if_pos hb, hspan, hx]
    rfl
  | byte b tail hspace hs ho hn hw =>
    refine ⟨b, tail, rfl, hspace, ?_⟩
    rw [lexToken_other start hs ho, hn, hw]
    rfl

/-- What is not whitespace is a lexeme or offends. -/
theorem lexeme_or_offending {b : UInt8} (hb : isAsciiWhitespace b = false) (rest : List UInt8) :
    (∃ tok w tail, b :: rest = w ++ tail ∧ Lexeme tok w tail) ∨
      ∃ message, Offending (b :: rest) message := by
  -- whether an `=` follows decides between the short and the long operators
  have hnext : EndsBefore (· == 0x3D) rest ∨ ∃ tail, rest = 0x3D :: tail := by
    cases rest with
    | nil => exact Or.inl fun c hc => by cases hc
    | cons c tail =>
      by_cases hc : c = 0x3D
      · exact Or.inr ⟨tail, by rw [hc]⟩
      · exact Or.inl fun d hd => by cases hd; simp [hc]
  cases hs : symbol b with
  | some tok => exact Or.inl ⟨tok, [b], rest, rfl, Lexeme.symbol b tok rest hs⟩
  | none =>
    by_cases ho : startsOperator b = true
    · have hop : b = 0x21 ∨ b = 0x3C ∨ b = 0x3E ∨ b = 0x22 := by
        simpa [startsOperator, or_assoc] using ho
      obtain rfl | rfl | rfl | rfl := hop
      · obtain hends | ⟨tail, rfl⟩ := hnext
        · exact Or.inr ⟨_, Offending.bang rest hends⟩
        · exact Or.inl ⟨.ne, _, tail, rfl, Lexeme.ne tail⟩
      · obtain hends | ⟨tail, rfl⟩ := hnext
        · exact Or.inl ⟨.lt, _, rest, rfl, Lexeme.lt rest hends⟩
        · exact Or.inl ⟨.le, _, tail, rfl, Lexeme.le tail⟩
      · obtain hends | ⟨tail, rfl⟩ := hnext
        · exact Or.inl ⟨.gt, _, rest, rfl, Lexeme.gt rest hends⟩
        · exact Or.inl ⟨.ge, _, tail, rfl, Lexeme.ge tail⟩
      · -- a string ends at a quote, or it is open, or its last byte is an escape
        obtain ⟨w, s, tail, rfl, hw⟩ | ⟨s, hw⟩ | ⟨w, s, rfl, hw⟩ := stringBody_cases rest
        · exact Or.inl ⟨_, _, tail, by simp, Lexeme.string w s tail hw⟩
        · exact Or.inr ⟨_, Offending.string rest s hw⟩
        · exact Or.inr ⟨_, Offending.escape w s hw⟩
    · have ho : startsOperator b = false := Bool.not_eq_true _ ▸ ho
      by_cases hn : startsNumber b = true
      · -- a number starts here: it is one as far as the span goes, or offends
        obtain ⟨w, tail, hspan⟩ : ∃ w tail, numberSpan rest = (w, tail) := ⟨_, _, rfl⟩
        obtain ⟨rfl, hw⟩ := numberSpan_eq_iff.mp hspan
        cases hx : parseF64 (b :: w) with
        | some x => exact Or.inl ⟨_, _, tail, rfl, Lexeme.number b w tail x hn hw hx⟩
        | none => exact Or.inr ⟨_, Offending.number b w tail hn hw hx⟩
      · have hn : startsNumber b = false := Bool.not_eq_true _ ▸ hn
        by_cases hw : startsWord b = true
        · refine Or.inl ⟨_, _, rest.dropWhile isIdentByte, ?_,
            Lexeme.word b _ _ hw (all_takeWhile _ rest) (endsBefore_dropWhile _ rest)⟩
          rw [List.cons_append, List.takeWhile_append_dropWhile]
        · exact Or.inr ⟨_, Offending.byte b rest hb hs ho hn (Bool.not_eq_true _ ▸ hw)⟩

end Caql

end Boardwalk
