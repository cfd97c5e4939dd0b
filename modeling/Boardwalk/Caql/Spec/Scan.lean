import Boardwalk.Caql.Spec.Tokenize

/-!
# The lexer by its index does what the lexer does

The index of the source stays on the place up to which the input has been read, so that no index is
out of range, no slice is off a character boundary and the loop ends (`scan_eq`).
-/

namespace Boardwalk

namespace Caql

/-! ### The operations at the index -/

theorem byteAt_append (p : List UInt8) (b : UInt8) (rest : List UInt8) :
    byteAt (p ++ b :: rest) p.length = .ok b := by
  simp [byteAt]

/-- The index loop stops where the run of bytes does. -/
theorem skipWhile_append (f : UInt8 → Bool) (p : List UInt8) {w tail : List UInt8}
    (hw : ∀ b ∈ w, f b = true) (htail : EndsBefore f tail) :
    skipWhile (p ++ (w ++ tail)) f p.length = .ok (p.length + w.length) := by
  -- the word is skipped byte by byte; what is skipped joins the prefix
  induction w generalizing p with
  | nil =>
    rw [skipWhile]
    cases tail with
    | nil => simp [Pure.pure, Except.pure]
    | cons b tail =>
      -- the byte that ends the word is there but does not belong to it
      have hb : f b = false := htail b rfl
      rw [if_pos (by simp), List.nil_append, byteAt_append]
      simp [Bind.bind, Except.bind, Pure.pure, Except.pure, hb]
  | cons b w ih =>
    have hb : f b = true := hw b List.mem_cons_self
    have hrest := ih (p ++ [b]) fun c hc => hw c (List.mem_cons_of_mem _ hc)
    rw [List.append_assoc, List.singleton_append, List.length_append, List.length_singleton]
      at hrest
    rw [skipWhile, if_pos (by simp), List.cons_append, byteAt_append]
    simp only [Bind.bind, Except.bind, hb, if_true]
    rw [hrest, List.length_cons]
    congr 1
    omega

theorem skipIf_cons (f : UInt8 → Bool) (p : List UInt8) (b : UInt8) (rest : List UInt8) :
    skipIf (p ++ b :: rest) f p.length = .ok (if f b then p.length + 1 else p.length) := by
  rw [skipIf, if_pos (by simp), byteAt_append]
  rfl

theorem skipIf_end (f : UInt8 → Bool) (p : List UInt8) : skipIf p f p.length = .ok p.length := by
  rw [skipIf, if_neg (by simp)]
  rfl

theorem slice_append {src : String} {p w tail : List UInt8} (h : asBytes src = p ++ (w ++ tail))
    (hp : Str.AsciiEnd p) (hpw : Str.AsciiEnd (p ++ w)) :
    slice src p.length (p.length + w.length) = .ok w := by
  have hstart : (String.Pos.Raw.mk p.length).IsValid src := Str.isValid_of_asciiEnd h hp
  have hstop : (String.Pos.Raw.mk (p ++ w).length).IsValid src :=
    Str.isValid_of_asciiEnd (h.trans (List.append_assoc p w tail).symm) hpw
  rw [List.length_append] at hstop
  rw [slice, if_pos ⟨Nat.le_add_right _ _, String.Pos.Raw.isValid_eq_true_iff.mpr hstart,
    String.Pos.Raw.isValid_eq_true_iff.mpr hstop⟩, h, List.take_length_add_append, List.take_left',
    List.drop_left]
  rfl

/-! ### Strings -/

section

variable (start : ℕ) (out : List Spanned) (acc : List Char) (p : List UInt8)

theorem scanString_end : scanString p start out acc p.length = .ok (out, p.length) := by
  rw [scanString, if_neg (by simp)]
  rfl

theorem scanString_quote (rest : List UInt8) :
    scanString (p ++ 0x22 :: rest) start out acc p.length =
      .ok (out ++ [⟨.string (.ofList acc), start⟩], p.length + 1) := by
  rw [scanString, if_pos (by simp), byteAt_append]
  rfl

theorem scanString_plain {b : UInt8} (hq : b ≠ 0x22) (hs : b ≠ 0x5C) (rest : List UInt8) :
    scanString (p ++ b :: rest) start out acc p.length =
      scanString (p ++ [b] ++ rest) start out (acc ++ [toChar b]) (p ++ [b]).length := by
  rw [scanString, if_pos (by simp), byteAt_append]
  simp [Bind.bind, Except.bind, hq, hs]

theorem scanString_escape (b : UInt8) (rest : List UInt8) :
    scanString (p ++ 0x5C :: b :: rest) start out acc p.length =
      scanString (p ++ [0x5C, b] ++ rest) start out (acc ++ [unescape b])
        (p ++ [0x5C, b]).length := by
  have hnext : byteAt (p ++ 0x5C :: b :: rest) (p.length + 1) = .ok b := by
    simp [byteAt]
  rw [scanString, if_pos (by simp), byteAt_append]
  simp [Bind.bind, Except.bind, hnext]

theorem scanString_openEscape :
    scanString (p ++ [0x5C]) start out acc p.length =
      .error (.error (.parse start "unterminated escape")) := by
  rw [scanString, if_pos (by simp), byteAt_append]
  simp [Bind.bind, Except.bind]

end

/-- The loop goes through the body of a literal. -/
theorem scanString_body (start : ℕ) (out : List Spanned) {w : List UInt8} {s : List Char}
    (h : StringBody w s) (acc : List Char) (p rest : List UInt8) :
    scanString (p ++ (w ++ rest)) start out acc p.length =
      scanString (p ++ w ++ rest) start out (acc ++ s) (p ++ w).length := by
  induction h generalizing acc p with
  | nil => simp
  | plain b w s hq hs _ ih =>
    rw [List.cons_append, scanString_plain start out acc p hq hs, ih]
    simp
  | escape b w s _ ih =>
    rw [List.cons_append, List.cons_append, scanString_escape, ih]
    simp

/-! ### One token -/

theorem lastIsString_before {out : List Spanned} {start : ℕ} (h : ∀ t ∈ out, t.offset < start) :
    lastIsString out start = false := by
  unfold lastIsString
  split
  · rename_i s offset hlast
    have hlt : offset < start := h _ (List.mem_of_getLast? hlast)
    simp only [beq_eq_false_iff_ne]
    omega
  · rfl

theorem lastIsString_last (out : List Spanned) (s : String) (start : ℕ) :
    lastIsString (out ++ [⟨.string s, start⟩]) start = true := by
  simp [lastIsString]

section

variable {src : String} {out : List Spanned} {p : List UInt8}

theorem scanToken_symbol {b : UInt8} {tok : Tok} (h : symbol b = some tok) (i : ℕ) :
    scanToken src out i b = .ok (out ++ [⟨tok, i⟩], i + 1) := by
  unfold symbol at h
  split at h
  case h_9 => cases h
  all_goals
    cases h
    rfl

theorem next_eq_iff {c : UInt8} {tail : List UInt8} (h : asBytes src = p ++ c :: tail) :
    (asBytes src)[p.length + 1]? = some 0x3D ↔ tail.head? = some 0x3D := by
  rw [h]
  cases tail <;> simp

/-- A literal that is closed. -/
theorem scanToken_string {w tail : List UInt8} {s : List Char} (hw : StringBody w s)
    (h : asBytes src = p ++ (0x22 :: (w ++ [0x22]) ++ tail)) :
    scanToken src out p.length 0x22 =
      .ok (out ++ [⟨.string (.ofList s), p.length⟩], p.length + (w.length + 2)) := by
  have hbody := scanString_body p.length out hw [] (p ++ [0x22]) (0x22 :: tail)
  rw [scanString_quote, List.nil_append] at hbody
  have hbytes : asBytes src = p ++ [0x22] ++ (w ++ 0x22 :: tail) := by
    rw [h]
    simp
  rw [← hbytes, List.length_append, List.length_singleton] at hbody
  show scanQuote (asBytes src) out p.length = _
  rw [scanQuote, hbody]
  simp [Bind.bind, Except.bind, Pure.pure, Except.pure, lastIsString_last]
  omega

/-- A string whose body runs to the end of the source is reported unterminated at its opening quote.
-/
theorem scanToken_open {w : List UInt8} {s : List Char} (hw : StringBody w s)
    (h : asBytes src = p ++ 0x22 :: w) (hout : ∀ t ∈ out, t.offset < p.length) :
    scanToken src out p.length 0x22 =
      .error (.error (.parse p.length "unterminated string literal")) := by
  have hbody := scanString_body p.length out hw [] (p ++ [0x22]) []
  rw [List.append_nil, List.append_nil, scanString_end] at hbody
  have hbytes : asBytes src = p ++ [0x22] ++ w := by
    rw [h]
    simp
  rw [← hbytes, List.length_append, List.length_singleton] at hbody
  show scanQuote (asBytes src) out p.length = _
  rw [scanQuote, hbody]
  simp [Bind.bind, Except.bind, lastIsString_before hout]

/-- A string that ends in a backslash is reported as an unterminated escape. -/
theorem scanToken_openEscape {w : List UInt8} {s : List Char} (hw : StringBody w s)
    (h : asBytes src = p ++ 0x22 :: (w ++ [0x5C])) :
    scanToken src out p.length 0x22 =
      .error (.error (.parse p.length "unterminated escape")) := by
  have hbody := scanString_body p.length out hw [] (p ++ [0x22]) [0x5C]
  rw [scanString_openEscape] at hbody
  have hbytes : asBytes src = p ++ [0x22] ++ (w ++ [0x5C]) := by
    rw [h]
    simp
  rw [← hbytes, List.length_append, List.length_singleton] at hbody
  show scanQuote (asBytes src) out p.length = _
  rw [scanQuote, hbody]
  rfl

/-- A byte that stands for nothing by itself. -/
theorem scanToken_other {b : UInt8} (hs : symbol b = none) (ho : startsOperator b = false)
    (i : ℕ) :
    scanToken src out i b =
      if startsNumber b then
        (scanNumber (asBytes src) b i).bind fun j => (slice src i j).bind fun text =>
          (parseF64 text).elim
            (.error (.error (.parse i ("invalid number `" ++ sliceText text ++ "`"))))
            fun x => .ok (out ++ [⟨.number x, i⟩], j)
      else if startsWord b then
        (skipWhile (asBytes src) isIdentByte (i + 1)).bind fun j =>
          (slice src i j).bind fun ident =>
            .ok (out ++ [⟨wordToken (sliceText ident), i⟩], j)
      else .error (.error (.parse i ("unexpected character `" ++ (toChar b).toString ++ "`"))) := by
  have hne : ∀ c : UInt8, toChar b = toChar c → b = c := fun c h => toChar_inj h
  unfold scanToken
  dsimp only
  split
  -- the two sides are the same nest of branches, with `do` written out on one of them
  case h_13 =>
    show (if startsNumber b = true then _ else _) = _
    congr 1
    simp only [Bind.bind, Except.bind]
    cases scanNumber (asBytes src) b i with
    | error e => rfl
    | ok j =>
      dsimp only
      cases slice src i j with
      | error e => rfl
      | ok text => cases hx : parseF64 text <;> simp only [hx] <;> rfl
  case h_1 h => cases hne 0x2E h; cases hs
  case h_2 h => cases hne 0x2C h; cases hs
  case h_3 h => cases hne 0x2A h; cases hs
  case h_4 h => cases hne 0x28 h; cases hs
  case h_5 h => cases hne 0x29 h; cases hs
  case h_6 h => cases hne 0x5B h; cases hs
  case h_7 h => cases hne 0x5D h; cases hs
  case h_8 h => cases hne 0x3D h; cases hs
  case h_9 h => cases hne 0x21 h; cases ho
  case h_10 h => cases hne 0x3C h; cases ho
  case h_11 h => cases hne 0x3E h; cases ho
  case h_12 h => cases hne 0x22 h; cases ho

/-- The digits and points of a number, with its first byte. -/
theorem skip_mantissa {b : UInt8} (hb : startsNumber b = true) {m rest : List UInt8}
    (hm : ∀ c ∈ m, isDecimalByte c = true) (hrest : EndsBefore isDecimalByte rest) :
    skipWhile (p ++ (b :: m ++ rest)) isDecimalByte
      (if b == 0x2D || b == 0x2B then p.length + 1 else p.length) =
        .ok (p ++ (b :: m)).length := by
  -- a sign is passed over before the loop, a digit in it
  by_cases hsign : (b == 0x2D || b == 0x2B) = true
  · have hskip := skipWhile_append isDecimalByte (p ++ [b]) hm hrest
    rw [if_pos hsign]
    simp only [List.append_assoc, List.singleton_append, List.length_append,
      List.length_singleton] at hskip
    rw [List.cons_append, hskip, List.length_append, List.length_cons]
    congr 1
    omega
  · have hdigit : isAsciiDigit b = true := by
      simp only [startsNumber, Bool.or_eq_true] at hb hsign
      tauto
    have hall : ∀ c ∈ b :: m, isDecimalByte c = true := by
      intro c hc
      obtain rfl | hc := List.mem_cons.mp hc
      · simp [isDecimalByte, hdigit]
      · exact hm c hc
    rw [if_neg hsign, skipWhile_append isDecimalByte p hall hrest, List.length_append]

/-- The index scan of an exponent covers what the grammar calls one. -/
theorem scanNumber_exponent {q w tail : List UInt8} (h : ExponentTail w tail) :
    ((skipIf (q ++ (w ++ tail)) isSign q.length).bind fun j =>
      skipWhile (q ++ (w ++ tail)) isAsciiDigit j) = .ok (q ++ w).length := by
  -- after the mark the source looks for a sign and then for digits
  cases h with
  | signed b digits tail hb hdigits htail =>
    have hskip := skipWhile_append isAsciiDigit (q ++ [b]) hdigits htail
    simp only [List.append_assoc, List.singleton_append, List.length_append,
      List.length_singleton] at hskip
    rw [List.cons_append, skipIf_cons, if_pos hb]
    show skipWhile _ _ _ = _
    rw [hskip, List.length_append, List.length_cons]
    congr 1
    omega
  | unsigned digits tail hdigits htail hsign =>
    have hskip := skipWhile_append isAsciiDigit q hdigits htail
    -- without a sign the position stays where it is
    have hnone : skipIf (q ++ (w ++ tail)) isSign q.length = .ok q.length := by
      cases hw : w ++ tail with
      | nil =>
        rw [List.append_nil]
        exact skipIf_end isSign q
      | cons b rest =>
        have hb : isSign b = false := hsign b (by rw [hw]; rfl)
        rw [skipIf_cons, hb]
        rfl
    rw [hnone]
    show skipWhile _ _ _ = _
    rw [hskip, List.length_append]

/-- The index scan of a number covers what the grammar calls one. -/
theorem scanNumber_eq {b : UInt8} (hb : startsNumber b = true) {w tail : List UInt8}
    (hw : NumberTail w tail) :
    scanNumber (p ++ (b :: w ++ tail)) b p.length = .ok (p ++ (b :: w)).length := by
  have hdecimal : (fun b => isAsciiDigit b || b == 0x2E) = isDecimalByte := rfl
  have hmarks : ∀ b : UInt8, (b == 0x65 || b == 0x45) = isExponentMark b := fun _ => rfl
  have hsign : (fun b : UInt8 => b == 0x2B || b == 0x2D) = isSign := rfl
  unfold scanNumber
  simp only [hdecimal, hmarks, hsign, Bind.bind, Except.bind]
  cases hw with
  | plain w tail hm htail hmark =>
    rw [skip_mantissa hb hm htail]
    -- no exponent follows
    cases tail with
    | nil => simp [Pure.pure, Except.pure]
    | cons c tail =>
      have hc : isExponentMark c = false := hmark c rfl
      have hbyte := byteAt_append (p ++ (b :: w)) c tail
      rw [List.append_assoc] at hbyte
      simp only [hbyte, hc]
      simp [Pure.pure, Except.pure]
  | exponent mantissa mark w tail hm hmark hw =>
    have hends : EndsBefore isDecimalByte (mark :: (w ++ tail)) := by
      rintro c ⟨⟩
      have hmark : mark = 0x65 ∨ mark = 0x45 := by simpa [isExponentMark] using hmark
      obtain rfl | rfl := hmark <;> decide
    have hmantissa := skip_mantissa (p := p) hb hm hends
    -- the mark ends the mantissa, and the exponent begins behind it
    have hbyte := byteAt_append (p ++ (b :: mantissa)) mark (w ++ tail)
    have hexponent := scanNumber_exponent (q := p ++ (b :: mantissa) ++ [mark]) hw
    have hlength : (p ++ (b :: mantissa) ++ [mark]).length = (p ++ (b :: mantissa)).length + 1 :=
      List.length_append
    rw [hlength] at hexponent
    simp only [List.append_assoc, List.cons_append, List.nil_append, Except.bind] at *
    rw [hmantissa]
    dsimp only
    rw [if_pos (by simp), hbyte]
    dsimp only
    rw [if_pos hmark]
    exact hexponent

/-- A word ends where a lexeme of one does. -/
theorem skip_word {b : UInt8} {w tail : List UInt8} (hw : ∀ c ∈ w, isIdentByte c = true)
    (htail : EndsBefore isIdentByte tail) :
    skipWhile (p ++ (b :: w ++ tail)) isIdentByte (p.length + 1) = .ok (p ++ (b :: w)).length := by
  have hskip := skipWhile_append isIdentByte (p ++ [b]) hw htail
  simp only [List.append_assoc, List.singleton_append, List.length_append,
    List.length_singleton] at hskip
  rw [List.cons_append, hskip, List.length_append, List.length_cons]
  congr 1
  omega

/-- The arm of a lexeme pushes its token and goes on after it. -/
theorem scanToken_of_lexeme (out : List Spanned) {tok : Tok} {w tail : List UInt8}
    (hw : Lexeme tok w tail)
    (h : asBytes src = p ++ (w ++ tail)) (hp : Str.AsciiEnd p) :
    ∃ b w', w = b :: w' ∧ isAsciiWhitespace b = false ∧
      scanToken src out p.length b = .ok (out ++ [⟨tok, p.length⟩], p.length + w.length) := by
  -- the slice of the source is the lexeme: it begins and ends beside an ASCII byte
  have hslice : slice src p.length (p ++ w).length = .ok w := by
    have hne : w ≠ [] := List.length_pos_iff.mp (lexeme_length_pos hw)
    rw [List.length_append]
    exact slice_append h hp (asciiEnd_append (lexeme_asciiEnd hw) hne)
  -- the source looks one byte ahead for the long operators
  have hnext : ∀ {b : UInt8} {rest : List UInt8}, asBytes src = p ++ b :: rest →
      EndsBefore (· == 0x3D) rest → ¬ (asBytes src)[p.length + 1]? = some 0x3D := by
    intro b rest hbytes hends heq
    have hlast := hends 0x3D ((next_eq_iff hbytes).mp heq)
    cases hlast
  cases hw with
  | symbol b tok tail hb =>
    exact ⟨b, [], rfl, symbol_class b (by rw [hb]; rfl), scanToken_symbol hb p.length⟩
  | ne => exact ⟨0x21, [0x3D], rfl, rfl, if_pos ((next_eq_iff h).mpr rfl)⟩
  | lt tail htail => exact ⟨0x3C, [], rfl, rfl, if_neg (hnext h htail)⟩
  | le => exact ⟨0x3C, [0x3D], rfl, rfl, if_pos ((next_eq_iff h).mpr rfl)⟩
  | gt tail htail => exact ⟨0x3E, [], rfl, rfl, if_neg (hnext h htail)⟩
  | ge => exact ⟨0x3E, [0x3D], rfl, rfl, if_pos ((next_eq_iff h).mpr rfl)⟩
  | string w s tail hbody =>
    refine ⟨0x22, w ++ [0x22], rfl, rfl, ?_⟩
    rw [scanToken_string hbody h]
    simp
  | number b w tail x hb hw hx =>
    obtain ⟨hspace, hs, ho⟩ := startsNumber_class b hb
    refine ⟨b, w, rfl, hspace, ?_⟩
    have hstop := scanNumber_eq (p := p) hb hw
    rw [← h] at hstop
    rw [scanToken_other hs ho, if_pos hb, hstop]
    show (slice src p.length (p ++ b :: w).length).bind _ = _
    rw [hslice]
    show (parseF64 (b :: w)).elim _ _ = _
    rw [hx, List.length_append]
    rfl
  | word b w tail hb hw htail =>
    obtain ⟨hspace, hs, ho, hn⟩ := startsWord_class b hb
    refine ⟨b, w, rfl, hspace, ?_⟩
    have hstop := skip_word (p := p) (b := b) hw htail
    rw [← h] at hstop
    rw [scanToken_other hs ho, hn, if_neg (by simp), if_pos hb, hstop]
    show (slice src p.length (p ++ b :: w).length).bind _ = _
    rw [hslice, List.length_append]
    rfl

/-- The arm of what offends reports it. -/
theorem scanToken_of_offending {bytes : List UInt8} {message : String}
    (hbad : Offending bytes message) (h : asBytes src = p ++ bytes) (hp : Str.AsciiEnd p)
    (hout : ∀ t ∈ out, t.offset < p.length) :
    ∃ b rest, bytes = b :: rest ∧ isAsciiWhitespace b = false ∧
      scanToken src out p.length b = .error (.error (.parse p.length message)) := by
  cases hbad with
  | bang tail htail =>
    refine ⟨0x21, tail, rfl, rfl, if_neg ?_⟩
    intro heq
    have hlast := htail 0x3D ((next_eq_iff h).mp heq)
    cases hlast
  | string w s hw => exact ⟨0x22, w, rfl, rfl, scanToken_open hw h hout⟩
  | escape w s hw => exact ⟨0x22, w ++ [0x5C], rfl, rfl, scanToken_openEscape hw h⟩
  | number b w tail hb hw hx =>
    obtain ⟨hspace, hs, ho⟩ := startsNumber_class b hb
    refine ⟨b, w ++ tail, rfl, hspace, ?_⟩
    -- a number is ASCII, so its slice cannot panic either
    have hbytes : asBytes src = p ++ (b :: w ++ tail) := h
    have hascii : Str.AsciiEnd (b :: w) := by
      apply asciiEnd_of_all
      intro c hc
      obtain rfl | hc := List.mem_cons.mp hc
      · exact ascii_class c (by simp [hb])
      · exact numberTail_ascii hw c hc
    have hstop := scanNumber_eq (p := p) hb hw
    rw [← hbytes] at hstop
    rw [scanToken_other hs ho, if_pos hb, hstop]
    show (slice src p.length (p ++ b :: w).length).bind _ = _
    rw [List.length_append, slice_append hbytes hp (asciiEnd_append hascii (by simp))]
    show (parseF64 (b :: w)).elim _ _ = _
    rw [hx]
    rfl
  | byte b tail hspace hs ho hn hw =>
    refine ⟨b, tail, rfl, hspace, ?_⟩
    rw [scanToken_other hs ho, hn, hw]
    rfl

/-! ### The loop -/

theorem scanLoop_space {b : UInt8} {rest : List UInt8} (h : asBytes src = p ++ b :: rest)
    (hb : isAsciiWhitespace b = true) (rounds : ℕ) :
    scanLoop src (rounds + 1) out p.length = scanLoop src rounds out (p.length + 1) := by
  have hbyte : byteAt (asBytes src) p.length = .ok b := by
    rw [h]
    exact byteAt_append p b rest
  rw [scanLoop, if_pos (by rw [h]; simp), hbyte]
  exact if_pos hb

theorem scanLoop_token {b : UInt8} {rest : List UInt8} (h : asBytes src = p ++ b :: rest)
    (hb : isAsciiWhitespace b = false) {out' : List Spanned} {j : ℕ}
    (htok : scanToken src out p.length b = .ok (out', j)) (rounds : ℕ) :
    scanLoop src (rounds + 1) out p.length = scanLoop src rounds out' j := by
  have hbyte : byteAt (asBytes src) p.length = .ok b := by
    rw [h]
    exact byteAt_append p b rest
  rw [scanLoop, if_pos (by rw [h]; simp), hbyte]
  dsimp only
  rw [if_neg (by simp [hb]), htok]

theorem scanLoop_error {b : UInt8} {rest : List UInt8} (h : asBytes src = p ++ b :: rest)
    (hb : isAsciiWhitespace b = false) {e : Halt} (htok : scanToken src out p.length b = .error e)
    (rounds : ℕ) : scanLoop src (rounds + 1) out p.length = some (.error e) := by
  have hbyte : byteAt (asBytes src) p.length = .ok b := by
    rw [h]
    exact byteAt_append p b rest
  rw [scanLoop, if_pos (by rw [h]; simp), hbyte]
  dsimp only
  rw [if_neg (by simp [hb]), htok]

/-- The loop goes along a reading, in at most as many rounds as it has bytes. -/
theorem scanLoop_of_reading {n m : ℕ} {bytes tail : List UInt8} {ts : List Spanned}
    (h : Reading n bytes ts m tail) {p : List UInt8} (hbytes : asBytes src = p ++ bytes)
    (hn : p.length = n) (hp : Str.AsciiEnd p) (out : List Spanned) :
    ∃ k ≤ m - n, ∀ rounds,
      scanLoop src (rounds + k) out n = scanLoop src rounds (out ++ ts) m := by
  -- induction on the reading; each white space and each token is one round
  induction h generalizing p out with
  | stop =>
    refine ⟨0, Nat.zero_le _, ?_⟩
    intro rounds
    rw [List.append_nil]
    rfl
  | @space n m b rest tail ts hb hrest ih =>
    have hascii : Str.AsciiEnd [b] := asciiEnd_of_all (by simp [ascii_class b (by simp [hb])])
    obtain ⟨k, hk, hloop⟩ := ih (p := p ++ [b]) (by rw [hbytes]; simp) (by simp [hn])
      (asciiEnd_append hascii (by simp)) out
    have hle := hrest.le
    refine ⟨k + 1, by omega, ?_⟩
    intro rounds
    rw [← hloop rounds, ← hn, ← Nat.add_assoc, scanLoop_space hbytes hb]
  | @token n m tok w rest tail ts hw hrest ih =>
    obtain ⟨b, w', rfl, hb, htok⟩ := scanToken_of_lexeme out hw hbytes hp
    obtain ⟨k, hk, hloop⟩ := ih (p := p ++ b :: w') (by rw [hbytes]; simp)
      (by rw [List.length_append, hn]) (asciiEnd_append (lexeme_asciiEnd hw) (by simp))
      (out ++ [⟨tok, n⟩])
    have hle := hrest.le
    rw [List.length_cons] at hle hk
    refine ⟨k + 1, by omega, ?_⟩
    intro rounds
    -- the loop is at the byte after the token
    rw [List.append_assoc, List.singleton_append] at hloop
    rw [← hloop rounds, ← hn, ← Nat.add_assoc, scanLoop_token hbytes hb htok]

end

/-- With as many rounds as the text has bytes and one, the loop has ended, and with what the lexer
returns or with its error. -/
theorem scan_eq {src : String} {rounds : ℕ} (h : (asBytes src).length < rounds) :
    scan src rounds = some ((tokenize src).mapError .error) := by
  have hstart : Str.AsciiEnd [] := fun b hb => by cases hb
  obtain ⟨ts, hts⟩ | ⟨ts, m, tail, message, hts, hbad⟩ := exists_reading 0 (asBytes src)
  · obtain ⟨k, hk, hloop⟩ := scanLoop_of_reading hts rfl rfl hstart []
    obtain ⟨j, rfl⟩ : ∃ j, rounds = j + 1 + k := ⟨rounds - k - 1, by omega⟩
    rw [scan, hloop, scanLoop_end (by omega), tokenize_of_reading hts]
    rfl
  · obtain ⟨k, hk, hloop⟩ := scanLoop_of_reading hts rfl rfl hstart []
    have hlength := hts.length_eq
    obtain ⟨j, rfl⟩ : ∃ j, rounds = j + 1 + k := ⟨rounds - k - 1, by omega⟩
    obtain ⟨p, hsplit, hm, hp⟩ := hts.asciiEnd
    rw [Nat.zero_add] at hm
    subst hm
    have hout : ∀ t ∈ [] ++ ts, t.offset < p.length := fun t ht => (hts.offset_mem t ht).2
    obtain ⟨b, rest, rfl, hb, htok⟩ := scanToken_of_offending hbad hsplit hp hout
    rw [scan, hloop, scanLoop_error hsplit hb htok, tokenize_of_offending hts hbad]
    rfl

/-- **The lexer is total and lossless.**  It ends without a panic; what it returns is a reading of
the whole text, at growing offsets that are character boundaries; what it reports stands inside the
text, where a reading of what comes before stops; and a string or an escape that the text ends in is
reported. -/
theorem tokenize_lossless (src : String) :
    (∀ rounds, (asBytes src).length < rounds →
      scan src rounds = some ((tokenize src).mapError .error)) ∧
    (∀ ts, tokenize src = .ok ts → Reading 0 (asBytes src) ts (asBytes src).length [] ∧
      (ts.Pairwise fun t u => t.offset < u.offset) ∧
      ∀ t ∈ ts, (String.Pos.Raw.mk t.offset).IsValid src) ∧
    (∀ e, tokenize src = .error e → ∃ ts m tail message, e = .parse m message ∧
      m < (asBytes src).length ∧ (String.Pos.Raw.mk m).IsValid src ∧
      Reading 0 (asBytes src) ts m tail ∧ Offending tail message) ∧
    ∀ ts m body s, Reading 0 (asBytes src) ts m (0x22 :: body) →
      (StringBody body s → tokenize src = .error (.parse m "unterminated string literal")) ∧
      ∀ w, StringBody w s → body = w ++ [0x5C] →
        tokenize src = .error (.parse m "unterminated escape") := by
  -- total; lossless; where and why it fails; and what is open to the end
  refine ⟨?_, ?_, ?_, ?_⟩
  · intro rounds h
    exact scan_eq h
  · intro ts h
    have hread := tokenize_eq_ok_iff.mp h
    refine ⟨hread, hread.pairwise, ?_⟩
    intro t ht
    obtain ⟨us, vs, rfl⟩ := List.append_of_mem ht
    obtain ⟨w, rest, hbefore, -, -⟩ := hread.split
    exact hbefore.isValid
  · intro e h
    obtain ⟨ts, m, tail, message, hread, hbad, rfl⟩ := tokenize_eq_error_iff.mp h
    obtain ⟨b, rest, rfl, -⟩ := lexToken_of_offending m hbad
    have hlength := hread.length_eq
    rw [List.length_cons] at hlength
    exact ⟨ts, m, _, message, rfl, by omega, hread.isValid, hread, hbad⟩
  · intro ts m body s hread
    constructor
    · intro hbody
      exact tokenize_of_offending hread (Offending.string body s hbody)
    · rintro w hw rfl
      exact tokenize_of_offending hread (Offending.escape w s hw)

end Caql

end Boardwalk
