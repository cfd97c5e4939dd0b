import Boardwalk.Caql.Scan
import Boardwalk.Caql.Spec.Lexeme

/-!
# What the CaQL lexer reads

A list of tokens with their offsets is a reading of some bytes when these are the lexemes of the
tokens, at their offsets, with whitespace between them (`Reading`).  Every input has one reading, of
all of it or up to what offends, and that is what the lexer returns or where it reports an error
(`tokenize_eq_ok_iff`, `tokenize_eq_error_iff`).
-/

namespace Boardwalk

namespace Caql

/-- From the offset `n` on, the bytes are the lexemes of the tokens and whitespace up to the offset
`m`, and what is left of them there. -/
inductive Reading : ℕ → List UInt8 → List Spanned → ℕ → List UInt8 → Prop where
  | stop (n : ℕ) (tail : List UInt8) : Reading n tail [] n tail
  | space {n m : ℕ} {b : UInt8} {rest tail : List UInt8} {ts : List Spanned} :
    isAsciiWhitespace b = true → Reading (n + 1) rest ts m tail →
    Reading n (b :: rest) ts m tail
  | token {n m : ℕ} {tok : Tok} {w rest tail : List UInt8} {ts : List Spanned} :
    Lexeme tok w rest → Reading (n + w.length) rest ts m tail →
    Reading n (w ++ rest) (⟨tok, n⟩ :: ts) m tail

theorem Reading.trans {n m k : ℕ} {bytes rest tail : List UInt8} {ts us : List Spanned}
    (h : Reading n bytes ts m rest) (h' : Reading m rest us k tail) :
    Reading n bytes (ts ++ us) k tail := by
  induction h with
  | stop => exact h'
  | space hb _ ih => exact Reading.space hb (ih h')
  | token hw _ ih => exact Reading.token hw (ih h')

/-! ### The lexer -/

theorem tokenizeFrom_space (len : ℕ) {b : UInt8} (hb : isAsciiWhitespace b = true)
    (rest : List UInt8) : tokenizeFrom len (b :: rest) = tokenizeFrom len rest := by
  rw [tokenizeFrom, if_pos hb]

/-- One token read puts it, with its offset, before the tokens of the rest. -/
theorem tokenizeFrom_token (len : ℕ) {b : UInt8} {rest rest' : List UInt8} {tok : Tok}
    (hb : isAsciiWhitespace b = false)
    (h : lexToken (len - (b :: rest).length) b rest = .ok (tok, rest')) :
    tokenizeFrom len (b :: rest) =
      (tokenizeFrom len rest').map (⟨tok, len - (b :: rest).length⟩ :: ·) := by
  rw [tokenizeFrom, hb]
  simp only [Bool.false_eq_true, if_false]
  split
  · rename_i e he
    rw [h] at he
    cases he
  · rename_i tok' rest'' hok
    rw [h] at hok
    cases hok
    cases tokenizeFrom len rest' <;> rfl

/-- An error at one token is the error of the whole. -/
theorem tokenizeFrom_error (len : ℕ) {b : UInt8} {rest : List UInt8} {e : QueryError}
    (hb : isAsciiWhitespace b = false)
    (h : lexToken (len - (b :: rest).length) b rest = .error e) :
    tokenizeFrom len (b :: rest) = .error e := by
  rw [tokenizeFrom, hb]
  simp only [Bool.false_eq_true, if_false]
  split
  · rename_i e' he
    rw [h] at he
    cases he
    rfl
  · rename_i tok rest' hok
    rw [h] at hok
    cases hok

/-- The lexer reads what has a reading. -/
theorem tokenizeFrom_of_reading {len n m : ℕ} {bytes tail : List UInt8} {ts : List Spanned}
    (h : Reading n bytes ts m tail) (hlen : n + bytes.length = len) :
    tokenizeFrom len bytes = (tokenizeFrom len tail).map (ts ++ ·) := by
  induction h with
  | stop n tail => cases tokenizeFrom len tail <;> rfl
  | space hb _ ih =>
    rw [tokenizeFrom_space len hb]
    apply ih
    rw [List.length_cons] at hlen
    omega
  | @token n m tok w rest tail ts hw _ ih =>
    obtain ⟨b, w', rfl, hb, htok⟩ := lexToken_of_lexeme n hw
    rw [List.cons_append, List.length_cons, List.length_append] at hlen
    have hstart : len - (b :: (w' ++ rest)).length = n := by
      rw [List.length_cons, List.length_append]
      omega
    rw [← hstart] at htok
    have hrest := ih (by rw [List.length_cons]; omega)
    rw [List.cons_append, tokenizeFrom_token len hb htok, hrest, hstart]
    cases tokenizeFrom len tail <;> rfl

theorem tokenizeFrom_of_offending {len n : ℕ} {bytes : List UInt8} {message : String}
    (h : Offending bytes message) (hlen : n + bytes.length = len) :
    tokenizeFrom len bytes = .error (.parse n message) := by
  obtain ⟨b, rest, rfl, hb, hbad⟩ := lexToken_of_offending n h
  apply tokenizeFrom_error len hb
  rw [show len - (b :: rest).length = n by omega]
  exact hbad

/-- Every input can be read to its end or up to something that offends. -/
theorem exists_reading (n : ℕ) (bytes : List UInt8) :
    (∃ ts, Reading n bytes ts (n + bytes.length) []) ∨
      ∃ ts m tail message, Reading n bytes ts m tail ∧ Offending tail message := by
  -- a lexeme has at least one byte, so the rest is shorter
  induction hk : bytes.length using Nat.strong_induction_on generalizing n bytes with
  | _ k ih =>
  subst hk
  cases bytes with
  | nil => exact Or.inl ⟨[], Reading.stop n []⟩
  | cons b rest =>
    by_cases hb : isAsciiWhitespace b = true
    · obtain ⟨ts, hts⟩ | ⟨ts, m, tail, message, hts, hbad⟩ :=
        ih rest.length (by simp) (n + 1) rest rfl
      · rw [Nat.add_assoc, Nat.add_comm 1] at hts
        exact Or.inl ⟨ts, Reading.space hb hts⟩
      · exact Or.inr ⟨ts, m, tail, message, Reading.space hb hts, hbad⟩
    · have hb : isAsciiWhitespace b = false := Bool.not_eq_true _ ▸ hb
      -- what starts here is a lexeme, or there is none
      obtain ⟨tok, w, rest', hsplit, hw⟩ | ⟨message, hbad⟩ := lexeme_or_offending hb rest
      · have hpos : 0 < w.length := by
          obtain ⟨c, w', rfl, -⟩ := lexToken_of_lexeme n hw
          simp
        have hlen := congrArg List.length hsplit
        rw [List.length_append] at hlen
        rw [hsplit]
        obtain ⟨ts, hts⟩ | ⟨ts, m, tail, message, hts, hbad⟩ :=
          ih rest'.length (by omega) (n + w.length) rest' rfl
        · rw [Nat.add_assoc, ← List.length_append] at hts
          exact Or.inl ⟨_, Reading.token hw hts⟩
        · exact Or.inr ⟨_, m, tail, message, Reading.token hw hts, hbad⟩
      · exact Or.inr ⟨[], n, _, message, Reading.stop n _, hbad⟩

/-! ### Reading on -/

/-- A space is no byte of a word or a number, and no `=`. -/
theorem space_class : isIdentByte 0x20 = false ∧ isDecimalByte 0x20 = false ∧
    isExponentMark 0x20 = false ∧ isAsciiDigit 0x20 = false ∧ isSign 0x20 = false := by
  decide

theorem endsBefore_space {p : UInt8 → Bool} (hp : p 0x20 = false) {tail : List UInt8}
    (h : EndsBefore p tail) (rest : List UInt8) : EndsBefore p (tail ++ 0x20 :: rest) := by
  cases tail with
  | nil =>
    rintro b ⟨⟩
    exact hp
  | cons c tail => exact h

section

variable {tail tail' : List UInt8}
  (htails : ∀ p : UInt8 → Bool, p 0x20 = false → EndsBefore p tail → EndsBefore p tail')

include htails

/-- A number that ends before one tail ends before any tail with the same first byte classes. -/
theorem numberTail_before {w : List UInt8} (h : NumberTail w tail) : NumberTail w tail' := by
  obtain ⟨-, hdecimal, hmark, hdigit, hsign⟩ := space_class
  cases h with
  | plain w tail hw htail hmarks =>
    exact NumberTail.plain w tail' hw (htails _ hdecimal htail) (htails _ hmark hmarks)
  | exponent mantissa mark w tail hm hmark hw =>
    refine NumberTail.exponent mantissa mark w tail' hm hmark ?_
    cases hw with
    | signed b digits tail hb hdigits htail =>
      exact ExponentTail.signed b digits tail' hb hdigits (htails _ hdigit htail)
    | unsigned digits tail hdigits htail hsigns =>
      refine ExponentTail.unsigned w tail' hdigits (htails _ hdigit htail) ?_
      cases w with
      | nil => exact htails _ hsign hsigns
      | cons b w => exact hsigns

/-- A lexeme stays one where what follows ends words and numbers as well. -/
theorem lexeme_before {tok : Tok} {w : List UInt8} (h : Lexeme tok w tail) :
    Lexeme tok w tail' := by
  cases h with
  | symbol b tok tail hb => exact Lexeme.symbol b tok tail' hb
  | ne => exact Lexeme.ne tail'
  | lt tail htail => exact Lexeme.lt tail' (htails _ rfl htail)
  | le => exact Lexeme.le tail'
  | gt tail htail => exact Lexeme.gt tail' (htails _ rfl htail)
  | ge => exact Lexeme.ge tail'
  | string w s tail hw => exact Lexeme.string w s tail' hw
  | number b w tail x hb hw hx =>
    exact Lexeme.number b w tail' x hb (numberTail_before htails hw) hx
  | word b w tail hb hw htail =>
    exact Lexeme.word b w tail' hb hw (htails _ space_class.1 htail)

end

theorem lexeme_space {tok : Tok} {w tail : List UInt8} (h : Lexeme tok w tail)
    (rest : List UInt8) : Lexeme tok w (tail ++ 0x20 :: rest) :=
  lexeme_before (fun _ hp htail => endsBefore_space hp htail rest) h

theorem lexeme_alone {tok : Tok} {w tail : List UInt8} (h : Lexeme tok w tail) :
    Lexeme tok w [] := by
  apply lexeme_before _ h
  rintro p - - b ⟨⟩

/-- The token with the offset that it has `k` bytes further on. -/
def Spanned.shift (k : ℕ) (t : Spanned) : Spanned := ⟨t.tok, k + t.offset⟩

/-- A reading stays one when a space and more follow, and may start anywhere. -/
theorem Reading.before_space {n m : ℕ} {bytes : List UInt8} {ts : List Spanned}
    (h : Reading n bytes ts m []) (k : ℕ) (rest : List UInt8) :
    Reading (k + n) (bytes ++ 0x20 :: rest) (ts.map (·.shift k)) (k + m) (0x20 :: rest) := by
  generalize htail : ([] : List UInt8) = tail at h
  induction h with
  | stop =>
    subst htail
    exact Reading.stop _ _
  | space hb _ ih => exact Reading.space hb (ih htail)
  | @token n m tok w rest' tail ts hw _ ih =>
    have hrest := ih htail
    rw [← Nat.add_assoc] at hrest
    rw [List.append_assoc]
    exact Reading.token (lexeme_space hw rest) hrest

/-! ### Texts -/

theorem asBytes_append (s t : String) : asBytes (s ++ t) = asBytes s ++ asBytes t := by
  unfold asBytes
  rw [Str.toUTF8_toList, Str.toUTF8_toList, Str.toUTF8_toList, String.toList_append,
    List.flatMap_append]

theorem tokenize_eq (src : String) :
    tokenize src = tokenizeFrom (asBytes src).length (asBytes src) := rfl

theorem tokenize_of_reading {src : String} {ts : List Spanned} {m : ℕ}
    (h : Reading 0 (asBytes src) ts m []) : tokenize src = .ok ts := by
  rw [tokenize_eq, tokenizeFrom_of_reading h (Nat.zero_add _), tokenizeFrom]
  simp [Except.map]

theorem Reading.length_eq {n m : ℕ} {bytes tail : List UInt8} {ts : List Spanned}
    (h : Reading n bytes ts m tail) : n + bytes.length = m + tail.length := by
  induction h with
  | stop => rfl
  | space _ _ ih =>
    rw [List.length_cons]
    omega
  | token _ _ ih =>
    rw [List.length_append]
    omega

theorem tokenize_of_offending {src : String} {ts : List Spanned} {m : ℕ} {tail : List UInt8}
    {message : String} (h : Reading 0 (asBytes src) ts m tail) (hbad : Offending tail message) :
    tokenize src = .error (.parse m message) := by
  have hlen : m + tail.length = (asBytes src).length := by
    rw [← h.length_eq, Nat.zero_add]
  rw [tokenize_eq, tokenizeFrom_of_reading h (Nat.zero_add _),
    tokenizeFrom_of_offending hbad hlen]
  rfl

/-- The lexer accepts an input that has a reading to its end, and returns that. -/
theorem tokenize_eq_ok_iff {src : String} {ts : List Spanned} :
    tokenize src = .ok ts ↔ Reading 0 (asBytes src) ts (asBytes src).length [] := by
  constructor
  · intro h
    obtain ⟨us, hus⟩ | ⟨us, m, tail, message, hus, hbad⟩ := exists_reading 0 (asBytes src)
    · cases h.symm.trans (tokenize_of_reading hus)
      rwa [Nat.zero_add] at hus
    · cases h.symm.trans (tokenize_of_offending hus hbad)
  · intro h
    exact tokenize_of_reading h

/-- It rejects one that has a reading up to what offends, and reports that. -/
theorem tokenize_eq_error_iff {src : String} {e : QueryError} :
    tokenize src = .error e ↔ ∃ ts m tail message, Reading 0 (asBytes src) ts m tail ∧
      Offending tail message ∧ e = .parse m message := by
  constructor
  · intro h
    obtain ⟨us, hus⟩ | ⟨us, m, tail, message, hus, hbad⟩ := exists_reading 0 (asBytes src)
    · cases h.symm.trans (tokenize_of_reading hus)
    · cases h.symm.trans (tokenize_of_offending hus hbad)
      exact ⟨us, m, tail, message, hus, hbad, rfl⟩
  · rintro ⟨ts, m, tail, message, h, hbad, rfl⟩
    exact tokenize_of_offending h hbad

/-! ### Offsets -/

theorem lexeme_length_pos {tok : Tok} {w tail : List UInt8} (h : Lexeme tok w tail) :
    0 < w.length := by
  cases h <;> simp

theorem Reading.le {n m : ℕ} {bytes tail : List UInt8} {ts : List Spanned}
    (h : Reading n bytes ts m tail) : n ≤ m := by
  induction h with
  | stop => exact Nat.le_refl _
  | space _ _ ih => omega
  | token _ _ ih => omega

/-- The offsets of a reading lie within the bytes it reads. -/
theorem Reading.offset_mem {n m : ℕ} {bytes tail : List UInt8} {ts : List Spanned}
    (h : Reading n bytes ts m tail) : ∀ t ∈ ts, n ≤ t.offset ∧ t.offset < m := by
  induction h with
  | stop => simp
  | space _ _ ih =>
    intro t ht
    have := ih t ht
    omega
  | @token n m tok w rest tail ts hw hrest ih =>
    have hpos := lexeme_length_pos hw
    have hle := hrest.le
    intro t ht
    obtain rfl | ht := List.mem_cons.mp ht
    · show n ≤ n ∧ n < m
      omega
    · have := ih t ht
      omega

/-- The offsets of the tokens grow. -/
theorem Reading.pairwise {n m : ℕ} {bytes tail : List UInt8} {ts : List Spanned}
    (h : Reading n bytes ts m tail) : ts.Pairwise fun t u => t.offset < u.offset := by
  induction h with
  | stop => exact List.Pairwise.nil
  | space _ _ ih => exact ih
  | @token n m tok w rest tail ts hw hrest ih =>
    refine List.Pairwise.cons ?_ ih
    intro u hu
    have hpos := lexeme_length_pos hw
    have := hrest.offset_mem u hu
    show n < u.offset
    omega

/-! ### Character boundaries -/

theorem asciiEnd_append {p w : List UInt8} (hw : Str.AsciiEnd w) (hne : w ≠ []) :
    Str.AsciiEnd (p ++ w) := by
  intro b hb
  rw [List.getLast?_append_of_ne_nil p hne] at hb
  exact hw b hb

theorem asciiEnd_of_all {w : List UInt8} (h : ∀ b ∈ w, b < 128) : Str.AsciiEnd w := by
  intro b hb
  exact h b (List.mem_of_getLast? hb)

theorem ascii_class (b : UInt8) : isAsciiWhitespace b = true ∨ (symbol b).isSome = true ∨
    startsNumber b = true ∨ isIdentByte b = true ∨ isDecimalByte b = true ∨
      isExponentMark b = true ∨ isSign b = true → b < 128 := by
  revert b
  apply Str.forall_byte
  decide +kernel

/-- The bytes of a number are ASCII. -/
theorem numberTail_ascii {w tail : List UInt8} (h : NumberTail w tail) : ∀ b ∈ w, b < 128 := by
  have hdigit : ∀ b, isAsciiDigit b = true → b < 128 := fun b hb =>
    ascii_class b (by simp [isIdentByte, hb])
  have hexponent : ∀ {w tail}, ExponentTail w tail → ∀ b ∈ w, b < 128 := by
    intro w tail h b hb
    cases h with
    | signed c digits tail hc hdigits htail =>
      obtain rfl | hb := List.mem_cons.mp hb
      · exact ascii_class b (by simp [hc])
      · exact hdigit b (hdigits b hb)
    | unsigned digits tail hdigits htail hsign => exact hdigit b (hdigits b hb)
  intro b hb
  cases h with
  | plain mantissa tail hm htail hmark => exact ascii_class b (by simp [hm b hb])
  | exponent mantissa mark w tail hm hmark hw =>
    rw [List.mem_append, List.mem_cons] at hb
    obtain hb | rfl | hb := hb
    · exact ascii_class b (by simp [hm b hb])
    · exact ascii_class b (by simp [hmark])
    · exact hexponent hw b hb

/-- A lexeme ends with an ASCII byte, whatever a string has inside. -/
theorem lexeme_asciiEnd {tok : Tok} {w tail : List UInt8} (h : Lexeme tok w tail) :
    Str.AsciiEnd w := by
  cases h with
  | symbol b tok tail hb =>
    -- only a string can hold other bytes, and it ends with its quote
    apply asciiEnd_of_all
    simp [ascii_class b (by simp [hb])]
  | string w s tail hw =>
    exact asciiEnd_append (p := 0x22 :: w) (asciiEnd_of_all (by simp)) (by simp)
  | number b w tail x hb hw hx =>
    apply asciiEnd_of_all
    intro c hc
    obtain rfl | hc := List.mem_cons.mp hc
    · exact ascii_class c (by simp [hb])
    · exact numberTail_ascii hw c hc
  | word b w tail hb hw htail =>
    have hident : isIdentByte b = true := by
      have hb' : isAsciiAlphabetic b = true ∨ b = 0x5F := by simpa [startsWord] using hb
      obtain hb' | rfl := hb'
      · simp [isIdentByte, hb']
      · rfl
    apply asciiEnd_of_all
    intro c hc
    obtain rfl | hc := List.mem_cons.mp hc
    · exact ascii_class c (by simp [hident])
    · exact ascii_class c (by simp [hw c hc])
  | _ =>
    -- the operators are listed
    apply asciiEnd_of_all
    simp

/-- What has been read ends with an ASCII byte. -/
theorem Reading.asciiEnd {n m : ℕ} {bytes tail : List UInt8} {ts : List Spanned}
    (h : Reading n bytes ts m tail) :
    ∃ p, bytes = p ++ tail ∧ m = n + p.length ∧ Str.AsciiEnd p := by
  induction h with
  | stop => exact ⟨[], rfl, rfl, fun b hb => by cases hb⟩
  | @space n m b rest tail ts hb _ ih =>
    obtain ⟨p, rfl, rfl, hp⟩ := ih
    refine ⟨b :: p, rfl, by rw [List.length_cons]; omega, ?_⟩
    cases p with
    | nil =>
      apply asciiEnd_of_all
      simp [ascii_class b (by simp [hb])]
    | cons c p => exact asciiEnd_append (p := [b]) hp (by simp)
  | @token n m tok w rest tail ts hw _ ih =>
    obtain ⟨p, rfl, rfl, hp⟩ := ih
    refine ⟨w ++ p, by rw [List.append_assoc], by rw [List.length_append]; omega, ?_⟩
    cases p with
    | nil =>
      rw [List.append_nil]
      exact lexeme_asciiEnd hw
    | cons c p => exact asciiEnd_append hp (by simp)

/-- Reading a text stops at a character boundary. -/
theorem Reading.isValid {src : String} {m : ℕ} {tail : List UInt8} {ts : List Spanned}
    (h : Reading 0 (asBytes src) ts m tail) : (String.Pos.Raw.mk m).IsValid src := by
  obtain ⟨p, hsplit, hm, hp⟩ := h.asciiEnd
  rw [hm, Nat.zero_add]
  exact Str.isValid_of_asciiEnd hsplit hp

/-- A reading goes through each of its tokens. -/
theorem Reading.split {n m : ℕ} {bytes tail : List UInt8} {ts us : List Spanned} {t : Spanned}
    (h : Reading n bytes (ts ++ t :: us) m tail) : ∃ w rest,
      Reading n bytes ts t.offset (w ++ rest) ∧ Lexeme t.tok w rest ∧
        Reading (t.offset + w.length) rest us m tail := by
  generalize hall : ts ++ t :: us = all at h
  induction h generalizing ts with
  | stop => simp at hall
  | space hb _ ih =>
    obtain ⟨w, rest, hbefore, hw, hafter⟩ := ih hall
    exact ⟨w, rest, Reading.space hb hbefore, hw, hafter⟩
  | token hv hrest ih =>
    cases ts with
    | nil =>
      cases hall
      exact ⟨_, _, Reading.stop _ _, hv, hrest⟩
    | cons u ts =>
      obtain ⟨rfl, htail⟩ := List.cons.inj hall
      obtain ⟨w, rest, hbefore, hw, hafter⟩ := ih htail
      exact ⟨w, rest, Reading.token hv hbefore, hw, hafter⟩

end Caql

end Boardwalk
