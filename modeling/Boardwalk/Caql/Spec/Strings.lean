import Boardwalk.Caql.Spec.Predictive
import Boardwalk.Caql.Spec.Tokenize
import Boardwalk.Query.Eval

/-!
# String literals

Writing a text as a literal (`quote`) and reading it back.  The lexer turns every byte into a
character (`readBack`), so that a text comes back exactly when it is ASCII, and a query that compares
a field with a literal finds its value in the same case (`quote_iff`).
-/

namespace Boardwalk

namespace Str

def IsAscii (s : String) : Prop := ∀ c ∈ s.toList, c.toNat < 128

end Str

/-! ### Targets -/

/-- The value `v` at the path `segs`, and nothing else. -/
def nest : List String → Json → Json
  | [], v => v
  | seg :: segs, v => .object [(seg, nest segs v)]

theorem lookupPath_nest (segs : List String) (v : Json) :
    lookupPath segs (nest segs v) = some v := by
  induction segs with
  | nil => rfl
  | cons seg segs ih =>
    have hget : (nest (seg :: segs) v).get seg = some (nest segs v) := by
      simp [nest, Json.get, Json.lookupKey]
    rw [lookupPath, hget]
    exact ih

/-- A comparison with a string is true of the values that are that string. -/
theorem matches_string_iff (path : FieldPath) (s : String) (t : Json) :
    ({ predicate := .compare path .eq (.string s) } : Query).matches t = .ok true ↔
      lookup path t = some (.string s) := by
  rw [Query.matches, evalPred, Except.ok.injEq]
  cases lookup path t with
  | none => simp [compareWith]
  | some v => cases v <;> simp [compareWith, jsonEq]

namespace Caql

/-! ### Writing -/

/-- A backslash before a quote and before a backslash. -/
def escapeChar (c : Char) : List Char := if c = '"' ∨ c = '\\' then ['\\', c] else [c]

/-- The text as a string literal. -/
def quote (s : String) : String := "\"" ++ String.ofList (s.toList.flatMap escapeChar) ++ "\""

/-- What the lexer makes of the text: a character of every byte. -/
def readBack (s : String) : String := String.ofList ((asBytes s).map toChar)

theorem toChar_of_lt {c : Char} (h : c.toNat < 128) : toChar (UInt8.ofNat c.toNat) = c := by
  have hnat : (UInt8.ofNat c.toNat).toNat = c.toNat := by
    rw [UInt8.toNat_ofNat']
    omega
  rw [toChar, hnat, Char.ofNat_toNat]

/-- Bytes outside ASCII go through one by one. -/
theorem stringBody_plain {w w' : List UInt8} {s : List Char} (hw : ∀ b ∈ w, 128 ≤ b)
    (h : StringBody w' s) : StringBody (w ++ w') (w.map toChar ++ s) := by
  induction w with
  | nil => exact h
  | cons b w ih =>
    have hb : 128 ≤ b := hw b List.mem_cons_self
    refine StringBody.plain b _ _ ?_ ?_ (ih fun c hc => hw c (List.mem_cons_of_mem _ hc))
    · rintro rfl
      exact absurd hb (by decide)
    · rintro rfl
      exact absurd hb (by decide)

/-- The body of a literal is the escaped text. -/
theorem stringBody_escape (cs : List Char) :
    StringBody ((cs.flatMap escapeChar).flatMap String.utf8EncodeChar)
      ((cs.flatMap String.utf8EncodeChar).map toChar) := by
  -- one character after another
  induction cs with
  | nil => exact StringBody.nil
  | cons c cs ih =>
    rw [List.flatMap_cons, List.flatMap_append, List.flatMap_cons, List.map_append]
    -- only the quote and the backslash are escaped
    by_cases hescape : c = '"' ∨ c = '\\'
    · obtain rfl | rfl := hescape
      · exact StringBody.escape 0x22 _ _ ih
      · exact StringBody.escape 0x5C _ _ ih
    · rw [escapeChar, if_neg hescape, List.flatMap_singleton]
      -- an ASCII character is one byte, and the bytes of any other one are not special
      by_cases hc : c.toNat < 128
      · rw [Str.utf8EncodeChar_of_lt hc]
        have hback := toChar_of_lt hc
        refine StringBody.plain _ _ _ ?_ ?_ ih
        · intro hb
          rw [hb] at hback
          exact hescape (Or.inl hback.symm)
        · intro hb
          rw [hb] at hback
          exact hescape (Or.inr hback.symm)
      · exact stringBody_plain (fun b hb => Str.le_of_mem_utf8EncodeChar (by omega) hb) ih

/-- A literal is the lexeme of what the lexer makes of its text. -/
theorem lexeme_quote (s : String) (tail : List UInt8) :
    Lexeme (.string (readBack s)) (asBytes (quote s)) tail := by
  have hbytes : asBytes (quote s) =
      0x22 :: ((s.toList.flatMap escapeChar).flatMap String.utf8EncodeChar ++ [0x22]) := by
    have hquote : asBytes "\"" = [0x22] := rfl
    have hescaped : asBytes (.ofList (s.toList.flatMap escapeChar)) =
        (s.toList.flatMap escapeChar).flatMap String.utf8EncodeChar := by
      rw [asBytes, Str.toUTF8_toList, String.toList_ofList]
    rw [quote, asBytes_append, asBytes_append, hquote, hescaped]
    rfl
  rw [hbytes, readBack, asBytes, Str.toUTF8_toList]
  exact Lexeme.string _ _ tail (stringBody_escape s.toList)

theorem tokenize_quote (s : String) :
    tokenize (quote s) = .ok [⟨.string (readBack s), 0⟩] := by
  have h := Reading.token (n := 0) (lexeme_quote s []) (Reading.stop _ [])
  rw [List.append_nil] at h
  exact tokenize_of_reading h

/-! ### Reading back -/

/-- Text is at most as long as its UTF-8 bytes, and as long only when it is ASCII. -/
theorem length_flatMap_utf8 (cs : List Char) :
    cs.length ≤ (cs.flatMap String.utf8EncodeChar).length ∧
      ((cs.flatMap String.utf8EncodeChar).length = cs.length → ∀ c ∈ cs, c.toNat < 128) := by
  induction cs with
  | nil => simp
  | cons c cs ih =>
    obtain ⟨hle, hascii⟩ := ih
    have hsize : 0 < c.utf8Size := c.utf8Size_pos
    rw [List.flatMap_cons, List.length_append, String.length_utf8EncodeChar, List.length_cons]
    refine ⟨by omega, ?_⟩
    intro heq d hd
    obtain rfl | hd := List.mem_cons.mp hd
    · have hone : d.utf8Size = 1 := by omega
      rw [Char.utf8Size_eq_one_iff, UInt32.le_iff_toNat_le, Char.toNat_val] at hone
      exact Nat.lt_succ_of_le hone
    · exact hascii (by omega) d hd

/-- A text comes back when it is ASCII, and no other does. -/
theorem readBack_eq_iff {s : String} : readBack s = s ↔ Str.IsAscii s := by
  rw [readBack, asBytes, Str.toUTF8_toList]
  constructor
  · intro h
    have hlist := congrArg String.toList h
    rw [String.toList_ofList] at hlist
    have hlength := congrArg List.length hlist
    rw [List.length_map] at hlength
    exact (length_flatMap_utf8 s.toList).2 hlength
  · intro h
    have hmap : ∀ cs : List Char, (∀ c ∈ cs, c.toNat < 128) →
        (cs.flatMap String.utf8EncodeChar).map toChar = cs := by
      intro cs hcs
      induction cs with
      | nil => rfl
      | cons c cs ih =>
        have hc : c.toNat < 128 := hcs c List.mem_cons_self
        rw [List.flatMap_cons, Str.utf8EncodeChar_of_lt hc, List.singleton_append, List.map_cons,
          toChar_of_lt hc, ih fun d hd => hcs d (List.mem_cons_of_mem _ hd)]
    rw [hmap s.toList h, String.ofList_toList]

/-! ### Comparisons with a literal -/

/-- The text spells the path. -/
def Spells (p : String) (path : FieldPath) : Prop :=
  ∃ ts, tokenize p = .ok ts ∧ PathDerives (toks ts) path

/-- The query that compares what the text spells with a literal. -/
def whereEq (p v : String) : String := "where " ++ p ++ " = " ++ quote v

/-- The text is a query that matches the targets with `v` at the path and no others. -/
def Selects (input : String) (path : FieldPath) (v : String) : Prop :=
  ∃ q, parse input = .ok q ∧ ∀ t, q.matches t = .ok true ↔ lookup path t = some (.string v)

/-- The query built from a path and a quoted value parses to the comparison with what the lexer
reads back. -/
theorem parse_whereEq {p : String} {path : FieldPath} (hp : Spells p path) (v : String) :
    parse (whereEq p v) =
      .ok { predicate := .compare path .eq (.string (readBack v)) } := by
  obtain ⟨ts, hts, hpath⟩ := hp
  have hspace : isAsciiWhitespace 0x20 = true := rfl
  have hwhere : Lexeme .where (asBytes "where") (0x20 :: (asBytes p ++ 0x20 ::
      ([0x3D] ++ 0x20 :: (asBytes (quote v) ++ [])))) := by
    have hword : Tok.where = wordToken (sliceText (asBytes "where")) := by decide
    rw [hword]
    refine Lexeme.word 0x77 [0x68, 0x65, 0x72, 0x65] _ (by decide) (by decide +kernel) ?_
    rintro b ⟨⟩
    exact space_class.1
  have hus := (tokenize_eq_ok_iff.mp hts).before_space
    (asBytes "where" ++ [0x20]).length ([0x3D] ++ 0x20 :: (asBytes (quote v) ++ []))
  -- lexeme by lexeme: `where`, the path, `=`, the quoted text
  have heq : Lexeme .eq [0x3D] (0x20 :: (asBytes (quote v) ++ [])) := Lexeme.symbol _ _ _ rfl
  have hquote := Reading.token (n := (asBytes "where" ++ [0x20]).length + (asBytes p).length + 3)
    (lexeme_quote v []) (Reading.stop _ [])
  have hreading := Reading.token (n := 0) hwhere (Reading.space hspace
    (hus.trans (Reading.space hspace (Reading.token heq (Reading.space hspace hquote)))))
  -- together they are the text
  have hbytes : asBytes "where" ++ (0x20 :: (asBytes p ++ 0x20 ::
      ([0x3D] ++ 0x20 :: (asBytes (quote v) ++ [])))) = asBytes (whereEq p v) := by
    have hkeyword : asBytes "where " = asBytes "where" ++ [0x20] := rfl
    have hequals : asBytes " = " = [0x20, 0x3D, 0x20] := rfl
    rw [whereEq, asBytes_append, asBytes_append, asBytes_append, hkeyword, hequals]
    simp
  rw [hbytes] at hreading
  apply parse_eq_ok (tokenize_of_reading hreading)
  have hquery := QueryDerives.of_compare hpath OpDerives.eq (ValueDerives.string (readBack v))
  simpa [toks, Spanned.shift, Function.comp_def] using hquery

/-- That query selects what it was built for exactly when the value reads back as itself. -/
theorem selects_whereEq_iff {p : String} {path : FieldPath} (hp : Spells p path) (v : String) :
    Selects (whereEq p v) path v ↔ readBack v = v := by
  have hparse := parse_whereEq hp v
  constructor
  · rintro ⟨q, hq, hmatches⟩
    cases hparse.symm.trans hq
    have hv : lookup path (nest path.segments (.string v)) = some (.string v) :=
      lookupPath_nest path.segments (.string v)
    have hback := (matches_string_iff path (readBack v) _).mp ((hmatches _).mpr hv)
    exact (Json.string.inj (Option.some.inj (hv.symm.trans hback))).symm
  · intro hv
    refine ⟨_, hparse, ?_⟩
    intro t
    rw [matches_string_iff, hv]

/-- **String literals round-trip** exactly for ASCII texts: they come back from the lexer, and a
query for one matches the targets that have it at the path. -/
theorem quote_iff (s : String) :
    (tokenize (quote s) = .ok [⟨.string s, 0⟩] ↔ Str.IsAscii s) ∧
      ∀ p path, Spells p path → (Selects (whereEq p s) path s ↔ Str.IsAscii s) := by
  constructor
  · rw [tokenize_quote, ← readBack_eq_iff]
    simp
  · intro p path hp
    rw [selects_whereEq_iff hp, readBack_eq_iff]

theorem spells_kind : Spells "kind" ⟨["kind"]⟩ := by
  have hts : tokenize "kind" = .ok [⟨.ident "kind", 0⟩] := by decide +kernel
  exact ⟨_, hts, PathDerives.mk "kind" []⟩

theorem quote_iff_led :
    (tokenize (quote "led") = .ok [⟨.string "led", 0⟩] ↔ Str.IsAscii "led") ∧
      (Selects (whereEq "kind" "led") ⟨["kind"]⟩ "led" ↔ Str.IsAscii "led") :=
  ⟨(quote_iff "led").1, (quote_iff "led").2 "kind" _ spells_kind⟩

/-- The two bytes of `é` come back as two characters, and a query for it misses it. -/
theorem quote_acute : tokenize (quote "é") = .ok [⟨.string "Ã©", 0⟩] ∧
    tokenize (quote "é") ≠ .ok [⟨.string "é", 0⟩] ∧
    ¬ Selects (whereEq "kind" "é") ⟨["kind"]⟩ "é" := by
  have hback : readBack "é" = "Ã©" := by decide
  have hne : readBack "é" ≠ "é" := by decide
  refine ⟨by rw [tokenize_quote, hback], ?_, ?_⟩
  · rw [tokenize_quote]
    simpa using hne
  · rw [selects_whereEq_iff spells_kind]
    exact hne

end Caql

end Boardwalk
