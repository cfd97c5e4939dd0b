import Mathlib.Data.List.DropRight
import Mathlib.Tactic.Common

/-!
# Text

The functions on text that the source takes from its standard library, over Lean's `String`, and the
rules that take a successful parse apart.
-/

namespace Boardwalk

namespace Str

/-- `char::is_whitespace`: the Unicode property `White_Space`. -/
def isWhitespace (c : Char) : Bool :=
  (9 ≤ c.toNat && c.toNat ≤ 13) || c.toNat == 0x20 || c.toNat == 0x85 || c.toNat == 0xA0 ||
    c.toNat == 0x1680 || (0x2000 ≤ c.toNat && c.toNat ≤ 0x200A) || c.toNat == 0x2028 ||
    c.toNat == 0x2029 || c.toNat == 0x202F || c.toNat == 0x205F || c.toNat == 0x3000

/-- `str::trim`. -/
def trim (s : String) : String :=
  String.ofList ((s.toList.dropWhile isWhitespace).rdropWhile isWhitespace)

/-- `str::strip_prefix`. -/
def stripPrefix (pre s : String) : Option String :=
  (pre.toList.isPrefixOf? s.toList).map String.ofList

/-- `str::split` on a character. -/
def split (c : Char) (s : String) : List String := (s.toList.splitOn c).map String.ofList

/-- `str::to_ascii_lowercase`. -/
def toAsciiLowercase (s : String) : String := String.ofList (s.toList.map Char.toLower)

/-- `str::starts_with`. -/
def startsWith (s pre : String) : Bool := pre.toList.isPrefixOf s.toList

/-- The bytes that percent-encoding keeps: letters, digits and `-`, `.`, `_`, `~`. -/
def isUnreserved (b : UInt8) : Bool :=
  (48 ≤ b && b ≤ 57) || (65 ≤ b && b ≤ 90) || (97 ≤ b && b ≤ 122) || b == 45 || b == 46 ||
    b == 95 || b == 126

/-- One byte of `urlencoding::encode`. -/
def percentEncodeByte (b : UInt8) : List Char :=
  if isUnreserved b then [Char.ofNat b.toNat]
  else ['%', (Nat.digitChar (b.toNat / 16)).toUpper, (Nat.digitChar (b.toNat % 16)).toUpper]

/-- `urlencoding::encode`. -/
def percentEncode (s : String) : String :=
  String.ofList (s.toUTF8.data.toList.flatMap percentEncodeByte)

/-- Trimming leaves nothing exactly when all is white space. -/
theorem trim_eq_empty_iff {s : String} :
    trim s = "" ↔ ∀ c ∈ s.toList, isWhitespace c = true := by
  have hnil : trim s = "" ↔ (s.toList.dropWhile isWhitespace).rdropWhile isWhitespace = [] := by
    unfold trim
    rw [← String.toList_inj, String.toList_ofList]
    exact Iff.rfl
  rw [hnil, List.rdropWhile_eq_nil_iff, ← List.dropWhile_eq_nil_iff (l := s.toList)]
  constructor
  · intro h
    by_contra hne
    -- What remains after `dropWhile` starts with a character that is not white space.
    have hhead := List.head_dropWhile_not isWhitespace hne
    rw [h _ (List.head_mem hne)] at hhead
    cases hhead
  · intro h
    rw [h]
    simp

/-- What `strip_prefix` leaves is the rest of the text. -/
theorem stripPrefix_eq_some_iff {pre s rest : String} :
    stripPrefix pre s = some rest ↔ s = pre ++ rest := by
  unfold stripPrefix
  rw [Option.map_eq_some_iff]
  constructor
  · rintro ⟨l, hl, rfl⟩
    rw [List.isPrefixOf?_eq_some_iff_append_eq] at hl
    rw [← String.toList_inj, String.toList_append, String.toList_ofList, hl]
  · rintro rfl
    refine ⟨rest.toList, ?_, String.ofList_toList⟩
    rw [List.isPrefixOf?_eq_some_iff_append_eq, String.toList_append]

/-! ### Splitting and joining -/

/-- The characters of a joined text are those of the separator and of the parts. -/
theorem mem_toList_intercalate {sep : String} {parts : List String} {c : Char}
    (h : c ∈ (sep.intercalate parts).toList) : c ∈ sep.toList ∨ ∃ s ∈ parts, c ∈ s.toList := by
  induction parts with
  | nil =>
    rw [String.intercalate_nil] at h
    cases h
  | cons s rest ih =>
    by_cases hrest : rest = []
    · subst hrest
      rw [String.intercalate_singleton] at h
      exact .inr ⟨s, List.mem_cons_self, h⟩
    · rw [String.intercalate_cons_of_ne_nil hrest, String.toList_append, String.toList_append,
        List.mem_append, List.mem_append] at h
      rcases h with (h | h) | h
      · exact .inr ⟨s, List.mem_cons_self, h⟩
      · exact .inl h
      · rcases ih h with h | ⟨t, ht, hc⟩
        · exact .inl h
        · exact .inr ⟨t, List.mem_cons_of_mem s ht, hc⟩

/-- Splitting a joined text gives the parts back. -/
theorem split_intercalate {c : Char} {parts : List String} (hne : parts ≠ [])
    (h : ∀ s ∈ parts, c ∉ s.toList) : split c ((String.singleton c).intercalate parts) = parts := by
  unfold split
  rw [String.toList_intercalate, String.toList_singleton, List.splitOn_intercalate, List.map_map]
  · simp
  · simpa using h
  · simpa using hne

/-- Splitting at a separator splits both sides. -/
theorem split_append_cons (c : Char) (s t : String) :
    split c (s ++ String.singleton c ++ t) = split c s ++ split c t := by
  unfold split
  rw [String.toList_append, String.toList_append, String.toList_singleton, List.append_assoc,
    List.singleton_append, List.splitOn_append_cons_self, List.map_append]

/-- Joining the parts gives the text back. -/
theorem intercalate_split (c : Char) (s : String) :
    (String.singleton c).intercalate (split c s) = s := by
  rw [← String.toList_inj, String.toList_intercalate, String.toList_singleton]
  unfold split
  rw [List.map_map]
  have hid : (String.toList ∘ String.ofList) = id := funext fun l => String.toList_ofList
  rw [hid, List.map_id, List.intercalate_splitOn]

/-- A text is its parts. -/
theorem split_inj {c : Char} {s t : String} (h : split c s = split c t) : s = t := by
  rw [← intercalate_split c s, h, intercalate_split]

/-! ### Where a joined text can be cut -/

/-- Two ways to cut one text: one of the first parts goes on where the other ends. -/
theorem append_eq_append_iff {s t s' t' : String} :
    s ++ t = s' ++ t' ↔ (∃ m, s' = s ++ m ∧ t = m ++ t') ∨ ∃ m, s = s' ++ m ∧ t' = m ++ t := by
  constructor
  · intro h
    rw [← String.toList_inj, String.toList_append, String.toList_append] at h
    rcases List.append_eq_append_iff.mp h with ⟨l, hs, ht⟩ | ⟨l, hs, ht⟩
    · exact .inl ⟨String.ofList l, by simp [← String.toList_inj, hs],
        by simp [← String.toList_inj, ht]⟩
    · exact .inr ⟨String.ofList l, by simp [← String.toList_inj, hs],
        by simp [← String.toList_inj, ht]⟩
  · rintro (⟨m, rfl, rfl⟩ | ⟨m, rfl, rfl⟩)
    · rw [String.append_assoc]
    · rw [String.append_assoc]

/-- A text is cut at the last separator in one way. -/
theorem append_sep_inj {c : Char} {s t s' t' : String} (ht : c ∉ t.toList) (ht' : c ∉ t'.toList)
    (h : s ++ String.singleton c ++ t = s' ++ String.singleton c ++ t') : s = s' ∧ t = t' := by
  -- the longer last part would begin inside the other one's separator
  have hcut : ∀ {s s' t t' m : String}, c ∉ t.toList →
      s' ++ String.singleton c = s ++ String.singleton c ++ m → t = m ++ t' → m = "" := by
    intro s s' t t' m ht hs hm
    by_contra hne
    have hmne : m.toList ≠ [] := by rwa [Ne, String.toList_eq_nil_iff]
    have hlast := congrArg (fun u => u.toList.getLast?) hs
    simp only [String.toList_append, String.toList_singleton, List.getLast?_append,
      List.getLast?_singleton, List.getLast?_eq_some_getLast hmne, Option.some_or,
      Option.some.injEq] at hlast
    apply ht
    rw [hm, String.toList_append, hlast]
    exact List.mem_append_left _ (List.getLast_mem hmne)
  rcases append_eq_append_iff.mp h with ⟨m, hs, hm⟩ | ⟨m, hs, hm⟩
  · obtain rfl := hcut ht hs hm
    rw [String.append_empty] at hs
    rw [String.empty_append] at hm
    exact ⟨((String.append_left_inj _).mp hs).symm, hm⟩
  · obtain rfl := hcut ht' hs hm
    rw [String.append_empty] at hs
    rw [String.empty_append] at hm
    exact ⟨(String.append_left_inj _).mp hs, hm.symm⟩

/-- What has no separator is one part. -/
theorem split_of_not_mem {c : Char} {s : String} (h : c ∉ s.toList) : split c s = [s] := by
  have hone := @split_intercalate c [s] (by simp) (by simpa using h)
  rwa [String.intercalate_singleton] at hone

theorem split_ne_nil (c : Char) (s : String) : split c s ≠ [] := by
  simp [split]

/-- A text with a separator, cut there. -/
theorem exists_cut_of_mem {c : Char} {s : String} (h : c ∈ s.toList) :
    ∃ l r, s = l ++ String.singleton c ++ r := by
  obtain ⟨l, r, hs⟩ := List.append_of_mem h
  exact ⟨String.ofList l, String.ofList r, by simp [← String.toList_inj, hs]⟩

/-- The parts have no separator. -/
theorem not_mem_of_mem_split {c : Char} {s part : String} (h : part ∈ split c s) :
    c ∉ part.toList := by
  induction hn : s.length using Nat.strong_induction_on generalizing s with
  | _ n ih =>
    by_cases hc : c ∈ s.toList
    · obtain ⟨l, r, rfl⟩ := exists_cut_of_mem hc
      rw [String.length_append, String.length_append, String.length_singleton] at hn
      rw [split_append_cons, List.mem_append] at h
      rcases h with h | h
      · exact ih l.length (by omega) h rfl
      · exact ih r.length (by omega) h rfl
    · rw [split_of_not_mem hc, List.mem_singleton] at h
      rw [h]
      exact hc

/-- **A text without separator has one part**, and only such a text has. -/
theorem split_eq_singleton_iff {c : Char} {s t : String} :
    split c s = [t] ↔ s = t ∧ c ∉ s.toList := by
  constructor
  · intro h
    have hno : c ∉ s.toList := by
      intro hc
      obtain ⟨l, r, hcut⟩ := exists_cut_of_mem hc
      have hlen := congrArg List.length h
      rw [hcut, split_append_cons, List.length_append, List.length_singleton] at hlen
      have hl := List.length_pos_iff.mpr (split_ne_nil c l)
      have hr := List.length_pos_iff.mpr (split_ne_nil c r)
      omega
    rw [split_of_not_mem hno] at h
    exact ⟨List.singleton_inj.mp h, hno⟩
  · rintro ⟨rfl, h⟩
    exact split_of_not_mem h

/-! ### UTF-8 -/

/-- The UTF-8 bytes of a text, character by character. -/
theorem toUTF8_toList (s : String) :
    s.toUTF8.data.toList = s.toList.flatMap String.utf8EncodeChar := by
  have h : s.toUTF8 = (s.toList.flatMap String.utf8EncodeChar).toByteArray := by
    rw [String.toUTF8_eq_toByteArray, ← String.utf8Encode_toList]
    rfl
  rw [h, List.data_toByteArray]

theorem utf8EncodeChar_of_lt {c : Char} (h : c.toNat < 128) :
    String.utf8EncodeChar c = [UInt8.ofNat c.toNat] := by
  have hv : c.val.toNat ≤ 0x7f := by
    rw [Char.toNat_val]
    omega
  unfold String.utf8EncodeChar
  rw [if_pos hv]
  rfl

/-- A character outside ASCII has a byte outside ASCII. -/
theorem exists_mem_utf8EncodeChar {c : Char} (h : 128 ≤ c.toNat) :
    ∃ b ∈ String.utf8EncodeChar c, 128 ≤ b := by
  have hv : ¬ c.val.toNat ≤ 0x7f := by
    rw [Char.toNat_val]
    omega
  simp only [String.utf8EncodeChar, hv, if_false]
  -- the first byte of two, of three and of four
  split
  · refine ⟨_, List.mem_cons_self, ?_⟩
    rw [UInt8.le_iff_toNat_le]
    simp
    omega
  · split
    · refine ⟨_, List.mem_cons_self, ?_⟩
      rw [UInt8.le_iff_toNat_le]
      simp
      omega
    · refine ⟨_, List.mem_cons_self, ?_⟩
      rw [UInt8.le_iff_toNat_le]
      simp
      omega

/-- All of its bytes are outside ASCII. -/
theorem le_of_mem_utf8EncodeChar {c : Char} (h : 128 ≤ c.toNat) {b : UInt8}
    (hb : b ∈ String.utf8EncodeChar c) : 128 ≤ b := by
  have hv : ¬ c.val.toNat ≤ 0x7f := by
    rw [Char.toNat_val]
    omega
  simp only [String.utf8EncodeChar, hv, if_false] at hb
  rw [UInt8.le_iff_toNat_le]
  split at hb
  · simp only [List.mem_cons, List.not_mem_nil, or_false] at hb
    obtain rfl | rfl := hb <;> simp <;> omega
  · split at hb
    · simp only [List.mem_cons, List.not_mem_nil, or_false] at hb
      obtain rfl | rfl | rfl := hb <;> simp <;> omega
    · simp only [List.mem_cons, List.not_mem_nil, or_false] at hb
      obtain rfl | rfl | rfl | rfl := hb <;> simp <;> omega

/-- An ASCII byte of a text is a character by itself. -/
theorem exists_char_of_ascii {cs : List Char} {p tail : List UInt8} {b : UInt8} (hb : b < 128)
    (h : cs.flatMap String.utf8EncodeChar = p ++ b :: tail) :
    ∃ cs₁ c cs₂, cs = cs₁ ++ c :: cs₂ ∧ cs₁.flatMap String.utf8EncodeChar = p ∧
      String.utf8EncodeChar c = [b] := by
  -- on the characters: the byte is in the first one, or in the rest
  induction cs generalizing p with
  | nil => simp at h
  | cons c cs ih =>
    rw [List.flatMap_cons] at h
    -- an ascii byte is the whole encoding of its character
    have hmem : ∀ q : List UInt8, String.utf8EncodeChar c = p ++ b :: q → p = [] ∧ q = [] := by
      intro q hq
      by_cases hc : c.toNat < 128
      · rw [utf8EncodeChar_of_lt hc] at hq
        cases p with
        | nil => exact ⟨rfl, (List.cons.inj hq).2.symm⟩
        | cons x p => simp at hq
      · have hmem : b ∈ String.utf8EncodeChar c := by simp [hq]
        have hlarge := le_of_mem_utf8EncodeChar (by omega) hmem
        exact absurd hb (UInt8.not_lt.mpr hlarge)
    obtain ⟨p', rfl, h'⟩ | ⟨q, hq, h'⟩ := List.append_eq_append_iff.mp h
    · obtain ⟨cs₁, c', cs₂, rfl, rfl, hc'⟩ := ih h'
      exact ⟨c :: cs₁, c', cs₂, rfl, rfl, hc'⟩
    · cases q with
      | nil =>
        rw [List.append_nil] at hq
        obtain ⟨cs₁, c', cs₂, rfl, hcs₁, hc'⟩ := ih (p := []) h'.symm
        exact ⟨c :: cs₁, c', cs₂, rfl, by rw [List.flatMap_cons, hcs₁, List.append_nil]; exact hq, hc'⟩
      | cons x q =>
        obtain ⟨rfl, -⟩ := List.cons.inj h'
        obtain ⟨rfl, rfl⟩ := hmem q hq
        exact ⟨[], c, cs, rfl, rfl, hq⟩

/-- The last byte, if there is one, is an ASCII one. -/
def AsciiEnd (p : List UInt8) : Prop := ∀ b, p.getLast? = some b → b < 128

/-- After an ASCII byte, and at the start, a character begins or the text ends. -/
theorem isValid_of_asciiEnd {s : String} {p tail : List UInt8}
    (h : s.toUTF8.data.toList = p ++ tail) (hp : AsciiEnd p) :
    (String.Pos.Raw.mk p.length).IsValid s := by
  rw [String.Pos.Raw.isValid_iff_exists_append]
  obtain rfl | ⟨q, b, rfl⟩ := List.eq_nil_or_concat' p
  · exact ⟨"", s, by simp, rfl⟩
  · have hb : b < 128 := hp b (by simp)
    rw [toUTF8_toList, List.append_assoc, List.singleton_append] at h
    obtain ⟨cs₁, c, cs₂, hcs, rfl, hc⟩ := exists_char_of_ascii hb h
    refine ⟨String.ofList (cs₁ ++ [c]), String.ofList cs₂, ?_, ?_⟩
    · rw [← String.ofList_append, List.append_assoc, List.singleton_append, ← hcs,
        String.ofList_toList]
    · have hbytes := toUTF8_toList (String.ofList (cs₁ ++ [c]))
      rw [String.toList_ofList, List.flatMap_append, List.flatMap_singleton, hc] at hbytes
      have hlength := congrArg List.length hbytes
      apply String.Pos.Raw.ext
      exact hlength.symm

/-- A text can be cut after an ASCII byte. -/
theorem exists_cut {s : String} {p tail : List UInt8} (h : s.toUTF8.data.toList = p ++ tail)
    (hp : AsciiEnd p) :
    ∃ s₁ s₂ : String, s₁.toUTF8.data.toList = p ∧ s₂.toUTF8.data.toList = tail := by
  obtain ⟨s₁, s₂, rfl, hpos⟩ :=
    String.Pos.Raw.isValid_iff_exists_append.mp (isValid_of_asciiEnd h hp)
  have hlength : p.length = s₁.toUTF8.data.toList.length := congrArg String.Pos.Raw.byteIdx hpos
  rw [toUTF8_toList, String.toList_append, List.flatMap_append, ← toUTF8_toList, ← toUTF8_toList]
    at h
  obtain ⟨hleft, hright⟩ := List.append_inj h hlength.symm
  exact ⟨s₁, s₂, hleft, hright⟩

/-! ### Percent-encoding -/

/-- A property of every byte, by trying all of them. -/
theorem forall_byte {p : UInt8 → Prop} (h : ∀ n : Fin 256, p (.ofNat n)) (b : UInt8) : p b := by
  have hb := h ⟨b.toNat, b.toNat_lt⟩
  rwa [UInt8.ofNat_toNat] at hb

/-- The characters of a percent-encoded text. -/
def isEncodedChar (c : Char) : Bool := c.isAlphanum || "-._~%".toList.contains c

theorem isEncodedChar_of_mem_percentEncode {s : String} {c : Char}
    (h : c ∈ (percentEncode s).toList) : isEncodedChar c = true := by
  have hbyte : ∀ b, (percentEncodeByte b).all isEncodedChar = true :=
    forall_byte (by decide +kernel)
  unfold percentEncode at h
  rw [String.toList_ofList] at h
  obtain ⟨b, -, hb⟩ := List.mem_flatMap.mp h
  exact List.all_eq_true.mp (hbyte b) c hb

theorem question_not_mem_percentEncode (s : String) : '?' ∉ (percentEncode s).toList := by
  intro h
  have := isEncodedChar_of_mem_percentEncode h
  revert this
  decide

end Str

/-! ### Parses that may fail -/

section Except

variable {ε α β : Type}

/-- A sequence succeeds exactly when its parts do. -/
theorem bind_eq_ok_iff {x : Except ε α} {f : α → Except ε β} {b : β} :
    (x >>= f) = .ok b ↔ ∃ a, x = .ok a ∧ f a = .ok b := by
  cases x with
  | error e =>
    constructor
    · intro h
      cases h
    · rintro ⟨_, h, _⟩
      cases h
  | ok a =>
    constructor
    · intro h
      exact ⟨a, rfl, h⟩
    · rintro ⟨a', ha, h⟩
      cases ha
      exact h

/-- A fold whose steps all succeed, each as `g` says, is the fold of `g`. -/
theorem foldlM_eq_ok_foldl {f : β → α → Except ε β} {g : β → α → β} {l : List α} {acc : β}
    (h : ∀ acc, ∀ a ∈ l, f acc a = .ok (g acc a)) : l.foldlM f acc = .ok (l.foldl g acc) := by
  induction l generalizing acc with
  | nil => rfl
  | cons a rest ih =>
    rw [List.foldlM_cons, h acc a List.mem_cons_self, List.foldl_cons]
    exact ih fun acc b hb => h acc b (List.mem_cons_of_mem a hb)

end Except

end Boardwalk
