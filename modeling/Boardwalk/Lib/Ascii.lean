import Mathlib.Algebra.Ring.Nat
import Boardwalk.Lib.Str

/-!
# Bytes and ASCII case

Text by the indices of its bytes, and text up to the case of its ASCII letters.  A byte in ASCII is
a character, so an index beside one is the boundary of a character.
-/

namespace Boardwalk

namespace Str

/-- `str::as_bytes`. -/
def asBytes (s : String) : List UInt8 := s.toUTF8.data.toList

/-- What remains of some characters after a number of bytes; no result when the last of these bytes
is not the last one of a character. -/
def dropBytes : ℕ → List Char → Option (List Char)
  | 0, cs => some cs
  | _ + 1, [] => none
  | n + 1, c :: cs => if c.utf8Size ≤ n + 1 then dropBytes (n + 1 - c.utf8Size) cs else none

/-- `&s[i..]`; no result is a panic. -/
def sliceFrom (s : String) (i : ℕ) : Option String := (dropBytes i s.toList).map String.ofList

/-- `str::eq_ignore_ascii_case`. -/
def eqIgnoreAsciiCase (s t : String) : Bool := toAsciiLowercase s == toAsciiLowercase t

/-- `str::trim_start_matches` of a character. -/
def trimStartMatches (c : Char) (s : String) : String := String.ofList (s.toList.dropWhile (· == c))

/-! ### Bytes -/

theorem asBytes_append (s t : String) : asBytes (s ++ t) = asBytes s ++ asBytes t := by
  unfold asBytes
  rw [toUTF8_toList, toUTF8_toList, toUTF8_toList, String.toList_append, List.flatMap_append]

theorem length_asBytes (s : String) : (asBytes s).length = s.utf8ByteSize := by
  rw [← String.size_toByteArray]
  rfl

theorem utf8ByteSize_eq_sum (s : String) :
    s.utf8ByteSize = (s.toList.map Char.utf8Size).sum := by
  rw [← length_asBytes, asBytes, toUTF8_toList, List.length_flatMap]
  simp only [String.length_utf8EncodeChar]

/-- An ASCII byte is a character by itself. -/
theorem exists_cut_of_byte {s : String} {i : ℕ} {b : UInt8} (hb : b < 128)
    (h : (asBytes s)[i]? = some b) :
    ∃ l r, s = l ++ String.singleton (Char.ofNat b.toNat) ++ r ∧ l.utf8ByteSize = i := by
  obtain ⟨hi, hget⟩ := List.getElem?_eq_some_iff.mp h
  -- the byte splits the encoding, so it splits the characters
  have hcut : s.toList.flatMap String.utf8EncodeChar =
      (asBytes s).take i ++ b :: (asBytes s).drop (i + 1) := by
    rw [← toUTF8_toList, ← hget, ← List.drop_eq_getElem_cons hi, List.take_append_drop]
    rfl
  obtain ⟨cs₁, c, cs₂, hcs, hleft, hc⟩ := exists_char_of_ascii hb hcut
  -- an ascii byte is the whole encoding of its character
  have hchar : c = Char.ofNat b.toNat := by
    have hlt : c.toNat < 128 := by
      by_contra hge
      have hmem : b ∈ String.utf8EncodeChar c := by simp [hc]
      exact absurd hb (UInt8.not_lt.mpr (le_of_mem_utf8EncodeChar (by omega) hmem))
    rw [utf8EncodeChar_of_lt hlt, List.singleton_inj] at hc
    have hmod : c.toNat % 2 ^ 8 = c.toNat := Nat.mod_eq_of_lt (by omega)
    rw [← hc, UInt8.toNat_ofNat', hmod, Char.ofNat_toNat]
  refine ⟨String.ofList cs₁, String.ofList cs₂, ?_, ?_⟩
  · rw [← String.toList_inj, hcs, hchar]
    simp
  · rw [← length_asBytes, asBytes, toUTF8_toList, String.toList_ofList, hleft, List.length_take]
    omega

/-! ### Slices -/

/-- Dropping bytes succeeds exactly at a character boundary. -/
theorem dropBytes_eq_some_iff {n : ℕ} {cs rest : List Char} :
    dropBytes n cs = some rest ↔ ∃ pre, cs = pre ++ rest ∧ (pre.map Char.utf8Size).sum = n := by
  -- on the characters: a cut is at a character's start, or nowhere
  induction cs generalizing n with
  | nil =>
    cases n with
    | zero =>
      rw [dropBytes, Option.some.injEq]
      constructor
      · rintro rfl
        exact ⟨[], rfl, rfl⟩
      · rintro ⟨pre, hpre, -⟩
        exact (List.append_eq_nil_iff.mp hpre.symm).2.symm
    | succ n =>
      simp only [dropBytes, reduceCtorEq, false_iff]
      rintro ⟨pre, hpre, hsum⟩
      rw [(List.append_eq_nil_iff.mp hpre.symm).1] at hsum
      cases hsum
  | cons c cs ih =>
    have hpos := c.utf8Size_pos
    cases n with
    | zero =>
      rw [dropBytes, Option.some.injEq]
      constructor
      · rintro rfl
        exact ⟨[], rfl, rfl⟩
      · rintro ⟨pre, hpre, hsum⟩
        cases pre with
        | nil => exact hpre
        | cons d pre =>
          have hd := d.utf8Size_pos
          rw [List.map_cons, List.sum_cons] at hsum
          omega
    | succ n =>
      rw [dropBytes]
      constructor
      · intro h
        split at h
        · obtain ⟨pre, rfl, hsum⟩ := ih.mp h
          refine ⟨c :: pre, rfl, ?_⟩
          rw [List.map_cons, List.sum_cons]
          omega
        · cases h
      · rintro ⟨pre, hpre, hsum⟩
        cases pre with
        | nil => cases hsum
        | cons d pre =>
          obtain ⟨rfl, hcs⟩ := List.cons.inj hpre
          rw [List.map_cons, List.sum_cons] at hsum
          rw [if_pos (by omega)]
          exact ih.mpr ⟨pre, hcs, by omega⟩

/-- A text is sliced between two characters. -/
theorem sliceFrom_eq_some_iff {s t : String} {i : ℕ} :
    sliceFrom s i = some t ↔ ∃ pre, s = pre ++ t ∧ pre.utf8ByteSize = i := by
  unfold sliceFrom
  rw [Option.map_eq_some_iff]
  constructor
  · rintro ⟨rest, hrest, rfl⟩
    obtain ⟨pre, hs, hsum⟩ := dropBytes_eq_some_iff.mp hrest
    refine ⟨String.ofList pre, ?_, ?_⟩
    · rw [← String.toList_inj, hs]
      simp
    · rw [utf8ByteSize_eq_sum, String.toList_ofList, hsum]
  · rintro ⟨pre, rfl, hi⟩
    refine ⟨t.toList, dropBytes_eq_some_iff.mpr ⟨pre.toList, String.toList_append, ?_⟩,
      String.ofList_toList⟩
    rw [← utf8ByteSize_eq_sum, hi]

/-! ### Case -/

/-- Lowering the case of an ASCII letter keeps its size. -/
theorem utf8Size_toLower (c : Char) : c.toLower.utf8Size = c.utf8Size := by
  unfold Char.toLower
  split
  · rename_i h
    have hupper : c.utf8Size = 1 := by
      rw [Char.utf8Size_eq_one_iff]
      exact UInt32.le_trans h.2 (by decide)
    rw [hupper, Char.utf8Size_eq_one_iff]
    have h65 : 65 ≤ c.val.toNat := UInt32.le_iff_toNat_le.mp h.1
    have h90 : c.val.toNat ≤ 90 := UInt32.le_iff_toNat_le.mp h.2
    rw [UInt32.le_iff_toNat_le, UInt32.toNat_add]
    show (c.val.toNat + 32) % 2 ^ 32 ≤ 127
    omega
  · rfl

theorem utf8ByteSize_toAsciiLowercase (s : String) :
    (toAsciiLowercase s).utf8ByteSize = s.utf8ByteSize := by
  unfold toAsciiLowercase
  rw [utf8ByteSize_eq_sum, utf8ByteSize_eq_sum, String.toList_ofList, List.map_map]
  refine congrArg List.sum (List.map_congr_left fun c _ => ?_)
  exact utf8Size_toLower c

theorem eqIgnoreAsciiCase_iff {s t : String} :
    eqIgnoreAsciiCase s t = true ↔ toAsciiLowercase s = toAsciiLowercase t := beq_iff_eq

/-- Texts that differ in case only have the same length in bytes. -/
theorem utf8ByteSize_of_eqIgnoreAsciiCase {s t : String} (h : eqIgnoreAsciiCase s t = true) :
    s.utf8ByteSize = t.utf8ByteSize := by
  rw [← utf8ByteSize_toAsciiLowercase s, eqIgnoreAsciiCase_iff.mp h,
    utf8ByteSize_toAsciiLowercase]

/-! ### Percent-encoding -/

/-- The size of a text that is encoded byte by byte. -/
theorem utf8ByteSize_flatMap (f : UInt8 → List Char) (bytes : List UInt8) :
    (String.ofList (bytes.flatMap f)).utf8ByteSize =
      (bytes.map fun b => ((f b).map Char.utf8Size).sum).sum := by
  rw [utf8ByteSize_eq_sum, String.toList_ofList]
  induction bytes with
  | nil => rfl
  | cons b rest ih =>
    rw [List.flatMap_cons, List.map_append, List.sum_append, ih, List.map_cons, List.sum_cons]

/-- The size of `percentEncode s`. -/
def encodedSize (s : String) : ℕ := ((asBytes s).map fun b => if isUnreserved b then 1 else 3).sum

theorem utf8ByteSize_percentEncode (s : String) :
    (percentEncode s).utf8ByteSize = encodedSize s := by
  have hbyte : ∀ b, ((percentEncodeByte b).map Char.utf8Size).sum =
      if isUnreserved b then 1 else 3 :=
    forall_byte (by decide +kernel)
  unfold percentEncode encodedSize
  rw [utf8ByteSize_flatMap]
  exact congrArg List.sum (List.map_congr_left fun b _ => hbyte b)

/-- Percent-encoding keeps every byte of the text. -/
def IsUnreserved (s : String) : Prop := ∀ b ∈ asBytes s, isUnreserved b = true

instance (s : String) : Decidable (IsUnreserved s) :=
  inferInstanceAs (Decidable (∀ b ∈ asBytes s, isUnreserved b = true))

theorem isUnreserved_of_chars {s : String}
    (h : ∀ c ∈ s.toList, c.toNat < 128 ∧ isUnreserved c.toNat.toUInt8 = true) :
    IsUnreserved s := by
  intro b hb
  rw [asBytes, toUTF8_toList, List.mem_flatMap] at hb
  obtain ⟨c, hc, hb⟩ := hb
  obtain ⟨hlt, hc⟩ := h c hc
  rw [utf8EncodeChar_of_lt hlt, List.mem_singleton] at hb
  rwa [hb]

theorem encodedSize_of_isUnreserved {s : String} (h : IsUnreserved s) :
    encodedSize s = s.utf8ByteSize := by
  have hone : ∀ b ∈ asBytes s, (if isUnreserved b then 1 else 3) = 1 := fun b hb => if_pos (h b hb)
  unfold encodedSize
  rw [List.map_congr_left hone, List.map_const', List.sum_replicate_nat, length_asBytes,
    Nat.mul_one]

/-- A percent sign is in the result exactly when a byte is encoded. -/
theorem percent_mem_percentEncode_iff {s : String} :
    '%' ∈ (percentEncode s).toList ↔ ¬ IsUnreserved s := by
  have hbyte : ∀ b, '%' ∈ percentEncodeByte b ↔ ¬ isUnreserved b = true :=
    forall_byte (by decide +kernel)
  unfold percentEncode IsUnreserved
  rw [String.toList_ofList, List.mem_flatMap]
  push Not
  exact exists_congr fun b => and_congr_right fun _ => hbyte b

end Str

end Boardwalk
