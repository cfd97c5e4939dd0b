import Boardwalk.Tunnel.Handshake

/-!
# Whole labels

The end of a host is compared with an entry only behind a dot, so an entry covers a host and its
subdomains (`noProxyMatches_iff`).  The dot is an ASCII byte, hence a character, and what follows it
begins with a character: the slice does not panic.
-/

namespace Boardwalk

namespace NoProxy

/-- An entry covers a host: all hosts, this host, or one below it. -/
def Covers (entry host : String) : Prop :=
  entry = "*" ∨ Str.toAsciiLowercase host = Str.toAsciiLowercase entry ∨
    ∃ sub name, host = sub ++ "." ++ name ∧
      Str.toAsciiLowercase name = Str.toAsciiLowercase entry

variable {host entry : String}

/-- What follows a dot can be sliced off. -/
theorem exists_slice_of_dot {i : ℕ} (h : (Str.asBytes host)[i]? = some 46) :
    ∃ sub name, host = sub ++ "." ++ name ∧ sub.utf8ByteSize = i ∧
      Str.sliceFrom host (i + 1) = some name := by
  obtain ⟨sub, name, hhost, hsub⟩ := Str.exists_cut_of_byte (by decide) h
  refine ⟨sub, name, hhost, hsub, Str.sliceFrom_eq_some_iff.mpr ⟨sub ++ ".", hhost, ?_⟩⟩
  rw [String.utf8ByteSize_append, hsub]
  rfl

/-- A host below an entry has a dot where the source looks for it, and the name behind it. -/
theorem slice_of_below {sub name : String} (hhost : host = sub ++ "." ++ name)
    (hname : Str.toAsciiLowercase name = Str.toAsciiLowercase entry) :
    entry.utf8ByteSize < host.utf8ByteSize ∧
      (Str.asBytes host)[host.utf8ByteSize - entry.utf8ByteSize - 1]? = some 46 ∧
      Str.sliceFrom host (host.utf8ByteSize - entry.utf8ByteSize) = some name := by
  have hsame : name.utf8ByteSize = entry.utf8ByteSize :=
    Str.utf8ByteSize_of_eqIgnoreAsciiCase (Str.eqIgnoreAsciiCase_iff.mpr hname)
  have hlen : host.utf8ByteSize = sub.utf8ByteSize + 1 + name.utf8ByteSize := by
    rw [hhost, String.utf8ByteSize_append, String.utf8ByteSize_append]
    rfl
  have hat : host.utf8ByteSize - entry.utf8ByteSize - 1 = (Str.asBytes sub).length := by
    rw [Str.length_asBytes]
    omega
  refine ⟨by omega, ?_, Str.sliceFrom_eq_some_iff.mpr ⟨sub ++ ".", hhost, ?_⟩⟩
  · rw [hat, hhost, Str.asBytes_append, Str.asBytes_append, List.append_assoc,
      List.getElem?_append_right (Nat.le_refl _), Nat.sub_self]
    rfl
  · have hdot : (".":String).utf8ByteSize = 1 := rfl
    rw [String.utf8ByteSize_append, hdot]
    omega

/-- The host is below the entry, not equal to it. -/
def Below (entry host : String) : Prop :=
  ∃ sub name, host = sub ++ "." ++ name ∧ Str.toAsciiLowercase name = Str.toAsciiLowercase entry

/-- Where the entry is shorter, the host has a byte ahead of the end that is compared. -/
theorem exists_byte_before (h : entry.utf8ByteSize < host.utf8ByteSize) :
    ∃ before, (Str.asBytes host)[host.utf8ByteSize - entry.utf8ByteSize - 1]? = some before := by
  refine ⟨_, List.getElem?_eq_getElem ?_⟩
  rw [Str.length_asBytes]
  omega

/-- Behind a dot, comparing the end says whether the host is below the entry. -/
theorem exists_slice_below (h : entry.utf8ByteSize < host.utf8ByteSize)
    (hdot : (Str.asBytes host)[host.utf8ByteSize - entry.utf8ByteSize - 1]? = some 46) :
    ∃ name, Str.sliceFrom host (host.utf8ByteSize - entry.utf8ByteSize) = some name ∧
      (Str.eqIgnoreAsciiCase name entry = true ↔ Below entry host) := by
  obtain ⟨sub, name, hhost, -, hslice⟩ := exists_slice_of_dot hdot
  have hat : host.utf8ByteSize - entry.utf8ByteSize - 1 + 1 =
      host.utf8ByteSize - entry.utf8ByteSize := by omega
  rw [hat] at hslice
  refine ⟨name, hslice, ?_⟩
  rw [Str.eqIgnoreAsciiCase_iff]
  constructor
  · intro hname
    exact ⟨sub, name, hhost, hname⟩
  · rintro ⟨sub', name', hhost', hname'⟩
    obtain ⟨-, -, hslice'⟩ := slice_of_below hhost' hname'
    rw [hslice, Option.some.injEq] at hslice'
    rw [hslice', hname']

/-- The test of one entry ends, and it says whether the entry covers the host. -/
theorem entryMatches_eq (host entry : String) :
    ∃ b, entryMatches host entry = some b ∧ (b = true ↔ Covers entry host) := by
  unfold entryMatches
  -- the star, the name itself, and then the names below it
  by_cases hstar : entry = "*"
  · exact ⟨true, if_pos hstar, by simp [Covers, hstar]⟩
  rw [if_neg hstar]
  by_cases hequal : Str.eqIgnoreAsciiCase host entry = true
  · refine ⟨true, if_pos hequal, ?_⟩
    have hsame := Str.eqIgnoreAsciiCase_iff.mp hequal
    simp [Covers, hsame]
  rw [if_neg hequal]
  have hcovers : Covers entry host ↔ Below entry host := by
    rw [Str.eqIgnoreAsciiCase_iff] at hequal
    simp only [Covers, Below, hstar, hequal, false_or]
  rw [hcovers]
  by_cases hlonger : entry.utf8ByteSize < host.utf8ByteSize
  · rw [if_pos hlonger]
    obtain ⟨before, hbefore⟩ := exists_byte_before hlonger
    rw [hbefore, Option.bind_eq_bind, Option.bind_some]
    -- the byte before the suffix has to be the dot
    by_cases hdot : before = 46
    · rw [hdot] at hbefore
      obtain ⟨name, hslice, hbelow⟩ := exists_slice_below hlonger hbefore
      rw [if_pos hdot, hslice]
      exact ⟨_, rfl, hbelow⟩
    · rw [if_neg hdot]
      refine ⟨false, rfl, iff_of_false (by simp) ?_⟩
      rintro ⟨sub, name, hhost, hname⟩
      obtain ⟨-, hbyte, -⟩ := slice_of_below hhost hname
      rw [hbyte] at hbefore
      exact hdot (Option.some.inj hbefore).symm
  · rw [if_neg hlonger]
    refine ⟨false, rfl, iff_of_false (by simp) ?_⟩
    rintro ⟨sub, name, hhost, hname⟩
    exact hlonger (slice_of_below hhost hname).1

/-- The loop over the entries. -/
theorem anyEntry_eq (host : String) (entries : List String) :
    ∃ b, anyEntry host entries = some b ∧ (b = true ↔ ∃ entry ∈ entries, Covers entry host) := by
  induction entries with
  | nil => exact ⟨false, rfl, by simp⟩
  | cons entry entries ih =>
    obtain ⟨first, hfirst, hcovers⟩ := entryMatches_eq host entry
    obtain ⟨rest, hrest, hothers⟩ := ih
    rw [anyEntry, hfirst, Option.bind_eq_bind, Option.bind_some]
    cases first with
    | true =>
      refine ⟨true, rfl, iff_of_true rfl ⟨entry, List.mem_cons_self, hcovers.mp rfl⟩⟩
    | false =>
      refine ⟨rest, hrest, ?_⟩
      have hnot : ¬ Covers entry host := fun h => by simpa using hcovers.mpr h
      rw [hothers]
      simp [hnot]

end NoProxy

/-- **`NO_PROXY` covers whole labels**: the match is found without a panic, and it is that of a
cleaned entry which is not empty and covers the host. -/
theorem noProxyMatches_iff (list host : String) :
    ∃ b, noProxyMatches list host = some b ∧
      (b = true ↔ ∃ part ∈ Str.split ',' list,
        NoProxy.cleanEntry part ≠ "" ∧ NoProxy.Covers (NoProxy.cleanEntry part) host) := by
  obtain ⟨b, hb, hany⟩ := NoProxy.anyEntry_eq host
    (((Str.split ',' list).map NoProxy.cleanEntry).filter fun entry => !entry.isEmpty)
  refine ⟨b, hb, ?_⟩
  rw [hany]
  constructor
  · rintro ⟨entry, hentry, hcovers⟩
    obtain ⟨hmem, hne⟩ := List.mem_filter.mp hentry
    obtain ⟨part, hpart, rfl⟩ := List.mem_map.mp hmem
    exact ⟨part, hpart, by simpa using hne, hcovers⟩
  · rintro ⟨part, hpart, hne, hcovers⟩
    refine ⟨_, List.mem_filter.mpr ⟨List.mem_map_of_mem hpart, ?_⟩, hcovers⟩
    simpa using hne

end Boardwalk
