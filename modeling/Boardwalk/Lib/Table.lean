import Mathlib.Tactic.Common

/-!
# Lookup tables and their owners

A `Table κ ν` is what a hash map shows to its users: a partial function from keys to values with
`insert` and `remove`.  When the values name the parties that inserted them, there are two ways for
a party to take its entry out again: `remove`, which clears the key whoever owns the entry, and
`removeOwn`, which first looks whether the entry is its own.  `remove_eq_removeOwn_iff` says when
the two do the same.

`Backed` says that every entry is backed by a record of the party that owns it.  `LastKept` is the
promise of a table whose parties use `removeOwn`: the party that inserted last at a key finds its
entry there for as long as it is alive, whatever the others do.
-/

namespace Boardwalk

/-- A partial function from keys to values. -/
@[ext]
structure Table (κ ν : Type*) where
  /-- The value stored at a key. -/
  get? : κ → Option ν

namespace Table

variable {κ ν : Type*}

/-- The table without entries. -/
def empty : Table κ ν := ⟨fun _ => none⟩

/-- Whether the table has an entry at the key. -/
def containsKey (m : Table κ ν) (k : κ) : Bool := (m.get? k).isSome

variable [DecidableEq κ]

/-- Stores a value at a key, over whatever was stored there. -/
def insert (m : Table κ ν) (k : κ) (v : ν) : Table κ ν :=
  ⟨fun k' => if k' = k then some v else m.get? k'⟩

/-- Clears a key. -/
def remove (m : Table κ ν) (k : κ) : Table κ ν :=
  ⟨fun k' => if k' = k then none else m.get? k'⟩

/-- Clears a key only if the given value is stored there. -/
def removeOwn [DecidableEq ν] (m : Table κ ν) (k : κ) (v : ν) : Table κ ν :=
  if m.get? k = some v then m.remove k else m

omit [DecidableEq κ] in
theorem containsKey_eq_true {m : Table κ ν} {k : κ} :
    m.containsKey k = true ↔ ∃ v, m.get? k = some v := by
  simp [containsKey, Option.isSome_iff_exists]

@[simp] theorem get?_insert_self (m : Table κ ν) (k : κ) (v : ν) :
    (m.insert k v).get? k = some v := by simp [insert]

theorem get?_insert (m : Table κ ν) (k k' : κ) (v : ν) :
    (m.insert k v).get? k' = if k' = k then some v else m.get? k' := rfl

@[simp] theorem get?_remove_self (m : Table κ ν) (k : κ) : (m.remove k).get? k = none := by
  simp [remove]

theorem get?_remove (m : Table κ ν) (k k' : κ) :
    (m.remove k).get? k' = if k' = k then none else m.get? k' := rfl

theorem get?_insert_ne {m : Table κ ν} {k k' : κ} {v : ν} (h : k' ≠ k) :
    (m.insert k v).get? k' = m.get? k' := by rw [get?_insert, if_neg h]

theorem get?_remove_ne {m : Table κ ν} {k k' : κ} (h : k' ≠ k) :
    (m.remove k).get? k' = m.get? k' := by rw [get?_remove, if_neg h]

/-- What a removal leaves was there before, at another key. -/
theorem get?_remove_eq_some {m : Table κ ν} {k k' : κ} {v : ν} :
    (m.remove k).get? k' = some v ↔ k' ≠ k ∧ m.get? k' = some v := by
  rw [get?_remove]
  split <;> simp_all

theorem get?_insert_eq_some {m : Table κ ν} {k k' : κ} {v w : ν} :
    (m.insert k v).get? k' = some w ↔ (k' = k ∧ v = w) ∨ (k' ≠ k ∧ m.get? k' = some w) := by
  rw [get?_insert]
  split <;> simp_all

/-- Storing at a free key leaves the entries there are. -/
theorem get?_insert_of_none {m : Table κ ν} {k k' : κ} {v w : ν} (hk : m.get? k = none)
    (hw : m.get? k' = some w) : (m.insert k v).get? k' = some w := by
  have hne : k' ≠ k := by
    rintro rfl
    rw [hk] at hw
    cases hw
  rw [get?_insert_ne hne, hw]

/-- Storing over an entry leaves those that `f` tells apart from it. -/
theorem get?_insert_of_apart {μ : Type*} (f : ν → μ) {m : Table κ ν} {k k' : κ} {v v' w : ν}
    (hv : m.get? k = some v) (hw : m.get? k' = some w) (hf : f w ≠ f v) :
    (m.insert k v').get? k' = some w := by
  have hne : k' ≠ k := by
    rintro rfl
    exact hf (by rw [Option.some.inj (hv.symm.trans hw)])
  rw [get?_insert_ne hne, hw]

/-- Clears a list of keys. -/
theorem get?_foldl_remove (keys : List κ) (m : Table κ ν) (k : κ) :
    (keys.foldl remove m).get? k = if k ∈ keys then none else m.get? k := by
  induction keys generalizing m with
  | nil => simp
  | cons key keys ih =>
    rw [List.foldl_cons, ih, get?_remove]
    by_cases hk : k = key <;> simp [hk]

/-- Stores one value at a list of keys. -/
theorem get?_foldl_insert (keys : List κ) (m : Table κ ν) (v : ν) (k : κ) :
    (keys.foldl (fun m key => m.insert key v) m).get? k =
      if k ∈ keys then some v else m.get? k := by
  induction keys generalizing m with
  | nil => simp
  | cons key keys ih =>
    rw [List.foldl_cons, ih, get?_insert]
    by_cases hk : k = key <;> simp [hk]

/-- All values of the table satisfy `P`. -/
def All (P : ν → Prop) (m : Table κ ν) : Prop := ∀ k v, m.get? k = some v → P v

omit [DecidableEq κ] in
theorem All.mono {P Q : ν → Prop} {m : Table κ ν} (h : m.All P) (himp : ∀ v, P v → Q v) :
    m.All Q := fun k v hv => himp v (h k v hv)

theorem All.insert {P : ν → Prop} {m : Table κ ν} {k : κ} {v : ν} (h : m.All P) (hv : P v) :
    (m.insert k v).All P := by
  intro k' w hw
  rcases get?_insert_eq_some.mp hw with ⟨-, rfl⟩ | ⟨-, hw⟩
  · exact hv
  · exact h k' w hw

/-- **Removing by key alone is removing one's own entry** exactly when no one else's is there. -/
theorem remove_eq_removeOwn_iff [DecidableEq ν] {m : Table κ ν} {k : κ} {v : ν} :
    m.remove k = m.removeOwn k v ↔ ∀ w ∈ m.get? k, w = v := by
  unfold removeOwn
  constructor
  · intro h w hw
    split at h
    · rename_i hv
      exact Option.some.inj (hw.symm.trans hv)
    · have hk : (m.remove k).get? k = m.get? k := by rw [h]
      rw [get?_remove_self, hw] at hk
      cases hk
  · intro h
    split
    · rfl
    · rename_i hv
      -- only `v` could be stored at `k`, and it is not: the key is free
      have hnone : m.get? k = none := by
        rcases hk : m.get? k with _ | w
        · rfl
        · exact absurd (h w hk ▸ hk) hv
      ext1
      funext k'
      rw [get?_remove]
      split
      · rename_i hkk
        rw [hkk, hnone]
      · rfl

/-! ### Entries and the records behind them -/

/-- Every entry is owned by a party whose record has the entry's key and is ok. -/
def Backed {ω ρ : Type*} (key : ρ → κ) (ok : ρ → Prop) (recs : Table ω ρ) (cur : Table κ ω) :
    Prop :=
  ∀ k c, cur.get? k = some c → ∃ p, recs.get? c = some p ∧ key p = k ∧ ok p

namespace Backed

variable {ω ρ : Type*} [DecidableEq ω] {key : ρ → κ} {ok : ρ → Prop} {recs : Table ω ρ}
  {cur : Table κ ω} {c : ω} {p p' : ρ}

omit [DecidableEq κ] in
/-- A new party owns no entry. -/
theorem new (h : Backed key ok recs cur) (hc : recs.get? c = none) :
    Backed key ok (recs.insert c p') cur := by
  intro k d hd
  obtain ⟨q, hq, hkey, hok⟩ := h k d hd
  exact ⟨q, get?_insert_of_none hc hq, hkey, hok⟩

omit [DecidableEq κ] in
/-- A party changes its record and stays ok. -/
theorem update (h : Backed key ok recs cur) (hp : recs.get? c = some p) (hkey : key p' = key p)
    (hok : ok p → ok p') : Backed key ok (recs.insert c p') cur := by
  intro k d hd
  obtain ⟨q, hq, hk, hq'⟩ := h k d hd
  rcases eq_or_ne d c with rfl | hne
  · obtain rfl := Option.some.inj (hp.symm.trans hq)
    exact ⟨p', get?_insert_self .., hkey.trans hk, hok hq'⟩
  · exact ⟨q, by rw [get?_insert_ne hne, hq], hk, hq'⟩

/-- A party that is ok inserts its entry. -/
theorem insert (h : Backed key ok recs cur) (hp : recs.get? c = some p) (hkey : key p' = key p)
    (hok : ok p') : Backed key ok (recs.insert c p') (cur.insert (key p) c) := by
  intro k d hd
  rcases get?_insert_eq_some.mp hd with ⟨rfl, rfl⟩ | ⟨hne, hd⟩
  · exact ⟨p', get?_insert_self .., hkey, hok⟩
  · obtain ⟨q, hq, rfl, hq'⟩ := h k d hd
    exact ⟨q, get?_insert_of_apart key hp hq hne, rfl, hq'⟩

/-- A party clears its key. -/
theorem remove (h : Backed key ok recs cur) (hp : recs.get? c = some p) :
    Backed key ok (recs.insert c p') (cur.remove (key p)) := by
  intro k d hd
  obtain ⟨hne, hd⟩ := get?_remove_eq_some.mp hd
  obtain ⟨q, hq, rfl, hq'⟩ := h k d hd
  exact ⟨q, get?_insert_of_apart key hp hq hne, rfl, hq'⟩

end Backed

/-! ### The last to insert -/

/-- `last` remembers who inserted last at a key.  Each such party has a record with that key, and
while the record is alive the party's entry stands in `cur`. -/
def LastKept {ω ρ : Type*} (key : ρ → κ) (alive : ρ → Prop) (recs : Table ω ρ)
    (last cur : Table κ ω) : Prop :=
  ∀ k c, last.get? k = some c →
    ∃ p, recs.get? c = some p ∧ key p = k ∧ (alive p → cur.get? k = some c)

namespace LastKept

variable {ω ρ : Type*} [DecidableEq ω] {key : ρ → κ} {alive : ρ → Prop} {recs : Table ω ρ}
  {last cur : Table κ ω} {c : ω} {p p' : ρ}

omit [DecidableEq κ] in
/-- A new party has inserted nothing. -/
theorem new (h : LastKept key alive recs last cur) (hc : recs.get? c = none) :
    LastKept key alive (recs.insert c p') last cur := by
  intro k d hd
  obtain ⟨q, hq, hkey, hcur⟩ := h k d hd
  exact ⟨q, get?_insert_of_none hc hq, hkey, hcur⟩

omit [DecidableEq κ] in
/-- A party that does not come to life changes its record. -/
theorem update (h : LastKept key alive recs last cur) (hp : recs.get? c = some p)
    (hkey : key p' = key p) (halive : alive p' → alive p) :
    LastKept key alive (recs.insert c p') last cur := by
  intro k d hd
  obtain ⟨q, hq, hk, hcur⟩ := h k d hd
  rcases eq_or_ne d c with rfl | hne
  · obtain rfl := Option.some.inj (hp.symm.trans hq)
    exact ⟨p', get?_insert_self .., hkey.trans hk, fun ha => hcur (halive ha)⟩
  · exact ⟨q, by rw [get?_insert_ne hne, hq], hk, hcur⟩

/-- A party inserts its entry. -/
theorem insert (h : LastKept key alive recs last cur) (hp : recs.get? c = some p)
    (hkey : key p' = key p) :
    LastKept key alive (recs.insert c p') (last.insert (key p) c) (cur.insert (key p) c) := by
  intro k d hd
  rcases get?_insert_eq_some.mp hd with ⟨rfl, rfl⟩ | ⟨hne, hd⟩
  · exact ⟨p', get?_insert_self .., hkey, fun _ => get?_insert_self ..⟩
  · obtain ⟨q, hq, rfl, hcur⟩ := h k d hd
    exact ⟨q, get?_insert_of_apart key hp hq hne, rfl,
      fun ha => by rw [get?_insert_ne hne, hcur ha]⟩

/-- A party that is not alive any more takes its own entry out. -/
theorem removeOwn (h : LastKept key alive recs last cur) (hp : recs.get? c = some p)
    (hkey : key p' = key p) (hdead : ¬ alive p') :
    LastKept key alive (recs.insert c p') last (cur.removeOwn (key p) c) := by
  intro k d hd
  obtain ⟨q, hq, rfl, hcur⟩ := h k d hd
  rcases eq_or_ne d c with rfl | hne
  · obtain rfl := Option.some.inj (hp.symm.trans hq)
    exact ⟨p', get?_insert_self .., hkey, fun ha => absurd ha hdead⟩
  · refine ⟨q, by rw [get?_insert_ne hne, hq], rfl, fun ha => ?_⟩
    unfold Table.removeOwn
    split
    · rename_i hown
      -- `c` still owns the entry at its key, so the live entry of `d` stands at another key
      have hk : key q ≠ key p := by
        intro hk
        rw [hk, hown] at hcur
        exact hne (Option.some.inj (hcur ha)).symm
      rw [get?_remove_ne hk, hcur ha]
    · exact hcur ha

end LastKept

end Table

end Boardwalk
