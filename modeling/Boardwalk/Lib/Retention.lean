import Mathlib.Data.List.Nodup
import Mathlib.Logic.Function.Basic
import Mathlib.Tactic.Common

/-!
# A reverse index with bounded retention

Items are retained in a ring for each stream, and an index maps the id of an item back to its stream.
The index is changed at other times than the rings: an id is entered before its item comes into a
ring and leaves after its item has left the ring.  In between some party answers for the entry: it
is `held`.

`Balanced` says that the index has exactly the entries that are held or whose item is in a ring.  It
is kept by the four steps of an entry: `enter`, `record` (into the ring, with an item dropping out),
`forget`, and a change of hands.
-/

namespace Boardwalk

/-- An index, the entries that parties answer for, and the ids in the rings. -/
structure Retention (ι σ : Type*) where
  index : ι → Option σ
  held : List (ι × σ)
  ring : σ → List ι

namespace Retention

variable {ι σ : Type*}

/-- The index has the held entries and those of the rings, each of them once; `entered` are all the
entries that were made. -/
structure Balanced (entered : ι → σ → Prop) (r : Retention ι σ) : Prop where
  nodup : (r.held.map Prod.fst).Nodup
  known : ∀ x st, (x, st) ∈ r.held → entered x st
  kept : ∀ st, ∀ x ∈ r.ring st, entered x st ∧ x ∉ r.held.map Prod.fst
  once : ∀ st, (r.ring st).Nodup
  unique : ∀ x st st', entered x st → entered x st' → st = st'
  index_iff : ∀ x st, r.index x = some st ↔ (x, st) ∈ r.held ∨ x ∈ r.ring st

variable {entered : ι → σ → Prop} {r : Retention ι σ} {x : ι} {st : σ} {held : List (ι × σ)}

theorem balanced_empty : Balanced (fun _ _ => False) (⟨fun _ => none, [], fun _ => []⟩ :
    Retention ι σ) where
  nodup := List.nodup_nil
  known := by simp
  kept := by simp
  once _ := List.nodup_nil
  unique := by simp
  index_iff := by simp

namespace Balanced

/-- With nothing held the index is that of the rings. -/
theorem index_iff_ring (h : r.Balanced entered) (hheld : r.held = []) :
    r.index x = some st ↔ x ∈ r.ring st := by
  rw [h.index_iff, hheld]
  simp

/-- An entry changes hands. -/
theorem perm (h : r.Balanced entered) (hperm : r.held.Perm held) :
    Balanced entered { r with held } where
  nodup := (hperm.map _).nodup_iff.mp h.nodup
  known x st hx := h.known x st (hperm.mem_iff.mpr hx)
  kept st x hx :=
    ⟨(h.kept st x hx).1, fun hmem => (h.kept st x hx).2 ((hperm.map _).mem_iff.mpr hmem)⟩
  once := h.once
  unique := h.unique
  index_iff x st := by
    have hold := h.index_iff x st
    rw [hperm.mem_iff] at hold
    exact hold

/-- A held entry is of no other party, and in no ring. -/
theorem head (h : r.Balanced entered) (hperm : r.held.Perm ((x, st) :: held)) :
    x ∉ held.map Prod.fst ∧ ∀ st', x ∉ r.ring st' := by
  have hnodup := (hperm.map Prod.fst).nodup_iff.mp h.nodup
  rw [List.map_cons] at hnodup
  refine ⟨(List.nodup_cons.mp hnodup).1, fun st' hx => (h.kept st' x hx).2 ?_⟩
  exact List.mem_map.mpr ⟨(x, st), hperm.mem_iff.mpr List.mem_cons_self, rfl⟩

variable [DecidableEq ι]

/-- **A new id is entered.** -/
theorem enter {entered' : ι → σ → Prop} (h : r.Balanced entered) (hnew : ∀ st', ¬ entered x st')
    (hentered : ∀ y st', entered' y st' ↔ entered y st' ∨ y = x ∧ st' = st)
    (hheld : held.Perm ((x, st) :: r.held)) :
    Balanced entered' { r with index := Function.update r.index x (some st), held } := by
  -- what is held was entered before, and `x` was not
  have hfree : x ∉ r.held.map Prod.fst := by
    intro hx
    obtain ⟨⟨y, st'⟩, hmem, rfl⟩ := List.mem_map.mp hx
    exact hnew st' (h.known y st' hmem)
  refine ⟨?_, fun y st' hy => ?_, fun st' y hy => ?_, h.once, fun y st₁ st₂ h₁ h₂ => ?_,
    fun y st' => ?_⟩
  · rw [(hheld.map Prod.fst).nodup_iff]
    exact List.nodup_cons.mpr ⟨hfree, h.nodup⟩
  · rw [hentered]
    rcases List.mem_cons.mp (hheld.mem_iff.mp hy) with heq | hmem
    · exact .inr (Prod.mk.inj heq)
    · exact .inl (h.known y st' hmem)
  · obtain ⟨hent, hout⟩ := h.kept st' y hy
    refine ⟨(hentered y st').mpr (.inl hent), fun hmem => ?_⟩
    rcases List.mem_cons.mp ((hheld.map Prod.fst).mem_iff.mp hmem) with heq | hmem
    · have hyx : y = x := heq
      rw [hyx] at hent
      exact hnew st' hent
    · exact hout hmem
  · -- `x` has the one state it is entered with now
    rcases (hentered y st₁).mp h₁ with hold₁ | ⟨rfl, rfl⟩
    · rcases (hentered y st₂).mp h₂ with hold₂ | ⟨rfl, rfl⟩
      · exact h.unique y st₁ st₂ hold₁ hold₂
      · exact absurd hold₁ (hnew st₁)
    · rcases (hentered y st₂).mp h₂ with hold₂ | ⟨-, rfl⟩
      · exact absurd hold₂ (hnew st₂)
      · rfl
  · dsimp only
    rw [hheld.mem_iff, List.mem_cons]
    -- the index maps `x` to its new state, and everything else as before
    by_cases hyx : y = x
    · subst hyx
      rw [Function.update_self]
      constructor
      · intro heq
        rw [Option.some.inj heq]
        exact .inl (.inl rfl)
      · rintro ((heq | hmem) | hring)
        · rw [(Prod.mk.inj heq).2]
        · exact absurd (h.known y st' hmem) (hnew st')
        · exact absurd (h.kept st' y hring).1 (hnew st')
    · have hne : (y, st') ≠ (x, st) := fun heq => hyx (Prod.mk.inj heq).1
      rw [Function.update_of_ne hyx, h.index_iff]
      simp only [hne, false_or]

/-- **A held id is forgotten.** -/
theorem forget (h : r.Balanced entered) (hheld : r.held.Perm ((x, st) :: held)) :
    Balanced entered { r with index := Function.update r.index x none, held } := by
  -- `x` is held once, and in no ring, so nothing else speaks of it
  obtain ⟨hother, hring⟩ := h.head hheld
  have hperm := h.perm hheld
  have hmem : ∀ {y}, y ∈ held.map Prod.fst → y ∈ r.held.map Prod.fst := fun hy =>
    (hheld.map Prod.fst).mem_iff.mpr (List.mem_cons_of_mem _ hy)
  refine ⟨(List.nodup_cons.mp hperm.nodup).2,
    fun y st' hy => hperm.known y st' (List.mem_cons_of_mem _ hy),
    fun st' y hy => ⟨(h.kept st' y hy).1, fun hy' => (h.kept st' y hy).2 (hmem hy')⟩, h.once,
    h.unique, fun y st' => ?_⟩
  dsimp only
  by_cases hyx : y = x
  · subst hyx
    rw [Function.update_self]
    have hnot : (y, st') ∉ held := fun hy => hother (List.mem_map_of_mem hy)
    simp [hnot, hring st']
  · have hne : (y, st') ≠ (x, st) := fun heq => hyx (Prod.mk.inj heq).1
    have hold := hperm.index_iff y st'
    rw [List.mem_cons] at hold
    simp only [hne, false_or] at hold
    rw [Function.update_of_ne hyx]
    exact hold

omit [DecidableEq ι] in
/-- **A held id comes into the ring of its stream**; what drops out of the ring is held. -/
theorem record [DecidableEq σ] {dropped kept : List ι} {others : List (ι × σ)}
    (h : r.Balanced entered) (hring : r.ring st = dropped ++ kept)
    (hold : r.held.Perm ((x, st) :: others))
    (hnew : held.Perm (dropped.map (·, st) ++ others)) :
    Balanced entered
      { r with held, ring := Function.update r.ring st (kept ++ [x]) } := by
  obtain ⟨hother, hout⟩ := h.head hold
  have hperm := h.perm hold
  have honce := h.once st
  rw [hring] at honce
  obtain ⟨hdropped, hkept, hapart⟩ := List.nodup_append.mp honce
  have hothers : ∀ {y}, y ∈ others.map Prod.fst → y ∈ r.held.map Prod.fst := fun hy =>
    (hold.map Prod.fst).mem_iff.mpr (List.mem_cons_of_mem _ hy)
  have hmap : (dropped.map (·, st) ++ others).map Prod.fst =
      dropped ++ others.map Prod.fst := by
    simp [Function.comp_def]
  have hxst : entered x st := h.known x st (hold.mem_iff.mpr List.mem_cons_self)
  have hmemRing : ∀ {y}, y ∈ dropped ∨ y ∈ kept → y ∈ r.ring st := by
    intro y hy
    rw [hring]
    exact List.mem_append.mpr hy
  -- an id of another stream's ring has not dropped out of this one's
  have hdrop : ∀ {y st'}, y ∈ r.ring st' → y ∉ others.map Prod.fst → st' ≠ st →
      y ∉ held.map Prod.fst := by
    intro y st' hy hyo hne hmem
    rw [(hnew.map Prod.fst).mem_iff, hmap, List.mem_append] at hmem
    rcases hmem with hmem | hmem
    · exact hne (h.unique y st' st (h.kept st' y hy).1 (h.kept st y (hmemRing (.inl hmem))).1)
    · exact hyo hmem
  refine ⟨?_, fun y st' hy => ?_, fun st' y hy => ?_, fun st' => ?_, h.unique, fun y st' => ?_⟩
  · rw [(hnew.map Prod.fst).nodup_iff, hmap]
    refine List.nodup_append.mpr ⟨hdropped, (List.nodup_cons.mp hperm.nodup).2, ?_⟩
    rintro y hy _ hy' rfl
    exact (h.kept st y (hmemRing (.inl hy))).2 (hothers hy')
  · rcases List.mem_append.mp (hnew.mem_iff.mp hy) with hy | hy
    · obtain ⟨z, hz, heq⟩ := List.mem_map.mp hy
      obtain ⟨rfl, rfl⟩ := Prod.mk.inj heq
      exact (h.kept st z (hmemRing (.inl hz))).1
    · exact hperm.known y st' (List.mem_cons_of_mem _ hy)
  · dsimp only at hy ⊢
    by_cases hst : st' = st
    · subst hst
      rw [Function.update_self] at hy
      rw [(hnew.map Prod.fst).mem_iff, hmap, List.mem_append]
      rcases List.mem_append.mp hy with hy | hy
      · obtain ⟨hent, hfree⟩ := h.kept st' y (hmemRing (.inr hy))
        refine ⟨hent, ?_⟩
        rintro (hd | ho)
        · exact hapart y hd y hy rfl
        · exact hfree (hothers ho)
      · obtain rfl := List.mem_singleton.mp hy
        refine ⟨hxst, ?_⟩
        rintro (hd | ho)
        · exact hout st' (hmemRing (.inl hd))
        · exact hother ho
    · rw [Function.update_of_ne hst] at hy
      obtain ⟨hent, hfree⟩ := h.kept st' y hy
      exact ⟨hent, hdrop hy (fun ho => hfree (hothers ho)) hst⟩
  · dsimp only
    by_cases hst : st' = st
    · subst hst
      rw [Function.update_self]
      refine List.nodup_append.mpr ⟨hkept, List.nodup_singleton _, ?_⟩
      rintro y hy _ hy' rfl
      rw [List.mem_singleton.mp hy'] at hy
      exact hout st' (hmemRing (.inr hy))
    · rw [Function.update_of_ne hst]
      exact h.once st'
  · have hindex := hperm.index_iff y st'
    have hmem : (y, st') ∈ held ↔ st' = st ∧ y ∈ dropped ∨ (y, st') ∈ others := by
      rw [hnew.mem_iff, List.mem_append, List.mem_map]
      constructor
      · rintro (⟨z, hz, heq⟩ | ho)
        · obtain ⟨rfl, rfl⟩ := Prod.mk.inj heq
          exact .inl ⟨rfl, hz⟩
        · exact .inr ho
      · rintro (⟨rfl, hd⟩ | ho)
        · exact .inl ⟨y, hd, rfl⟩
        · exact .inr ho
    dsimp only at hindex ⊢
    rw [hmem]
    rw [List.mem_cons, Prod.mk.injEq] at hindex
    by_cases hst : st' = st
    · subst hst
      rw [Function.update_self, List.mem_append, List.mem_singleton]
      rw [hring, List.mem_append] at hindex
      grind
    · rw [Function.update_of_ne hst]
      grind

end Balanced

end Retention

end Boardwalk
