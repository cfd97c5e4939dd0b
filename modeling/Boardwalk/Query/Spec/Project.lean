import Boardwalk.Query.Eval

/-!
# What a projection returns

A projection inserts the values of its paths one after the other, and the paths may overlap: a path
below an earlier one finds its value copied already, a path above one replaces what is there, and
what is on the way to a path is an object in either case.  After any number of paths the result is
described by the paths that resolve (`Projects`): below them it is the target, above them it has
objects, and elsewhere it has nothing.
-/

namespace Boardwalk

open Json

/-! ### Insertions -/

@[simp] theorem get_object (ms : List (String × Json)) (key : String) :
    (Json.object ms).get key = lookupKey ms key := rfl

@[simp] theorem lookupPath_nil (t : Json) : lookupPath [] t = some t := rfl

@[simp] theorem lookupPath_cons (seg : String) (segs : List String) (t : Json) :
    lookupPath (seg :: segs) t = (t.get seg).bind (lookupPath segs) := rfl

theorem lookupPath_append (r s : List String) (t : Json) :
    lookupPath (r ++ s) t = (lookupPath r t).bind (lookupPath s) := by
  induction r generalizing t with
  | nil => rfl
  | cons seg r ih =>
    rw [List.cons_append, lookupPath_cons, lookupPath_cons, Option.bind_assoc]
    congr 1
    funext w
    exact ih w

/-- What a path goes on from is an object. -/
theorem eq_object_of_lookupPath {s : List String} {w v : Json} (hs : s ≠ [])
    (h : lookupPath s w = some v) : ∃ m, w = .object m := by
  cases s with
  | nil => exact absurd rfl hs
  | cons seg s =>
    cases w with
    | object m => exact ⟨m, rfl⟩
    | _ => simp [Json.get] at h

/-- A key inserted is the one looked up, and every other key stays. -/
theorem lookupKey_insertKey (out : List (String × Json)) (key : String) (value : Json)
    (k : String) :
    lookupKey (insertKey out key value) k = if k = key then some value else lookupKey out k := by
  -- on the fields: the first one with the key is replaced
  induction out with
  | nil =>
    by_cases hk : k = key
    · simp [insertKey, lookupKey, hk]
    · simp [insertKey, lookupKey, hk, Ne.symm hk]
  | cons m out ih =>
    unfold insertKey
    by_cases hm : m.1 = key
    · by_cases hk : k = key
      · simp [lookupKey, hm, hk]
      · simp [lookupKey, hm, hk, Ne.symm hk]
    · rw [if_neg (by simpa using hm)]
      by_cases hmk : m.1 = k
      · have hk : k ≠ key := hmk ▸ hm
        simp [lookupKey, hmk, hk]
      · -- a field with another key is passed over
        have hskip : ∀ ms, lookupKey (m :: ms) k = lookupKey ms k := by
          intro ms
          simp [lookupKey, hmk]
        rw [hskip, hskip, ih]

/-- Inserting the value that a key has already. -/
theorem insertKey_eq_self {out : List (String × Json)} {key : String} {value : Json}
    (h : lookupKey out key = some value) : insertKey out key value = out := by
  induction out with
  | nil => simp [lookupKey] at h
  | cons m out ih =>
    unfold insertKey
    by_cases hm : m.1 = key
    · have hvalue : m.2 = value := by simpa [lookupKey, hm] using h
      rw [if_pos (by simpa using hm), ← hvalue]
    · have hrest : lookupKey out key = some value := by simpa [lookupKey, hm] using h
      rw [if_neg (by simpa using hm), ih hrest]

/-- What there is on the way to a path is objects. -/
def OpenAlong (u : Json) (p : List String) : Prop :=
  ∀ r s w, p = r ++ s → s ≠ [] → lookupPath r u = some w → ∃ m, w = .object m

/-- An insertion goes down to the object of the first key, which is empty where there is none. -/
theorem insertPath_cons {out : List (String × Json)} {seg : String} {segs : List String}
    (hsegs : segs ≠ []) (hopen : OpenAlong (.object out) (seg :: segs)) (value : Json) :
    ∃ m, insertPath out (seg :: segs) value = insertKey out seg (.object (insertPath m segs value)) ∧
      OpenAlong (.object m) segs ∧
      ∀ r, r ≠ [] → lookupPath r (.object m) = lookupPath (seg :: r) (.object out) := by
  -- the object that `seg` leads to, or a new empty one
  obtain ⟨m, hm, hlook⟩ : ∃ m, (lookupKey out seg).getD (.object []) = .object m ∧
      ∀ r, r ≠ [] → lookupPath r (.object m) = lookupPath (seg :: r) (.object out) := by
    rcases hkey : lookupKey out seg with _ | w
    · refine ⟨[], rfl, ?_⟩
      intro r hr
      cases r with
      | nil => exact absurd rfl hr
      | cons key r =>
        have hempty : lookupKey [] key = none := rfl
        simp only [lookupPath_cons, get_object, hkey, hempty, Option.bind_none]
    · obtain ⟨m, rfl⟩ := hopen [seg] segs w rfl hsegs (by simp [hkey])
      exact ⟨m, rfl, fun r _ => by simp [hkey]⟩
  refine ⟨m, ?_, ?_, hlook⟩
  · cases segs with
    | nil => exact absurd rfl hsegs
    | cons seg' segs => simp only [insertPath, hm]
  · -- what is open along the longer path is open along the rest
    intro r s w hrs hs hw
    cases r with
    | nil => exact ⟨m, (Option.some.inj hw).symm⟩
    | cons key r =>
      rw [hlook _ (List.cons_ne_nil key r)] at hw
      exact hopen (seg :: key :: r) s w (by rw [hrs]; rfl) hs hw

/-- Below the path there is the value. -/
theorem lookupPath_insertPath_append {p : List String} (hp : p ≠ []) (s : List String)
    (value : Json) {out : List (String × Json)} (hopen : OpenAlong (.object out) p) :
    lookupPath (p ++ s) (.object (insertPath out p value)) = lookupPath s value := by
  induction p generalizing out with
  | nil => exact absurd rfl hp
  | cons seg segs ih =>
    by_cases hsegs : segs = []
    · subst hsegs
      simp [insertPath, lookupKey_insertKey]
    · obtain ⟨m, hinsert, hopen', -⟩ := insertPath_cons hsegs hopen value
      rw [hinsert, List.cons_append, lookupPath_cons, get_object, lookupKey_insertKey, if_pos rfl]
      exact ih hsegs hopen'

/-- Above the path there are objects. -/
theorem lookupPath_insertPath_prefix {r s : List String} (hs : s ≠ []) (value : Json)
    {out : List (String × Json)} (hopen : OpenAlong (.object out) (r ++ s)) :
    ∃ m, lookupPath r (.object (insertPath out (r ++ s) value)) = some (.object m) := by
  induction r generalizing out with
  | nil => exact ⟨_, rfl⟩
  | cons seg r ih =>
    have hsegs : r ++ s ≠ [] := by simp [hs]
    obtain ⟨m, hinsert, hopen', -⟩ := insertPath_cons hsegs hopen value
    rw [List.cons_append, hinsert, lookupPath_cons, get_object, lookupKey_insertKey, if_pos rfl]
    exact ih hopen'

/-- Beside the path nothing changes. -/
theorem lookupPath_insertPath_of_apart {p r : List String} (hbelow : ¬ p <+: r) (habove : ¬ r <+: p)
    (value : Json) {out : List (String × Json)} (hopen : OpenAlong (.object out) p) :
    lookupPath r (.object (insertPath out p value)) = lookupPath r (.object out) := by
  -- on the path that is inserted
  induction p generalizing r out with
  | nil => exact absurd r.nil_prefix hbelow
  | cons seg segs ih =>
    cases r with
    | nil => exact absurd (List.nil_prefix) habove
    | cons key r =>
      -- the same first key: one level down the two paths are still apart
      by_cases hkey : key = seg
      · subst hkey
        rw [List.cons_prefix_cons] at hbelow habove
        have hbelow' : ¬ segs <+: r := fun h => hbelow ⟨rfl, h⟩
        have habove' : ¬ r <+: segs := fun h => habove ⟨rfl, h⟩
        have hsegs : segs ≠ [] := by
          rintro rfl
          exact hbelow' List.nil_prefix
        have hr : r ≠ [] := by
          rintro rfl
          exact habove' List.nil_prefix
        obtain ⟨m, hinsert, hopen', hlook⟩ := insertPath_cons hsegs hopen value
        rw [hinsert, lookupPath_cons, get_object, lookupKey_insertKey, if_pos rfl, ← hlook r hr]
        exact ih hbelow' habove' hopen'
      · -- another first key: that field is kept
        have hkeep : ∀ w, lookupKey (insertKey out seg w) key = lookupKey out key := by
          intro w
          rw [lookupKey_insertKey, if_neg hkey]
        by_cases hsegs : segs = []
        · subst hsegs
          simp [insertPath, hkeep]
        · obtain ⟨m, hinsert, -, -⟩ := insertPath_cons hsegs hopen value
          simp [hinsert, hkeep]

/-- Inserting the value that a path has already. -/
theorem insertPath_eq_self {p : List String} {value : Json} {out : List (String × Json)}
    (h : lookupPath p (.object out) = some value) : insertPath out p value = out := by
  -- on the path
  induction p generalizing out with
  | nil => rfl
  | cons seg segs ih =>
    obtain ⟨w, hw, hrest⟩ := Option.bind_eq_some_iff.mp h
    rw [get_object] at hw
    by_cases hsegs : segs = []
    · subst hsegs
      cases hrest
      exact insertKey_eq_self hw
    · -- every object on the way is there already
      have hopen : OpenAlong (.object out) (seg :: segs) := by
        intro r s w' hrs hs hw'
        rw [hrs, lookupPath_append, hw'] at h
        exact eq_object_of_lookupPath hs h
      obtain ⟨m, rfl⟩ := eq_object_of_lookupPath hsegs hrest
      cases segs with
      | nil => exact absurd rfl hsegs
      | cons seg' segs =>
        simp only [insertPath, hw, Option.getD_some]
        rw [ih hrest]
        exact insertKey_eq_self hw

/-! ### What the result is made of -/

/-- The object `u` holds what the target `t` has at the paths `P`, and nothing else. -/
structure Projects (t : Json) (P : List (List String)) (u : Json) : Prop where
  root : ∃ m, u = .object m
  resolves : ∀ p ∈ P, ∃ v, lookupPath p t = some v
  /-- Below a path there is what the target has there. -/
  copied : ∀ p ∈ P, ∀ s, lookupPath (p ++ s) u = lookupPath (p ++ s) t
  /-- Above a path there are objects. -/
  made : ∀ p ∈ P, ∀ r s, p = r ++ s → s ≠ [] → ∃ m, lookupPath r u = some (.object m)
  /-- There is nothing else. -/
  only : ∀ r v, lookupPath r u = some v → r = [] ∨ ∃ p ∈ P, r <+: p ∨ p <+: r

theorem projects_nil (t : Json) : Projects t [] (.object []) := by
  refine ⟨⟨[], rfl⟩, by simp, by simp, by simp, ?_⟩
  intro r v h
  cases r with
  | nil => exact .inl rfl
  | cons seg r =>
    have hempty : lookupKey [] seg = none := rfl
    simp [hempty] at h

section Step

variable {t v : Json} {P : List (List String)} {p : List String} {u : Json}

/-- On the way to a path that resolves in the target there are objects. -/
theorem Projects.openAlong (h : Projects t P u) (hv : lookupPath p t = some v) :
    OpenAlong u p := by
  intro r s w hrs hs hw
  -- where the result has what the target has, the path goes on from it
  have htarget : lookupPath r u = lookupPath r t → ∃ m, w = .object m := by
    intro heq
    rw [hrs, lookupPath_append, ← heq, hw] at hv
    exact eq_object_of_lookupPath hs hv
  rcases h.only r w hw with rfl | ⟨q, hq, ⟨s', rfl⟩ | ⟨s', rfl⟩⟩
  · obtain ⟨m, rfl⟩ := h.root
    exact ⟨m, (Option.some.inj hw).symm⟩
  · by_cases hs' : s' = []
    · subst hs'
      have hcopied := h.copied _ hq []
      rw [List.append_nil, List.append_nil] at hcopied
      exact htarget hcopied
    · obtain ⟨m, hm⟩ := h.made _ hq r s' rfl hs'
      rw [hw, Option.some.injEq] at hm
      exact ⟨m, hm⟩
  · exact htarget (h.copied q hq s')

/-- A path below one that is copied already adds nothing. -/
theorem Projects.cons_of_below {q s : List String} (h : Projects t P u) (hq : q ∈ P)
    (hp : p = q ++ s) (hv : lookupPath p t = some v) : Projects t (p :: P) u := by
  -- what `q` copied lies under it, and `p` lies there too
  have hcopied : ∀ s', lookupPath (p ++ s') u = lookupPath (p ++ s') t := by
    intro s'
    rw [hp, List.append_assoc]
    exact h.copied q hq (s ++ s')
  refine ⟨h.root, ?_, ?_, ?_, ?_⟩
  · rintro p' (_ | ⟨_, hp'⟩)
    · exact ⟨v, hv⟩
    · exact h.resolves p' hp'
  · rintro p' (_ | ⟨_, hp'⟩)
    · exact hcopied
    · exact h.copied p' hp'
  · -- an object on the way to `p` is copied from the target
    rintro p' (_ | ⟨_, hp'⟩) r s' hrs hs'
    · have hself := hcopied []
      rw [List.append_nil, hv, hrs, lookupPath_append] at hself
      obtain ⟨w, hw, hrest⟩ := Option.bind_eq_some_iff.mp hself
      obtain ⟨m, rfl⟩ := eq_object_of_lookupPath hs' hrest
      exact ⟨m, hw⟩
    · exact h.made p' hp' r s' hrs hs'
  · intro r w hw
    rcases h.only r w hw with hr | ⟨p', hp', hr⟩
    · exact .inl hr
    · exact .inr ⟨p', List.mem_cons_of_mem p hp', hr⟩

/-- Any other path is copied, over what was copied below it. -/
theorem Projects.insert {out : List (String × Json)} (h : Projects t P (.object out))
    (hp : p ≠ []) (hv : lookupPath p t = some v) (hnot : ∀ q ∈ P, ¬ q <+: p) :
    Projects t (p :: P) (.object (insertPath out p v)) := by
  have hopen : OpenAlong (.object out) p := h.openAlong hv
  have hcopied : ∀ s, lookupPath (p ++ s) (.object (insertPath out p v)) =
      lookupPath (p ++ s) t := by
    intro s
    rw [lookupPath_insertPath_append hp s v hopen, lookupPath_append, hv]
    rfl
  have hmade : ∀ r s, p = r ++ s → s ≠ [] →
      ∃ m, lookupPath r (.object (insertPath out p v)) = some (.object m) := by
    rintro r s rfl hs
    exact lookupPath_insertPath_prefix hs v hopen
  -- a path that is neither above nor below the new one keeps its value
  have hapart : ∀ r, ¬ p <+: r → ¬ r <+: p →
      lookupPath r (.object (insertPath out p v)) = lookupPath r (.object out) :=
    fun r hbelow habove => lookupPath_insertPath_of_apart hbelow habove v hopen
  -- root, the new paths' values, the copies, the objects on the way, and nothing else
  refine ⟨⟨_, rfl⟩, ?_, ?_, ?_, ?_⟩
  · rintro p' (_ | ⟨_, hp'⟩)
    · exact ⟨v, hv⟩
    · exact h.resolves p' hp'
  · rintro p' (_ | ⟨_, hp'⟩) s
    · exact hcopied s
    · by_cases hbelow : p <+: p' ++ s
      · obtain ⟨s', hs'⟩ := hbelow
        rw [← hs']
        exact hcopied s'
      · have habove : ¬ p' ++ s <+: p := fun hpre =>
          hnot p' hp' ((List.prefix_append p' s).trans hpre)
        rw [hapart _ hbelow habove]
        exact h.copied p' hp' s
  · rintro p' (_ | ⟨_, hp'⟩) r s hrs hs
    · exact hmade r s hrs hs
    · by_cases hbelow : p <+: r
      · -- below the new path there is the target, where `p'` goes on
        obtain ⟨s', rfl⟩ := hbelow
        obtain ⟨v', hv'⟩ := h.resolves p' hp'
        rw [hrs, lookupPath_append] at hv'
        obtain ⟨w, hw, hrest⟩ := Option.bind_eq_some_iff.mp hv'
        obtain ⟨m, rfl⟩ := eq_object_of_lookupPath hs hrest
        exact ⟨m, (hcopied s').trans hw⟩
      · by_cases habove : r <+: p
        · obtain ⟨s', hs'⟩ := habove
          refine hmade r s' hs'.symm ?_
          rintro rfl
          rw [List.append_nil] at hs'
          exact hbelow (hs' ▸ List.prefix_refl r)
        · rw [hapart r hbelow habove]
          exact h.made p' hp' r s hrs hs
  · intro r w hw
    by_cases hbelow : p <+: r
    · exact .inr ⟨p, List.mem_cons_self, .inr hbelow⟩
    · by_cases habove : r <+: p
      · exact .inr ⟨p, List.mem_cons_self, .inl habove⟩
      · rw [hapart r hbelow habove] at hw
        rcases h.only r w hw with hr | ⟨p', hp', hr⟩
        · exact .inl hr
        · exact .inr ⟨p', List.mem_cons_of_mem p hp', hr⟩

/-- One path more. -/
theorem Projects.step {out : List (String × Json)} (h : Projects t P (.object out))
    (hp : p ≠ []) (hv : lookupPath p t = some v) :
    Projects t (p :: P) (.object (insertPath out p v)) := by
  by_cases hbelow : ∃ q ∈ P, q <+: p
  · obtain ⟨q, hq, s, hs⟩ := hbelow
    have hthere : lookupPath p (.object out) = some v := by
      rw [← hs, h.copied q hq s, hs]
      exact hv
    rw [insertPath_eq_self hthere]
    exact h.cons_of_below hq hs.symm hv
  · exact h.insert hp hv fun q hq hpre => hbelow ⟨q, hq, hpre⟩

end Step

/-- The paths that resolve. -/
def resolving (t : Json) (ps : List FieldPath) : List (List String) :=
  (ps.filter fun p => (lookup p t).isSome).map (·.segments)

theorem mem_resolving_iff {t : Json} {ps : List FieldPath} {segs : List String} :
    segs ∈ resolving t ps ↔ ∃ p ∈ ps, p.segments = segs ∧ (lookup p t).isSome := by
  simp only [resolving, List.mem_map, List.mem_filter]
  constructor
  · rintro ⟨p, ⟨hp, hv⟩, rfl⟩
    exact ⟨p, hp, rfl, hv⟩
  · rintro ⟨p, hp, rfl, hv⟩
    exact ⟨p, ⟨hp, hv⟩, rfl⟩

/-- Projecting more fields adds those of them that resolve. -/
theorem projects_projectFields {t : Json} {ps : List FieldPath} (hps : ∀ p ∈ ps, p.segments ≠ [])
    {P : List (List String)} {out : List (String × Json)} (h : Projects t P (.object out)) :
    ∃ P', Projects t P' (.object (projectFields t out ps)) ∧
      ∀ p, p ∈ P' ↔ p ∈ P ∨ p ∈ resolving t ps := by
  induction ps generalizing P out with
  | nil => exact ⟨P, h, by simp [resolving]⟩
  | cons p ps ih =>
    have hrest : ∀ p ∈ ps, p.segments ≠ [] := fun q hq => hps q (List.mem_cons_of_mem p hq)
    rcases hv : lookup p t with _ | v
    · have hskip : resolving t (p :: ps) = resolving t ps := by
        simp [resolving, hv]
      simp only [projectFields, hv, hskip]
      exact ih hrest h
    · obtain ⟨P', hP', hmem⟩ := ih hrest (h.step (hps p List.mem_cons_self) hv)
      have hadd : resolving t (p :: ps) = p.segments :: resolving t ps := by
        simp [resolving, hv]
      simp only [projectFields, hv, hadd]
      refine ⟨P', hP', ?_⟩
      intro q
      rw [hmem, List.mem_cons, List.mem_cons]
      tauto

/-- **A projection holds what the target has at the paths that resolve.** -/
theorem projects_project (t : Json) {ps : List FieldPath} (hps : ∀ p ∈ ps, p.segments ≠ [])
    (predicate : Predicate) : ∃ P, Projects t P ((Query.mk (.fields ps) predicate).project t) ∧
      ∀ p, p ∈ P ↔ p ∈ resolving t ps := by
  obtain ⟨P, hP, hmem⟩ := projects_projectFields hps (projects_nil t)
  exact ⟨P, hP, by simpa using hmem⟩

/-! ### Results as maps -/

/-- A value without the members of an object. -/
def outer : Json → Json
  | .object _ => .object []
  | v => v

/-- Two values that no path of keys tells apart: at its end there is nothing in both, an object in
both, or the same other value in both. -/
def SameFields (u u' : Json) : Prop :=
  ∀ r, (lookupPath r u).map outer = (lookupPath r u').map outer

/-- The paths say what the object is, but for the order of its members. -/
theorem sameFields_of_projects {t t' u u' : Json} {P P' : List (List String)}
    (h : Projects t P u) (h' : Projects t' P' u') (hmem : ∀ p, p ∈ P ↔ p ∈ P')
    (hbelow : ∀ p ∈ P, ∀ s, lookupPath (p ++ s) u = lookupPath (p ++ s) u') : SameFields u u' := by
  intro r
  -- a path below a copied one, above one, or neither
  by_cases hcopied : ∃ p ∈ P, p <+: r
  · obtain ⟨p, hp, s, rfl⟩ := hcopied
    rw [hbelow p hp s]
  · by_cases hmade : ∃ p ∈ P, r <+: p
    · obtain ⟨p, hp, s, hs⟩ := hmade
      have hne : s ≠ [] := by
        rintro rfl
        rw [List.append_nil] at hs
        exact hcopied ⟨p, hp, hs ▸ List.prefix_refl r⟩
      obtain ⟨m, hm⟩ := h.made p hp r s hs.symm hne
      obtain ⟨m', hm'⟩ := h'.made p ((hmem p).mp hp) r s hs.symm hne
      rw [hm, hm']
      rfl
    · -- neither: only the root is there
      by_cases hr : r = []
      · obtain ⟨m, rfl⟩ := h.root
        obtain ⟨m', rfl⟩ := h'.root
        subst hr
        rfl
      · -- nothing else is in the result
        have hnone : ∀ {t u P}, Projects t P u → (∀ p, p ∈ P → ¬ p <+: r ∧ ¬ r <+: p) →
            lookupPath r u = none := by
          intro t u P h hapart
          by_contra hsome
          obtain ⟨v, hv⟩ := Option.ne_none_iff_exists'.mp hsome
          rcases h.only r v hv with hnil | ⟨p, hp, hpre | hpre⟩
          · exact hr hnil
          · exact (hapart p hp).2 hpre
          · exact (hapart p hp).1 hpre
        have hapart : ∀ p ∈ P, ¬ p <+: r ∧ ¬ r <+: p :=
          fun p hp => ⟨fun hpre => hcopied ⟨p, hp, hpre⟩, fun hpre => hmade ⟨p, hp, hpre⟩⟩
        rw [hnone h hapart, hnone h' fun p hp => hapart p ((hmem p).mpr hp)]

/-- In the result the same paths resolve as in the target. -/
theorem Projects.resolving_eq {t u : Json} {P : List (List String)} {ps : List FieldPath}
    (h : Projects t P u) (hmem : ∀ p, p ∈ P ↔ p ∈ resolving t ps)
    (hps : ∀ p ∈ ps, p.segments ≠ []) (segs : List String) :
    segs ∈ resolving u ps ↔ segs ∈ resolving t ps := by
  rw [mem_resolving_iff, mem_resolving_iff]
  -- the result reaches `p` only through a copied path
  constructor
  · rintro ⟨p, hp, rfl, hv⟩
    refine ⟨p, hp, rfl, ?_⟩
    obtain ⟨v, hv⟩ := Option.isSome_iff_exists.mp hv
    rcases h.only p.segments v hv with hnil | ⟨q, hq, ⟨s, hs⟩ | ⟨s, hs⟩⟩
    · exact absurd hnil (hps p hp)
    · -- what a longer path reaches, it reaches through `p`
      obtain ⟨w, hw⟩ := h.resolves q hq
      rw [← hs, lookupPath_append] at hw
      obtain ⟨w', hw', -⟩ := Option.bind_eq_some_iff.mp hw
      exact Option.isSome_iff_exists.mpr ⟨w', hw'⟩
    · have hcopied := h.copied q hq s
      rw [hs] at hcopied
      exact Option.isSome_iff_exists.mpr ⟨v, hcopied.symm.trans hv⟩
  · rintro ⟨p, hp, rfl, hv⟩
    refine ⟨p, hp, rfl, ?_⟩
    have hin : p.segments ∈ P := (hmem _).mpr (mem_resolving_iff.mpr ⟨p, hp, rfl, hv⟩)
    have hcopied := h.copied _ hin []
    rw [List.append_nil] at hcopied
    unfold lookup
    rw [hcopied]
    exact hv

/-- **A projection returns the requested fields.**  Below a path that resolves the result is the
target.  Every path of the result is a prefix or an extension of one that resolves, but for the root
of a result without any.  The order of the paths and their repetitions make no difference, and a
projection of the result is the result. -/
theorem project_returns_fields (t : Json) (ps : List FieldPath) (predicate : Predicate)
    (hps : ∀ p ∈ ps, p.segments ≠ []) :
    (∀ p ∈ ps, (lookup p t).isSome → ∀ r : FieldPath, p.segments <+: r.segments →
      lookup r ((Query.mk (.fields ps) predicate).project t) = lookup r t) ∧
    (∀ r : FieldPath, (lookup r ((Query.mk (.fields ps) predicate).project t)).isSome →
      (r.segments = [] ∧ ∀ p ∈ ps, lookup p t = none) ∨
        ∃ p ∈ ps, (lookup p t).isSome ∧
          (r.segments <+: p.segments ∨ p.segments <+: r.segments)) ∧
    (∀ ps' : List FieldPath, (∀ p, p ∈ ps' ↔ p ∈ ps) →
      SameFields ((Query.mk (.fields ps') predicate).project t)
        ((Query.mk (.fields ps) predicate).project t)) ∧
    SameFields
      ((Query.mk (.fields ps) predicate).project ((Query.mk (.fields ps) predicate).project t))
      ((Query.mk (.fields ps) predicate).project t) := by
  obtain ⟨P, h, hmem⟩ := projects_project t hps predicate
  -- a path that resolves is copied
  have hin : ∀ p ∈ ps, (lookup p t).isSome → p.segments ∈ P :=
    fun p hp hv => (hmem _).mpr (mem_resolving_iff.mpr ⟨p, hp, rfl, hv⟩)
  refine ⟨?_, ?_, ?_, ?_⟩
  · intro p hp hv r hpre
    obtain ⟨s, hs⟩ := hpre
    unfold lookup
    rw [← hs]
    exact h.copied _ (hin p hp hv) s
  · intro r hr
    obtain ⟨v, hv⟩ := Option.isSome_iff_exists.mp hr
    rcases h.only _ v hv with hnil | ⟨segs, hsegs, hpre⟩
    · by_cases hsome : ∃ p ∈ ps, (lookup p t).isSome
      · obtain ⟨p, hp, hpv⟩ := hsome
        exact .inr ⟨p, hp, hpv, .inl (hnil ▸ List.nil_prefix)⟩
      · exact .inl ⟨hnil, fun p hp => by
          by_contra hne
          exact hsome ⟨p, hp, Option.isSome_iff_ne_none.mpr hne⟩⟩
    · obtain ⟨p, hp, rfl, hpv⟩ := mem_resolving_iff.mp ((hmem _).mp hsegs)
      exact .inr ⟨p, hp, hpv, hpre⟩
  · intro ps' hsame
    -- two lists of the same paths resolve the same ones
    obtain ⟨P', h', hmem'⟩ :=
      projects_project t (fun p hp => hps p ((hsame p).mp hp)) predicate
    have hresolving : ∀ segs, segs ∈ P' ↔ segs ∈ P := by
      intro segs
      rw [hmem', hmem, mem_resolving_iff, mem_resolving_iff]
      simp only [hsame]
    refine sameFields_of_projects h' h hresolving ?_
    intro p hp s
    rw [h'.copied p hp s, h.copied p ((hresolving p).mp hp) s]
  · -- projecting the result copies what was copied, so the fields are the same
    obtain ⟨P', h', hmem'⟩ :=
      projects_project ((Query.mk (.fields ps) predicate).project t) hps predicate
    have hresolving : ∀ segs, segs ∈ P' ↔ segs ∈ P := by
      intro segs
      rw [hmem', hmem, h.resolving_eq hmem hps]
    exact sameFields_of_projects h' h hresolving h'.copied

/-- Paths that overlap, one of which does not resolve. -/
theorem project_returns_fields_nested :
    lookup ⟨["a"]⟩ ((Query.mk (.fields [⟨["a", "b"]⟩, ⟨["a"]⟩, ⟨["c"]⟩]) .true).project
      (.object [("a", .object [("b", .null), ("d", .bool true)])])) =
        some (.object [("b", .null), ("d", .bool true)]) :=
  (project_returns_fields (.object [("a", .object [("b", .null), ("d", .bool true)])])
    [⟨["a", "b"]⟩, ⟨["a"]⟩, ⟨["c"]⟩] .true (by simp)).1 ⟨["a"]⟩ (by simp) (by decide) ⟨["a"]⟩
    (List.prefix_refl _)

end Boardwalk
