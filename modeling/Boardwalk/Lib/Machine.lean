import Mathlib.Data.List.Basic
import Mathlib.Tactic.Common

/-!
# Machines with a partial step function

A `Machine σ α` has an initial state and a partial step function: `step s a = none` says that
action `a` is not enabled in `s`.  A run is a list of actions, so every interleaving of a system's
parties is one list, and a concrete schedule is a closed term that `decide` can replay.

Two predicates speak about a whole run: `StatesMeet P` (every state it passes through satisfies
`P`) and `StepsMeet G` (every step it takes satisfies `G` in the state it is taken from).
`statesMeet_of_stepsMeet` derives the first from the second by an invariant, and
`statesMeet_iff_stepsMeet` is the exact form: when one step keeps `P` iff it meets `G`, a run keeps
`P` throughout iff all its steps meet `G`.
-/

namespace Boardwalk

/-- A machine with states `σ` and actions `α`. -/
structure Machine (σ α : Type*) where
  /-- The state every run starts in. -/
  init : σ
  /-- One step; `none` when the action is not enabled. -/
  step : σ → α → Option σ

namespace Machine

variable {σ α : Type*} (M : Machine σ α)

/-- Runs a list of actions from `s`; `none` as soon as one of them is not enabled. -/
def run : σ → List α → Option σ
  | s, [] => some s
  | s, a :: as => (M.step s a).bind fun t => run t as

/-- A state some run from the initial state ends in. -/
def Reachable (s : σ) : Prop := ∃ as, M.run M.init as = some s

/-- Every state that the run of `as` from `s` passes through satisfies `P`, both ends included. -/
def StatesMeet (P : σ → Prop) : σ → List α → Prop
  | s, [] => P s
  | s, a :: as => P s ∧ ∀ t, M.step s a = some t → StatesMeet P t as

/-- Every step that the run of `as` from `s` takes satisfies `G` in the state it is taken from. -/
def StepsMeet (G : σ → α → Prop) : σ → List α → Prop
  | _, [] => True
  | s, a :: as => ∀ t, M.step s a = some t → G s a ∧ StepsMeet G t as

variable {M}

/-- Whether all steps of a concrete run meet a decidable condition can be computed. -/
instance StepsMeet.decidable (G : σ → α → Prop) [∀ s a, Decidable (G s a)] :
    ∀ s as, Decidable (M.StepsMeet G s as)
  | _, [] => isTrue True.intro
  | s, a :: as =>
    match h : M.step s a with
    | none => isTrue fun t ht => by rw [h] at ht; cases ht
    | some t =>
      have := StepsMeet.decidable G t as
      decidable_of_iff (G s a ∧ M.StepsMeet G t as) <| by
        constructor
        · intro hG u hu
          rw [h] at hu
          cases hu
          exact hG
        · intro hG
          exact hG t h

/-! ### Runs -/

theorem run_cons {s t : σ} {a : α} {as : List α} :
    M.run s (a :: as) = some t ↔ ∃ u, M.step s a = some u ∧ M.run u as = some t := by
  simp only [run, Option.bind_eq_some_iff]

theorem run_append {s t : σ} {as : List α} (h : M.run s as = some t) (bs : List α) :
    M.run s (as ++ bs) = M.run t bs := by
  induction as generalizing s with
  | nil =>
    obtain rfl : s = t := by simpa [run] using h
    rfl
  | cons a as ih =>
    obtain ⟨u, hu, hrun⟩ := run_cons.mp h
    rw [List.cons_append, run, hu, Option.bind_some, ih hrun]

/-- Some run leads from `s` to `t`. -/
def Leads (M : Machine σ α) (s t : σ) : Prop := ∃ as, M.run s as = some t

theorem Leads.refl (s : σ) : M.Leads s s := ⟨[], rfl⟩

theorem Leads.trans {s t u : σ} (h : M.Leads s t) (h' : M.Leads t u) : M.Leads s u := by
  obtain ⟨as, has⟩ := h
  obtain ⟨bs, hbs⟩ := h'
  exact ⟨as ++ bs, by rw [run_append has, hbs]⟩

theorem Leads.single {s t : σ} {a : α} (h : M.step s a = some t) : M.Leads s t :=
  ⟨[a], run_cons.mpr ⟨t, h, rfl⟩⟩

/-! ### Invariants of runs -/

/-- **The invariant rule.** What holds initially and is kept by every step that meets `G` holds in
every state of a run whose steps all meet `G`. -/
theorem statesMeet_of_stepsMeet {I : σ → Prop} {G : σ → α → Prop}
    (hstep : ∀ s a t, I s → G s a → M.step s a = some t → I t) :
    ∀ {as : List α} {s : σ}, I s → M.StepsMeet G s as → M.StatesMeet I s as := by
  intro as
  induction as with
  | nil => intro s hs _; exact hs
  | cons a as ih =>
    intro s hs hG
    refine ⟨hs, fun t ht => ?_⟩
    obtain ⟨hGa, hGas⟩ := hG t ht
    exact ih (hstep s a t hs hGa ht) hGas

theorem StepsMeet.trivial : ∀ (as : List α) (s : σ), M.StepsMeet (fun _ _ => True) s as
  | [], _ => True.intro
  | _ :: as, _ => fun t _ => ⟨True.intro, StepsMeet.trivial as t⟩

/-- A condition that all actions of the run meet in every state. -/
theorem StepsMeet.of_forall_mem {G : σ → α → Prop} :
    ∀ {as : List α} {s : σ}, (∀ a ∈ as, ∀ s, G s a) → M.StepsMeet G s as
  | [], _, _ => True.intro
  | a :: _, s, h => fun _ _ =>
    ⟨h a List.mem_cons_self s, StepsMeet.of_forall_mem fun a ha => h a (List.mem_cons_of_mem _ ha)⟩

theorem StepsMeet.imp {G H : σ → α → Prop} (h : ∀ s a, G s a → H s a) :
    ∀ {as : List α} {s : σ}, M.StepsMeet G s as → M.StepsMeet H s as
  | [], _, _ => True.intro
  | _ :: _, _, hG => fun t ht => ⟨h _ _ (hG t ht).1, StepsMeet.imp h (hG t ht).2⟩

theorem StepsMeet.and {G H : σ → α → Prop} :
    ∀ {as : List α} {s : σ}, M.StepsMeet G s as → M.StepsMeet H s as →
      M.StepsMeet (fun s a => G s a ∧ H s a) s as
  | [], _, _, _ => True.intro
  | _ :: _, _, hG, hH => fun t ht =>
    ⟨⟨(hG t ht).1, (hH t ht).1⟩, StepsMeet.and (hG t ht).2 (hH t ht).2⟩

theorem StatesMeet.mono {P Q : σ → Prop} (h : ∀ s, P s → Q s) :
    ∀ {as : List α} {s : σ}, M.StatesMeet P s as → M.StatesMeet Q s as
  | [], s, hP => h s hP
  | _ :: _, s, hP => ⟨h s hP.1, fun t ht => StatesMeet.mono h (hP.2 t ht)⟩

/-- What holds in every state holds before every step. -/
theorem StatesMeet.stepsMeet {P : σ → Prop} {G : σ → α → Prop} (h : ∀ s a, P s → G s a) :
    ∀ {as : List α} {s : σ}, M.StatesMeet P s as → M.StepsMeet G s as
  | [], _, _ => True.intro
  | _ :: _, s, hP => fun t ht => ⟨h s _ hP.1, StatesMeet.stepsMeet h (hP.2 t ht)⟩

/-- The last state of a run is one of those it passes through. -/
theorem StatesMeet.last {P : σ → Prop} :
    ∀ {as : List α} {s t : σ}, M.StatesMeet P s as → M.run s as = some t → P t
  | [], s, t, hP, hr => by
    obtain rfl : s = t := by simpa [run] using hr
    exact hP
  | a :: as, s, t, hP, hr => by
    obtain ⟨u, hu, hrun⟩ := run_cons.mp hr
    exact StatesMeet.last (hP.2 u hu) hrun

/-- An invariant that every step keeps holds wherever a run leads. -/
theorem Leads.inv {I : σ → Prop} (hstep : ∀ s a t, I s → M.step s a = some t → I t) {s t : σ}
    (hs : I s) (h : M.Leads s t) : I t := by
  obtain ⟨as, has⟩ := h
  have hall : M.StatesMeet I s as :=
    statesMeet_of_stepsMeet (G := fun _ _ => True) (fun s a t hs _ => hstep s a t hs) hs
      (StepsMeet.trivial as s)
  exact hall.last has

/-- An invariant that every step keeps holds in every reachable state. -/
theorem Reachable.inv {I : σ → Prop} (h0 : I M.init)
    (hstep : ∀ s a t, I s → M.step s a = some t → I t) {s : σ} (h : M.Reachable s) : I s :=
  Leads.inv hstep h0 h

/-- **The exact rule.** `I` is an invariant of every step with an action in `A`.  If, from a state
with `I` and `P`, such a step leads to a state with `P` exactly when it meets `G`, then a run of
actions in `A` keeps `P` in all its states exactly when all its steps meet `G`. -/
theorem statesMeet_iff_stepsMeet {A : α → Prop} {I P : σ → Prop} {G : σ → α → Prop}
    (hI : ∀ s a t, A a → I s → M.step s a = some t → I t)
    (hG : ∀ s a t, A a → I s → P s → M.step s a = some t → (P t ↔ G s a)) :
    ∀ {as : List α} {s : σ}, (∀ a ∈ as, A a) → I s → P s →
      (M.StatesMeet P s as ↔ M.StepsMeet G s as) := by
  intro as
  induction as with
  | nil => intro s _ _ hP; exact ⟨fun _ => True.intro, fun _ => hP⟩
  | cons a as ih =>
    intro s hA hs hP
    have hAa : A a := hA a List.mem_cons_self
    have hAas : ∀ b ∈ as, A b := fun b hb => hA b (List.mem_cons_of_mem _ hb)
    constructor
    · rintro ⟨-, hrest⟩ t ht
      -- `P t` is the first conjunct of `StatesMeet P t as`, whatever `as` is
      have hPt : P t := by
        have := hrest t ht
        cases as with
        | nil => exact this
        | cons b bs => exact this.1
      exact ⟨(hG s a t hAa hs hP ht).mp hPt,
        (ih hAas (hI s a t hAa hs ht) hPt).mp (hrest t ht)⟩
    · intro hsteps
      refine ⟨hP, fun t ht => ?_⟩
      obtain ⟨hGa, hGas⟩ := hsteps t ht
      have hPt : P t := (hG s a t hAa hs hP ht).mpr hGa
      exact (ih hAas (hI s a t hAa hs ht) hPt).mpr hGas

/-- **The exact rule for the end of a run.** `O` holds at the end of the run and goes back along
steps.  If, along such steps, `Q` holds after a step exactly when it held before and the step meets
`G`, then `Q` holds at the end exactly when it held at the start and all steps meet `G`. -/
theorem run_iff_stepsMeet {I O Q : σ → Prop} {G : σ → α → Prop}
    (hI : ∀ s a t, I s → M.step s a = some t → I t)
    (hO : ∀ s a t, I s → M.step s a = some t → O t → O s)
    (hQ : ∀ s a t, I s → M.step s a = some t → O t → (Q t ↔ Q s ∧ G s a)) :
    ∀ {as : List α} {s t : σ}, I s → M.run s as = some t → O t →
      O s ∧ (Q t ↔ Q s ∧ M.StepsMeet G s as) := by
  intro as
  induction as with
  | nil =>
    intro s t _ hr hOt
    obtain rfl : s = t := by simpa [run] using hr
    exact ⟨hOt, by simp [StepsMeet]⟩
  | cons a as ih =>
    intro s t hs hr hOt
    obtain ⟨u, hu, hrun⟩ := run_cons.mp hr
    -- `O` is known at the end only: the induction brings it back to `u`, `hO` to `s`
    obtain ⟨hOu, hiff⟩ := ih (hI s a u hs hu) hrun hOt
    refine ⟨hO s a u hs hu hOu, ?_⟩
    rw [hiff, hQ s a u hs hu hOu]
    constructor
    · rintro ⟨⟨hQs, hG⟩, hrest⟩
      refine ⟨hQs, fun v hv => ?_⟩
      obtain rfl : u = v := Option.some.inj (hu.symm.trans hv)
      exact ⟨hG, hrest⟩
    · rintro ⟨hQs, hsteps⟩
      obtain ⟨hG, hrest⟩ := hsteps u hu
      exact ⟨⟨hQs, hG⟩, hrest⟩

/-! ### History variables -/

section History

variable {γ : Type*}

/-- Adds a history variable: a value that every step updates and no step reads. -/
def withHistory (M : Machine σ α) (g : γ) (upd : σ → α → γ → γ) : Machine (σ × γ) α where
  init := (M.init, g)
  step x a := (M.step x.1 a).map fun t => (t, upd x.1 a x.2)

variable {g : γ} {upd : σ → α → γ → γ}

theorem step_withHistory {x y : σ × γ} {a : α} :
    (M.withHistory g upd).step x a = some y ↔ M.step x.1 a = some y.1 ∧ upd x.1 a x.2 = y.2 := by
  simp [withHistory, Option.map_eq_some_iff, Prod.ext_iff]

/-- Without its history the run is one of the machine. -/
theorem run_of_withHistory :
    ∀ {as : List α} {x y : σ × γ}, (M.withHistory g upd).run x as = some y →
      M.run x.1 as = some y.1 := by
  intro as
  induction as with
  | nil =>
    intro x y h
    obtain rfl := Option.some.inj h
    rfl
  | cons a as ih =>
    intro x y h
    obtain ⟨z, hz, hrun⟩ := run_cons.mp h
    exact run_cons.mpr ⟨z.1, (step_withHistory.mp hz).1, ih hrun⟩

/-- A condition on the steps of the machine does not depend on the history. -/
theorem stepsMeet_withHistory {G : σ → α → Prop} :
    ∀ {as : List α} {x : σ × γ},
      (M.withHistory g upd).StepsMeet (fun x a => G x.1 a) x as ↔ M.StepsMeet G x.1 as := by
  intro as
  induction as with
  | nil => intro x; exact Iff.rfl
  | cons a as ih =>
    intro x
    constructor
    · intro h t ht
      obtain ⟨hG, hrest⟩ := h (t, upd x.1 a x.2) (step_withHistory.mpr ⟨ht, rfl⟩)
      exact ⟨hG, ih.mp hrest⟩
    · intro h y hy
      obtain ⟨hG, hrest⟩ := h y.1 (step_withHistory.mp hy).1
      exact ⟨hG, ih.mpr hrest⟩

end History

end Machine

end Boardwalk
