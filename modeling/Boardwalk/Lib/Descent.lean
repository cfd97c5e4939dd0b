import Mathlib.Data.List.Basic
import Mathlib.Data.Nat.Init

/-!
# Predictive parsers

A parser of recursive descent takes symbols off the front of a list and returns a value with the
symbols that are left.  It is predictive when it decides by the next symbol alone: what it does up
to some symbol is the same whatever comes after that symbol (`Predictive`).

The property is stated for one input and speaks about the other ones, so that a recursive parser
has it by induction on the length of its input; the rules below are the cases of such a proof.
What a predictive parser leaves and what it rejects then say which inputs can still be continued
to an accepted one (`Viable`).
-/

namespace Boardwalk.Descent

variable {σ ε α β : Type}

/-- A parser: a value and the symbols that are left, or an error. -/
abbrev Parser (σ ε α : Type) := List σ → Except ε (α × List σ)

/-- One parser and then the one that its value selects. -/
def seq (f : Parser σ ε α) (g : α → Parser σ ε β) : Parser σ ε β :=
  fun ts => match f ts with
    | .error e => .error e
    | .ok (a, r) => g a r

theorem seq_of_ok {f : Parser σ ε α} {g : α → Parser σ ε β} {ts r : List σ} {a : α}
    (h : f ts = .ok (a, r)) : seq f g ts = g a r := by
  unfold seq
  rw [h]

theorem seq_of_error {f : Parser σ ε α} {g : α → Parser σ ε β} {ts : List σ} {e : ε}
    (h : f ts = .error e) : seq f g ts = .error e := by
  unfold seq
  rw [h]

theorem seq_eq_ok {f : Parser σ ε α} {g : α → Parser σ ε β} {ts r : List σ} {b : β}
    (h : seq f g ts = .ok (b, r)) : ∃ a r', f ts = .ok (a, r') ∧ g a r' = .ok (b, r) := by
  cases hf : f ts with
  | error e =>
    rw [seq_of_error hf] at h
    cases h
  | ok p => exact ⟨p.1, p.2, rfl, by rw [seq_of_ok hf] at h; exact h⟩

/-- What a parser does on one input, as far as it looks at it.  `reported e r` says that the error
`e` points at the start of `r`, and `L` is the language that the parser reads. -/
structure Predictive (reported : ε → List σ → Prop) (L : List σ → α → Prop) (f : Parser σ ε α)
    (ts : List σ) : Prop where
  /-- It reads a word of the language, and reads it as well when something else follows the symbol
  that comes next, or nothing does. -/
  word : ∀ {a r}, f ts = .ok (a, r) → ∃ w, ts = w ++ r ∧ L w a ∧ f w = .ok (a, []) ∧
    ∀ t, r.head? = some t → ∀ r', f (w ++ t :: r') = .ok (a, t :: r')
  /-- At the end of the input every symbol either stops it there or is the start of more. -/
  next : ∀ {a}, f ts = .ok (a, []) → ∀ t,
    (∀ r, f (ts ++ t :: r) = .ok (a, t :: r)) ∨ ∃ u b, f (ts ++ t :: u) = .ok (b, [])
  /-- An error points past what no continuation can mend, or to the end. -/
  error : ∀ {e}, f ts = .error e → ∃ c r, ts = c ++ r ∧ reported e r ∧
    (r = [] ∨ c ≠ [] ∧ ∀ u, ∃ e', f (c ++ u) = .error e')

namespace Predictive

variable {reported : ε → List σ → Prop} {L : List σ → α → Prop} {M : List σ → β → Prop}
  {f : Parser σ ε α} {ts rest : List σ} {t : σ}

theorem mono {L' : List σ → α → Prop} (hf : Predictive reported L f ts)
    (hL : ∀ {w a}, L w a → L' w a) : Predictive reported L' f ts where
  word h := by
    obtain ⟨w, hw, hLw, hread⟩ := hf.word h
    exact ⟨w, hw, hL hLw, hread⟩
  next := hf.next
  error := hf.error

/-! ### One symbol -/

/-- A parser that goes on as `g` after the symbol `t`. -/
theorem cons {g : Parser σ ε α} {K : List σ → α → Prop} (hf : ∀ r, f (t :: r) = g r)
    (hg : Predictive reported K g rest) (hL : ∀ {w a}, K w a → L (t :: w) a) :
    Predictive reported L f (t :: rest) where
  -- `f` reads `t` and goes on as `g`, so each part of `g`'s reading gets `t` in front
  word h := by
    rw [hf] at h
    obtain ⟨w, hw, hK, hend, hlocal⟩ := hg.word h
    refine ⟨t :: w, congrArg _ hw, hL hK, ?_, ?_⟩
    · rw [hf]
      exact hend
    · intro t' ht' r'
      rw [List.cons_append, hf]
      exact hlocal t' ht' r'
  next h t' := by
    rw [hf] at h
    obtain hstop | ⟨u, b, hmore⟩ := hg.next h t'
    · left
      intro r
      rw [List.cons_append, hf]
      exact hstop r
    · right
      refine ⟨u, b, ?_⟩
      rw [List.cons_append, hf]
      exact hmore
  error h := by
    rw [hf] at h
    obtain ⟨c, r, hcr, he, hwrong⟩ := hg.error h
    refine ⟨t :: c, r, congrArg _ hcr, he, hwrong.imp id ?_⟩
    rintro ⟨-, hbad⟩
    refine ⟨List.cons_ne_nil t c, ?_⟩
    intro u
    rw [List.cons_append, hf]
    exact hbad u

/-- A parser that takes the symbol `t` and rejects it. -/
theorem reject (hf : ∀ r, ∃ e, f (t :: r) = .error e ∧ reported e r) :
    Predictive reported L f (t :: rest) where
  word h := by
    obtain ⟨e, he, -⟩ := hf rest
    rw [he] at h
    cases h
  next h := by
    obtain ⟨e, he, -⟩ := hf rest
    rw [he] at h
    cases h
  error h := by
    obtain ⟨e, he, hat⟩ := hf rest
    cases he.symm.trans h
    refine ⟨[t], rest, rfl, hat, Or.inr ⟨List.cons_ne_nil t [], ?_⟩⟩
    intro u
    obtain ⟨e', he', -⟩ := hf u
    exact ⟨e', he'⟩

/-- A parser that needs a symbol, at the end. -/
theorem missing {e : ε} (hf : f [] = .error e) (he : reported e []) :
    Predictive reported L f [] where
  word h := by
    rw [hf] at h
    cases h
  next h := by
    rw [hf] at h
    cases h
  error h := by
    cases hf.symm.trans h
    exact ⟨[], [], rfl, he, Or.inl rfl⟩

/-! ### No symbol -/

/-- A parser that stops before the symbol `t`. -/
theorem stop {a : α} (hf : ∀ r, f (t :: r) = .ok (a, t :: r)) (hnil : f [] = .ok (a, []))
    (hL : L [] a) : Predictive reported L f (t :: rest) where
  word h := by
    cases (hf rest).symm.trans h
    refine ⟨[], rfl, hL, hnil, ?_⟩
    rintro t' ⟨⟩ r'
    exact hf r'
  next h := by
    rw [hf] at h
    cases h
  error h := by
    rw [hf] at h
    cases h

/-- A parser that may stop at the end. -/
theorem stop_end {a : α} (hnil : f [] = .ok (a, [])) (hL : L [] a)
    (hnext : ∀ t, (∀ r, f (t :: r) = .ok (a, t :: r)) ∨ ∃ u b, f (t :: u) = .ok (b, [])) :
    Predictive reported L f [] where
  word h := by
    cases hnil.symm.trans h
    refine ⟨[], rfl, hL, hnil, ?_⟩
    intro t ht
    cases ht
  next h t := by
    cases hnil.symm.trans h
    exact hnext t
  error h := by
    rw [hnil] at h
    cases h

/-- A parser that takes nothing unless a symbol of `more` comes next. -/
theorem stop_before {more : σ → Prop} {a : α}
    (hstop : ∀ r, (∀ t, r.head? = some t → ¬ more t) → f r = .ok (a, r))
    (hmore : ∀ t, more t → ∃ u b, f (t :: u) = .ok (b, [])) (hL : L [] a)
    (hts : ∀ t, ts.head? = some t → ¬ more t) : Predictive reported L f ts := by
  have hnil : f [] = .ok (a, []) := hstop [] fun t ht => by cases ht
  have hcons : ∀ t r, ¬ more t → f (t :: r) = .ok (a, t :: r) := fun t r ht =>
    hstop (t :: r) fun t' ht' => by cases ht'; exact ht
  cases ts with
  | nil =>
    refine stop_end hnil hL fun t => ?_
    by_cases ht : more t
    · exact Or.inr (hmore t ht)
    · exact Or.inl fun r => hcons t r ht
  | cons t rest => exact stop (fun r => hcons t r (hts t rfl)) hnil hL

/-- The parser that takes nothing. -/
theorem pure {a : α} (hL : L [] a) : Predictive reported L (fun r => .ok (a, r)) ts := by
  cases ts with
  | nil => exact stop_end rfl hL fun t => Or.inl fun r => rfl
  | cons t rest => exact stop (fun r => rfl) rfl hL

/-- A parser for the symbol `t` alone. -/
theorem symbol {a : α} (hf : ∀ r, f (t :: r) = .ok (a, r)) (hL : L [t] a) :
    Predictive reported L f (t :: rest) := by
  apply cons (K := fun w b => w = [] ∧ b = a) hf (pure ⟨rfl, rfl⟩)
  rintro w b ⟨rfl, rfl⟩
  exact hL

/-! ### Parsers from parsers -/

/-- A parser that is another one on every input that starts with the symbol `t`. -/
theorem congr {g : Parser σ ε α} (hf : ∀ r, f (t :: r) = g (t :: r))
    (hg : Predictive reported L g (t :: rest)) (hnil : ∀ p, g [] ≠ .ok p) :
    Predictive reported L f (t :: rest) where
  word h := by
    rw [hf] at h
    obtain ⟨w, hw, hL, hend, hlocal⟩ := hg.word h
    cases w with
    | nil => exact absurd hend (hnil _)
    | cons t' w =>
      -- a word of `f` begins with `t`, for `g` accepts no empty input
      obtain ⟨rfl, -⟩ := List.cons.inj hw
      refine ⟨t :: w, hw, hL, ?_, ?_⟩
      · rw [hf]
        exact hend
      · intro t' ht' r'
        rw [List.cons_append, hf]
        exact hlocal t' ht' r'
  next h t' := by
    rw [hf] at h
    obtain hstop | ⟨u, b, hmore⟩ := hg.next h t'
    · left
      intro r
      rw [List.cons_append, hf]
      exact hstop r
    · right
      refine ⟨u, b, ?_⟩
      rw [List.cons_append, hf]
      exact hmore
  error h := by
    rw [hf] at h
    obtain ⟨c, r, hcr, he, hwrong⟩ := hg.error h
    refine ⟨c, r, hcr, he, hwrong.imp id ?_⟩
    rintro ⟨hc, hbad⟩
    refine ⟨hc, fun u => ?_⟩
    cases c with
    | nil => exact absurd rfl hc
    | cons t' c =>
      obtain ⟨rfl, -⟩ := List.cons.inj hcr
      rw [List.cons_append, hf]
      exact hbad u

/-- One parser after another.  Where the second may take nothing, it may do so whatever the first
has read. -/
theorem seq {N : List σ → β → Prop} {K : α → List σ → β → Prop} {g : α → Parser σ ε β}
    (hf : Predictive reported L f ts)
    (hg : ∀ {a r}, f ts = .ok (a, r) → Predictive reported (K a) (g a) r)
    (hend : ∀ {a b}, g a [] = .ok (b, []) → ∀ a', ∃ b', g a' [] = .ok (b', []))
    (hL : ∀ {v a w b}, L v a → K a w b → N (v ++ w) b) :
    Predictive reported N (Descent.seq f g) ts where
  word {b r} h := by
    obtain ⟨a, r₁, hfa, hga⟩ := seq_eq_ok h
    obtain ⟨v, hv, hLv, hvend, hvlocal⟩ := hf.word hfa
    obtain ⟨w, rfl, hKw, hwend, hwlocal⟩ := (hg hfa).word hga
    -- what the first parser leaves starts with the word of the second, or with what that leaves
    have hfirst : ∀ {r'}, (w = [] → r' = [] ∨ ∃ t s, r.head? = some t ∧ r' = t :: s) →
        f (v ++ (w ++ r')) = .ok (a, w ++ r') := by
      intro r' hr'
      cases w with
      | cons t w => exact hvlocal t rfl (w ++ r')
      | nil =>
        obtain rfl | ⟨t, s, ht, rfl⟩ := hr' rfl
        · rw [List.append_nil, List.append_nil]
          exact hvend
        · exact hvlocal t ht s
    refine ⟨v ++ w, by rw [List.append_assoc]; exact hv, hL hLv hKw, ?_, ?_⟩
    · have h : f (v ++ (w ++ [])) = .ok (a, w ++ []) := hfirst fun _ => Or.inl rfl
      rw [List.append_nil] at h
      rw [seq_of_ok h]
      exact hwend
    · intro t ht r'
      rw [List.append_assoc, seq_of_ok (hfirst fun _ => Or.inr ⟨t, r', ht, rfl⟩)]
      exact hwlocal t ht r'
  next {b} h t := by
    obtain ⟨a, r, hfa, hga⟩ := seq_eq_ok h
    cases r with
    | nil =>
      -- the first has taken everything, so `t` comes to it before the second
      obtain hstop | ⟨u, a', hmore⟩ := hf.next hfa t
      · obtain hstop' | ⟨u, b', hmore⟩ := (hg hfa).next hga t
        · left
          intro r
          rw [seq_of_ok (hstop r)]
          exact hstop' r
        · right
          refine ⟨u, b', ?_⟩
          rw [seq_of_ok (hstop u)]
          exact hmore
      · right
        obtain ⟨b', hb'⟩ := hend hga a'
        refine ⟨u, b', ?_⟩
        rw [seq_of_ok hmore]
        exact hb'
    | cons t' r =>
      -- the first has stopped at `t'`, and does so whatever is appended
      obtain ⟨v, hv, -, -, hlocal⟩ := hf.word hfa
      have hfirst : ∀ s, f (ts ++ s) = .ok (a, t' :: r ++ s) := by
        intro s
        rw [hv, List.append_assoc]
        exact hlocal t' rfl (r ++ s)
      obtain hstop | ⟨u, b', hmore⟩ := (hg hfa).next hga t
      · left
        intro s
        rw [seq_of_ok (hfirst (t :: s))]
        exact hstop s
      · right
        refine ⟨u, b', ?_⟩
        rw [seq_of_ok (hfirst (t :: u))]
        exact hmore
  error {e} h := by
    cases hfa : f ts with
    | error e' =>
      rw [seq_of_error hfa] at h
      cases h
      obtain ⟨c, r, hcr, he, hwrong⟩ := hf.error hfa
      refine ⟨c, r, hcr, he, hwrong.imp id ?_⟩
      rintro ⟨hc, hbad⟩
      refine ⟨hc, fun u => ?_⟩
      obtain ⟨e', he'⟩ := hbad u
      exact ⟨e', seq_of_error he'⟩
    | ok p =>
      obtain ⟨a, r₁⟩ := p
      rw [seq_of_ok hfa] at h
      obtain ⟨v, rfl, -, -, hlocal⟩ := hf.word hfa
      obtain ⟨c, r, rfl, he, hwrong⟩ := (hg hfa).error h
      refine ⟨v ++ c, r, (List.append_assoc v c r).symm, he, hwrong.imp id ?_⟩
      rintro ⟨hc, hbad⟩
      refine ⟨by simp [hc], fun u => ?_⟩
      obtain ⟨e', he'⟩ := hbad u
      refine ⟨e', ?_⟩
      rw [List.append_assoc]
      -- what the second rejects is not empty, so that it stops the first
      cases c with
      | nil => exact absurd rfl hc
      | cons t c =>
        have hfirst : f (v ++ (t :: c ++ u)) = .ok (a, t :: c ++ u) := hlocal t rfl (c ++ u)
        rw [seq_of_ok hfirst]
        exact he'

/-- A parser with what it reads mapped. -/
theorem map {N : List σ → β → Prop} {k : α → β} (hf : Predictive reported L f ts)
    (hL : ∀ {w a}, L w a → N w (k a)) :
    Predictive reported N (Descent.seq f fun a r => .ok (k a, r)) ts := by
  apply seq (K := fun a w b => w = [] ∧ b = k a) hf
  · intro a r _
    exact pure ⟨rfl, rfl⟩
  · intro a b _ a'
    exact ⟨k a', rfl⟩
  · rintro v a w b hLv ⟨rfl, rfl⟩
    rw [List.append_nil]
    exact hL hLv

/-- A check of what a word that nothing continues stands for: it takes nothing, and where it fails
it reports what comes next. -/
theorem check {N : List σ → β → Prop} {g : α → Parser σ ε β} (hf : Predictive reported L f ts)
    (hclosed : ∀ {w a}, L w a → ∀ r, f (w ++ r) = .ok (a, r)) (hne : ∀ {w a}, L w a → w ≠ [])
    (hg : ∀ a, (∃ b, (∀ r, g a r = .ok (b, r)) ∧ ∀ w, L w a → N w b) ∨
      ∀ r, ∃ e, g a r = .error e ∧ reported e r) :
    Predictive reported N (Descent.seq f g) ts where
  -- the test of `g` reads nothing: it accepts every rest, or reports at each
  word {b r} h := by
    obtain ⟨a, r₁, hfa, hga⟩ := seq_eq_ok h
    obtain ⟨b', hb', hN⟩ | hbad := hg a
    · cases (hb' r₁).symm.trans hga
      obtain ⟨w, hw, hL, hend, hlocal⟩ := hf.word hfa
      refine ⟨w, hw, hN w hL, ?_, ?_⟩
      · rw [seq_of_ok hend]
        exact hb' []
      · intro t ht r'
        rw [seq_of_ok (hlocal t ht r')]
        exact hb' _
    · obtain ⟨e, he, -⟩ := hbad r₁
      rw [he] at hga
      cases hga
  next {b} h t := by
    -- the value decides; what follows is not read
    obtain ⟨a, r₁, hfa, hga⟩ := seq_eq_ok h
    obtain ⟨b', hb', -⟩ | hbad := hg a
    · cases (hb' r₁).symm.trans hga
      obtain ⟨w, hw, hL, -⟩ := hf.word hfa
      rw [List.append_nil] at hw
      subst hw
      left
      intro r
      rw [seq_of_ok (hclosed hL (t :: r))]
      exact hb' _
    · obtain ⟨e, he, -⟩ := hbad r₁
      rw [he] at hga
      cases hga
  error {e} h := by
    cases hfa : f ts with
    | error e' =>
      rw [seq_of_error hfa] at h
      cases h
      obtain ⟨c, r, hcr, he, hwrong⟩ := hf.error hfa
      refine ⟨c, r, hcr, he, hwrong.imp id ?_⟩
      rintro ⟨hc, hbad⟩
      refine ⟨hc, fun u => ?_⟩
      obtain ⟨e', he'⟩ := hbad u
      exact ⟨e', seq_of_error he'⟩
    | ok p =>
      obtain ⟨a, r⟩ := p
      rw [seq_of_ok hfa] at h
      obtain ⟨w, hw, hL, -⟩ := hf.word hfa
      obtain ⟨b, hb, -⟩ | hbad := hg a
      · rw [hb] at h
        cases h
      · obtain ⟨e', he', hat⟩ := hbad r
        cases he'.symm.trans h
        refine ⟨w, r, hw, hat, Or.inr ⟨hne hL, fun u => ?_⟩⟩
        obtain ⟨e', he', -⟩ := hbad u
        refine ⟨e', ?_⟩
        rw [seq_of_ok (hclosed hL u)]
        exact he'

end Predictive

/-! ### Loops -/

/-- What a loop reads: words of `L`, each after a separator, which `step` adds to what there is, and
at last what it stops at. -/
inductive Loop {γ : Type} (sep : σ → Prop) (L : List σ → α → Prop) (step : γ → α → γ)
    (stop : γ → List σ → β → Prop) : γ → List σ → β → Prop where
  | stop {c : γ} {w : List σ} {b : β} : stop c w b → Loop sep L step stop c w b
  | more {c : γ} {t : σ} {v w : List σ} {a : α} {b : β} :
    sep t → L v a → Loop sep L step stop (step c a) w b → Loop sep L step stop c (t :: (v ++ w)) b

/-- A loop that reads with `f` after every separator, by induction on what is left. -/
theorem Predictive.loop {γ : Type} {reported : ε → List σ → Prop} {sep : σ → Prop}
    {L : List σ → α → Prop} {stop : γ → List σ → β → Prop} {f : Parser σ ε α}
    {body : γ → Parser σ ε β} {step : γ → α → γ}
    (hmore : ∀ c t r, sep t →
      body c (t :: r) = Descent.seq f (fun a => body (step c a)) r)
    (hstop : ∀ c ts, (∀ t, ts.head? = some t → ¬ sep t) →
      Predictive reported (stop c) (body c) ts)
    (hend : ∀ {c b}, body c [] = .ok (b, []) → ∀ c', ∃ b', body c' [] = .ok (b', []))
    (c : γ) {ts : List σ} (hf : ∀ r, r.length < ts.length → Predictive reported L f r) :
    Predictive reported (Loop sep L step stop c) (body c) ts := by
  -- on the tokens that are left: a separator takes one item and goes round again
  induction hn : ts.length using Nat.strong_induction_on generalizing c ts with
  | _ n ih =>
  subst hn
  have hstops : (∀ t, ts.head? = some t → ¬ sep t) →
      Predictive reported (Loop sep L step stop c) (body c) ts := fun h =>
    (hstop c ts h).mono Loop.stop
  cases ts with
  | nil => exact hstops fun t ht => by cases ht
  | cons t rest =>
    by_cases ht : sep t
    · apply Predictive.cons (K := fun w b => ∃ v a w', w = v ++ w' ∧ L v a ∧
        Loop sep L step stop (step c a) w' b) (fun r => hmore c t r ht)
      · have hrest : Predictive reported L f rest := hf rest (by simp)
        apply Predictive.seq (K := fun a => Loop sep L step stop (step c a)) hrest
        · -- the item took some tokens, so what is left is shorter
          intro a r hr
          obtain ⟨w, hw, -⟩ := hrest.word hr
          have hlen : r.length < (t :: rest).length := by
            rw [hw, List.length_cons, List.length_append]
            omega
          exact ih r.length hlen (step c a) (fun s hs => hf s (by omega)) rfl
        · intro a b hb a'
          exact hend hb (step c a')
        · intro v a w b hv hw
          exact ⟨v, a, w, rfl, hv, hw⟩
      · rintro w b ⟨v, a, w', rfl, hv, hw'⟩
        exact Loop.more ht hv hw'
    · exact hstops fun t' ht' => by cases ht'; exact ht

/-! ### Inputs that can be continued -/

/-- Some input that starts with `ts` is read to its end. -/
def Viable (f : Parser σ ε α) (ts : List σ) : Prop := ∃ u a, f (ts ++ u) = .ok (a, [])

section

variable {reported : ε → List σ → Prop} {L : List σ → α → Prop} {f : Parser σ ε α}
  (hf : ∀ ts, Predictive reported L f ts)

include hf

/-- What a predictive parser leaves starts with a symbol that no continuation can mend, and what it
has read is complete. -/
theorem not_viable_of_left {ts r : List σ} {t : σ} {a : α} (h : f ts = .ok (a, t :: r)) :
    ∃ w, ts = w ++ t :: r ∧ f w = .ok (a, []) ∧ ¬ Viable f (w ++ [t]) := by
  obtain ⟨w, hw, -, hend, hlocal⟩ := (hf ts).word h
  refine ⟨w, hw, hend, ?_⟩
  rintro ⟨u, b, hub⟩
  rw [List.append_assoc, List.singleton_append, hlocal t rfl u] at hub
  cases hub

/-- A complete word that `t` cannot continue is what the parser reads before `t`. -/
theorem left_of_not_viable {w : List σ} {t : σ} {a : α} (h : f w = .ok (a, []))
    (ht : ¬ Viable f (w ++ [t])) (r : List σ) : f (w ++ t :: r) = .ok (a, t :: r) := by
  obtain hstop | ⟨u, b, hmore⟩ := (hf w).next h t
  · exact hstop r
  · refine absurd ⟨u, b, ?_⟩ ht
    rw [List.append_assoc]
    exact hmore

/-- An error points to the end or past a part of the input that cannot be continued. -/
theorem not_viable_of_error {ts : List σ} {e : ε} (h : f ts = .error e) :
    ∃ c r, ts = c ++ r ∧ reported e r ∧ (r = [] ∨ ¬ Viable f c) := by
  obtain ⟨c, r, hcr, he, hwrong⟩ := (hf ts).error h
  refine ⟨c, r, hcr, he, hwrong.imp id ?_⟩
  rintro ⟨-, hbad⟩ ⟨u, a, hua⟩
  obtain ⟨e', he'⟩ := hbad u
  rw [he'] at hua
  cases hua

end

end Boardwalk.Descent
