import Mathlib.Algebra.BigOperators.Group.List.Basic
import Mathlib.Algebra.Ring.Nat
import Mathlib.Tactic.Common

/-!
# A quota ledger with claims

An account grants a fixed number of deliveries.  A client first claims one, then carries it out
(the claim has *landed*), then commits it; a claim that is not carried out is refunded.  The account
may be closed at any time, with claims outstanding, which their holders still resolve later.

`Ledger` is what there is to say about one account: its balance while it is open, the claims its
clients hold, how many of these have landed, and the deliveries committed and carried out over the
whole history.  `Conserved L` is the conservation law, `Live` says that no open account is spent
with nothing outstanding, and the two step lemmas keep them.  `Direct` is a delivery made past the
claims; it keeps the conservation law exactly when the balance is positive.

`sum_map_set` is how a tally over a list of clients changes when one of them moves.
-/

namespace Boardwalk

/-! ### Tallies over a list of clients -/

/-- Setting one place of a list exchanges its share of the sum. -/
theorem sum_map_set {β : Type*} (f : β → ℕ) {l : List β} {k : ℕ} {b : β} (h : l[k]? = some b)
    (b' : β) : ((l.set k b').map f).sum + f b = (l.map f).sum + f b' := by
  induction l generalizing k with
  | nil => simp at h
  | cons x l ih =>
    cases k with
    | zero =>
      obtain rfl : x = b := by simpa using h
      simp only [List.set_cons_zero, List.map_cons, List.sum_cons]
      omega
    | succ k =>
      have := ih (k := k) (by simpa using h)
      simp only [List.set_cons_succ, List.map_cons, List.sum_cons]
      omega

theorem sum_map_le_sum_map {β : Type*} {f g : β → ℕ} (l : List β) (h : ∀ x, f x ≤ g x) :
    (l.map f).sum ≤ (l.map g).sum := by
  induction l with
  | nil => simp
  | cons x l ih =>
    have := h x
    simp only [List.map_cons, List.sum_cons]
    omega

/-- A client whose `f` is below its `g` keeps the tallies apart. -/
theorem sum_map_lt_sum_map {β : Type*} {f g : β → ℕ} {l : List β} {k : ℕ} {b : β}
    (hk : l[k]? = some b) (hb : f b < g b) (h : ∀ x, f x ≤ g x) :
    (l.map f).sum < (l.map g).sum := by
  induction l generalizing k with
  | nil => simp at hk
  | cons x l ih =>
    cases k with
    | zero =>
      obtain rfl : x = b := by simpa using hk
      have := sum_map_le_sum_map l h
      simp only [List.map_cons, List.sum_cons]
      omega
    | succ k =>
      have := ih (k := k) (by simpa using hk)
      have := h x
      simp only [List.map_cons, List.sum_cons]
      omega

/-! ### The ledger -/

/-- The balance of an open account. -/
structure Account where
  remaining : ℕ
  inFlight : ℕ
  deriving Repr, DecidableEq

structure Ledger where
  /-- `none` once the account is closed. -/
  account : Option Account
  /-- The claims clients hold. -/
  outstanding : ℕ
  /-- Those of them that are carried out and not committed. -/
  landed : ℕ
  /-- The deliveries committed. -/
  committed : ℕ
  /-- The deliveries carried out. -/
  total : ℕ
  deriving Repr, DecidableEq

namespace Ledger

/-- One move of a ledger.  A commit that spends the last of the balance with nothing else in flight
closes the account. -/
inductive Step (l l' : Ledger) : Prop where
  | quiet (account : l'.account = l.account) (outstanding : l'.outstanding = l.outstanding)
      (landed : l'.landed = l.landed) (committed : l'.committed = l.committed)
      (total : l'.total = l.total)
  | claim (a : Account) (opened : l.account = some a) (pos : 0 < a.remaining)
      (account : l'.account = some ⟨a.remaining - 1, a.inFlight + 1⟩)
      (outstanding : l'.outstanding = l.outstanding + 1) (landed : l'.landed = l.landed)
      (committed : l'.committed = l.committed) (total : l'.total = l.total)
  | land (lt : l.landed < l.outstanding) (account : l'.account = l.account)
      (outstanding : l'.outstanding = l.outstanding) (landed : l'.landed = l.landed + 1)
      (committed : l'.committed = l.committed) (total : l'.total = l.total + 1)
  | commit (account : l'.account = l.account.bind fun a =>
        if a.remaining = 0 ∧ a.inFlight - 1 = 0 then none
        else some ⟨a.remaining, a.inFlight - 1⟩)
      (outstanding : l'.outstanding + 1 = l.outstanding) (landed : l'.landed + 1 = l.landed)
      (committed : l'.committed = l.committed + 1) (total : l'.total = l.total)
  | refund (lt : l.landed < l.outstanding)
      (account : l'.account = l.account.map fun a => ⟨a.remaining + 1, a.inFlight - 1⟩)
      (outstanding : l'.outstanding + 1 = l.outstanding) (landed : l'.landed = l.landed)
      (committed : l'.committed = l.committed) (total : l'.total = l.total)
  | forfeit (lt : l.landed < l.outstanding) (account : l'.account = none)
      (outstanding : l'.outstanding + 1 = l.outstanding) (landed : l'.landed = l.landed)
      (committed : l'.committed = l.committed) (total : l'.total = l.total)
  | close (account : l'.account = none) (outstanding : l'.outstanding = l.outstanding)
      (landed : l'.landed = l.landed) (committed : l'.committed = l.committed)
      (total : l'.total = l.total)

/-- A delivery carried out and committed at once, without a claim. -/
structure Direct (l l' : Ledger) (a : Account) : Prop where
  opened : l.account = some a
  account : l'.account = some ⟨a.remaining - 1, a.inFlight⟩
  outstanding : l'.outstanding = l.outstanding
  landed : l'.landed = l.landed
  committed : l'.committed = l.committed + 1
  total : l'.total = l.total + 1

/-- The conservation law of an account that grants `L` deliveries. -/
structure Conserved (L : ℕ) (l : Ledger) : Prop where
  landed_le : l.landed ≤ l.outstanding
  total_eq : l.total = l.committed + l.landed
  inFlight_eq : ∀ a, l.account = some a → a.inFlight = l.outstanding
  balance : ∀ a, l.account = some a → l.committed + a.remaining + a.inFlight = L
  bound : l.committed + l.outstanding ≤ L

/-- An open account has balance left or claims in flight. -/
def Live (l : Ledger) : Prop := ∀ a, l.account = some a → 0 < a.remaining + a.inFlight

/-- A fresh account. -/
theorem Conserved.fresh (L : ℕ) : Conserved L ⟨some ⟨L, 0⟩, 0, 0, 0, 0⟩ where
  landed_le := Nat.le_refl _
  total_eq := rfl
  inFlight_eq := by rintro a ⟨⟩; rfl
  balance := by rintro a ⟨⟩; simp
  bound := by simp

theorem Conserved.total_le {L : ℕ} {l : Ledger} (h : Conserved L l) : l.total ≤ L := by
  have := h.landed_le; have := h.total_eq; have := h.bound
  omega

/-- The two facts about an open account can be shown together. -/
theorem Conserved.intro {L : ℕ} {l : Ledger} (hle : l.landed ≤ l.outstanding)
    (htot : l.total = l.committed + l.landed) (hbound : l.committed + l.outstanding ≤ L)
    (hacc : ∀ a, l.account = some a →
      a.inFlight = l.outstanding ∧ l.committed + a.remaining + a.inFlight = L) :
    Conserved L l where
  landed_le := hle
  total_eq := htot
  inFlight_eq a ha := (hacc a ha).1
  balance a ha := (hacc a ha).2
  bound := hbound

/-- **Every move keeps the conservation law.** -/
theorem Conserved.step {L : ℕ} {l l' : Ledger} (h : Conserved L l) (hs : Step l l') :
    Conserved L l' := by
  have hle := h.landed_le
  have htot := h.total_eq
  have hbound := h.bound
  cases hs with
  | quiet ha ho hl hc ht =>
    refine .intro (by omega) (by omega) (by omega) fun a haa => ?_
    have hla : l.account = some a := ha ▸ haa
    exact ⟨ho ▸ h.inFlight_eq a hla, hc ▸ h.balance a hla⟩
  | claim a hopen hpos ha ho hl hc ht =>
    have hfl := h.inFlight_eq a hopen
    have hbal := h.balance a hopen
    -- only here is the open account needed for the bound: the claim is taken from its balance
    refine .intro (by omega) (by omega) (by omega) fun b hb => ?_
    obtain rfl : (⟨a.remaining - 1, a.inFlight + 1⟩ : Account) = b := by simpa [ha] using hb
    constructor <;> simp only <;> omega
  | land hlt ha ho hl hc ht =>
    refine .intro (by omega) (by omega) (by omega) fun a haa => ?_
    have hla : l.account = some a := ha ▸ haa
    exact ⟨ho ▸ h.inFlight_eq a hla, hc ▸ h.balance a hla⟩
  | commit ha ho hl hc ht =>
    refine .intro (by omega) (by omega) (by omega) fun b hb => ?_
    rw [ha, Option.bind_eq_some_iff] at hb
    obtain ⟨a, hla, hb⟩ := hb
    have hfl := h.inFlight_eq a hla
    have hbal := h.balance a hla
    split at hb
    · cases hb
    · -- the committed claim moves from `inFlight` to `committed`
      obtain rfl := Option.some.inj hb
      constructor <;> simp only <;> omega
  | refund hlt ha ho hl hc ht =>
    refine .intro (by omega) (by omega) (by omega) fun b hb => ?_
    rw [ha, Option.map_eq_some_iff] at hb
    obtain ⟨a, hla, rfl⟩ := hb
    have hfl := h.inFlight_eq a hla
    have hbal := h.balance a hla
    constructor <;> simp only <;> omega
  | forfeit hlt ha ho hl hc ht =>
    refine .intro (by omega) (by omega) (by omega) fun b hb => ?_
    rw [ha] at hb
    cases hb
  | close ha ho hl hc ht =>
    refine .intro (by omega) (by omega) (by omega) fun b hb => ?_
    rw [ha] at hb
    cases hb

/-- **A delivery past the claims keeps the conservation law when the balance is positive.** -/
theorem Conserved.direct {L : ℕ} {l l' : Ledger} {a : Account} (h : Conserved L l)
    (hd : Direct l l' a) (hpos : 0 < a.remaining) : Conserved L l' := by
  have hle := h.landed_le
  have htot := h.total_eq
  have hfl := h.inFlight_eq a hd.opened
  have hbal := h.balance a hd.opened
  obtain ⟨-, ha, ho, hl, hc, ht⟩ := hd
  refine .intro (by omega) (by omega) (by omega) fun b hb => ?_
  obtain rfl : (⟨a.remaining - 1, a.inFlight⟩ : Account) = b := by simpa [ha] using hb
  constructor <;> simp only <;> omega

/-- **No move leaves an open account spent with nothing outstanding.** -/
theorem Live.step {l l' : Ledger} (h : Live l) (hs : Step l l') : Live l' := by
  intro b hb
  cases hs with
  | quiet ha => exact h b (ha ▸ hb)
  | claim a _ _ ha =>
    obtain rfl : (⟨a.remaining - 1, a.inFlight + 1⟩ : Account) = b := by simpa [ha] using hb
    simp only; omega
  | land _ ha => exact h b (ha ▸ hb)
  | commit ha =>
    rw [ha, Option.bind_eq_some_iff] at hb
    obtain ⟨a, -, hb⟩ := hb
    split at hb
    · cases hb
    · obtain rfl := Option.some.inj hb
      simp only; omega
  | refund _ ha =>
    rw [ha, Option.map_eq_some_iff] at hb
    obtain ⟨a, -, rfl⟩ := hb
    simp only; omega
  | forfeit _ ha => rw [ha] at hb; cases hb
  | close ha => rw [ha] at hb; cases hb

end Ledger

end Boardwalk
