import CyberCash.Library.Solidity
import Mathlib.Algebra.Order.BigOperators.Ring.Finset
import Mathlib.Algebra.Order.Field.Rat
import Mathlib.Algebra.Order.Field.Basic
import Mathlib.Data.Nat.Cast.Order.Field
import Mathlib.Tactic.Linarith

/-!
# Lazily distributed rewards

A pot is shared among accounts in proportion to their weights without ever
iterating over them. One global index grows by `amount * P / divisor` at every
accrual; an account remembers the index it was last settled at, and is owed
`weight * (index - checkpoint) / P` since then. `P` is the fixed-point scale of
the index.

The one inductive fact is `Sound.backed`: the sum of all unsettled claims, kept
at the fine scale `P` and therefore without any rounding, is covered by the
reserve. Every operation of the ledger keeps it, and both "no account can be
refused" and "all accounts together can be paid" are read off it.
-/

namespace LazyIndex

open Function Solidity

variable {ι : Type}

/-- The reward bookkeeping of a contract. `divisor` is what an accrual is
divided by, `reserve` the amount accrued and not yet paid out. -/
structure Ledger (ι : Type) where
  index : ℕ
  checkpoint : ι → ℕ
  weight : ι → ℕ
  divisor : ℕ
  reserve : ℕ

namespace Ledger

/-- Unsettled claim of an account at the fine scale. -/
def claim (l : Ledger ι) (a : ι) : ℕ :=
  l.weight a * (l.index - l.checkpoint a)

/-- What settling an account pays. -/
def pending (P : ℕ) (l : Ledger ι) (a : ι) : ℕ := l.claim a / P

def accrue (P amount : ℕ) (l : Ledger ι) : Ledger ι :=
  { l with
    index := l.index + amount * P / l.divisor
    reserve := l.reserve + amount }

variable {P : ℕ} {l : Ledger ι}

theorem claim_accrue (h : ∀ a, l.checkpoint a ≤ l.index) (amount : ℕ) (a : ι) :
    (l.accrue P amount).claim a =
      l.claim a + l.weight a * (amount * P / l.divisor) := by
  have hgap : l.index + amount * P / l.divisor - l.checkpoint a =
      (l.index - l.checkpoint a) + amount * P / l.divisor :=
    Nat.sub_add_comm (h a)
  show l.weight a * (l.index + amount * P / l.divisor - l.checkpoint a) = _
  rw [hgap, Nat.mul_add]
  rfl

section Operations

variable [DecidableEq ι]

def settle (P : ℕ) (a : ι) (l : Ledger ι) : Ledger ι :=
  { l with
    checkpoint := update l.checkpoint a l.index
    reserve := l.reserve - l.pending P a }

/-- New weight for one account; the divisor follows. -/
def grow (a : ι) (n : ℕ) (l : Ledger ι) : Ledger ι :=
  { l with
    weight := update l.weight a (l.weight a + n)
    divisor := l.divisor + n }

/-- Weight moved between two accounts. -/
def shift (src dst : ι) (n : ℕ) (l : Ledger ι) : Ledger ι :=
  { l with weight := moved l.weight src dst n }

theorem claim_settle (a : ι) :
    (l.settle P a).claim = update l.claim a 0 := by
  ext b
  by_cases hb : b = a
  · subst hb
    simp [claim, settle]
  · simp [claim, settle, hb]

/-- Weight may only be given to an account that is settled: otherwise it would
earn for the time before it existed. -/
theorem claim_grow {a : ι} (n : ℕ) (ha : l.checkpoint a = l.index) :
    (l.grow a n).claim = l.claim := by
  ext b
  by_cases hb : b = a
  · subst hb
    simp [claim, grow, ha]
  · simp [claim, grow, hb]

theorem claim_shift {src dst : ι} (n : ℕ) (hsrc : l.checkpoint src = l.index)
    (hdst : l.checkpoint dst = l.index) :
    (l.shift src dst n).claim = l.claim := by
  ext b
  by_cases hs : b = src
  · subst hs
    simp [claim, shift, hsrc]
  · by_cases hd : b = dst
    · subst hd
      simp [claim, shift, hdst]
    · simp [claim, shift, moved_other hs hd]

end Operations

/-! ## Soundness -/

variable [Fintype ι]

/-- The invariant of a lazily distributed pot. One unit of the divisor belongs
to no account, so it is never zero. -/
structure Sound (P : ℕ) (l : Ledger ι) : Prop where
  behind : ∀ a, l.checkpoint a ≤ l.index
  total : l.divisor = 1 + ∑ a, l.weight a
  backed : ∑ a, l.claim a ≤ P * l.reserve

theorem Sound.divisor_pos (h : Sound P l) : 0 < l.divisor := by
  rw [h.total]
  omega

theorem Sound.claim_le (h : Sound P l) (a : ι) : l.claim a ≤ P * l.reserve :=
  (le_sum_of_key l.claim a).trans h.backed

theorem Sound.pending_le (h : Sound P l) (hP : 0 < P) (a : ι) :
    l.pending P a ≤ l.reserve := by
  have hdiv := Nat.div_le_div_right (c := P) (h.claim_le a)
  rwa [Nat.mul_div_cancel_left _ hP] at hdiv

/-- **Solvency.** Whatever set of accounts settles, the reserve pays it. -/
theorem Sound.sum_pending_le (h : Sound P l) (hP : 0 < P) (A : Finset ι) :
    ∑ a ∈ A, l.pending P a ≤ l.reserve := by
  have hfine : P * ∑ a ∈ A, l.pending P a ≤ P * l.reserve := by
    calc P * ∑ a ∈ A, l.pending P a
        = ∑ a ∈ A, P * l.pending P a := Finset.mul_sum _ _ _
      _ ≤ ∑ a ∈ A, l.claim a :=
          Finset.sum_le_sum fun a _ => Nat.mul_div_le (l.claim a) P
      _ ≤ ∑ a, l.claim a :=
          Finset.sum_le_sum_of_subset (Finset.subset_univ A)
      _ ≤ P * l.reserve := h.backed
  exact Nat.le_of_mul_le_mul_left hfine hP

theorem Sound.accrue (h : Sound P l) (amount : ℕ) :
    Sound P (l.accrue P amount) where
  behind a := (h.behind a).trans (Nat.le_add_right _ _)
  total := h.total
  backed := by
    have hweights : ∑ a, l.weight a ≤ l.divisor := by
      rw [h.total]
      omega
    calc ∑ a, (l.accrue P amount).claim a
        = ∑ a, (l.claim a + l.weight a * (amount * P / l.divisor)) :=
          Finset.sum_congr rfl fun a _ => claim_accrue h.behind amount a
      _ = ∑ a, l.claim a + (∑ a, l.weight a) * (amount * P / l.divisor) := by
          rw [Finset.sum_add_distrib, ← Finset.sum_mul]
      _ ≤ P * l.reserve + l.divisor * (amount * P / l.divisor) :=
          Nat.add_le_add h.backed (Nat.mul_le_mul_right _ hweights)
      _ ≤ P * l.reserve + amount * P :=
          Nat.add_le_add_left (Nat.mul_div_le _ _) _
      _ = P * (l.reserve + amount) := by ring

variable [DecidableEq ι]

theorem Sound.settle (h : Sound P l) (hP : 0 < P) (a : ι) :
    Sound P (l.settle P a) where
  behind b := by
    by_cases hb : b = a
    · subst hb
      simp [Ledger.settle]
    · simpa [Ledger.settle, hb] using h.behind b
  total := h.total
  backed := by
    -- the claim falls to zero, the reserve by the claim rounded down
    have hsum := sum_update_add l.claim a 0
    have hpaid : P * l.pending P a ≤ l.claim a := Nat.mul_div_le _ _
    have hback := h.backed
    have hle := Nat.mul_le_mul_left P (h.pending_le hP a)
    rw [claim_settle]
    show _ ≤ P * (l.reserve - l.pending P a)
    rw [Nat.mul_sub]
    omega

theorem Sound.grow (h : Sound P l) {a : ι} (n : ℕ)
    (ha : l.checkpoint a = l.index) : Sound P (l.grow a n) where
  behind := h.behind
  total := by
    have hsum := sum_credit l.weight a n
    show l.divisor + n = 1 + ∑ b, update l.weight a (l.weight a + n) b
    rw [hsum, h.total]
    ring
  backed := by
    rw [claim_grow n ha]
    exact h.backed

theorem Sound.shift (h : Sound P l) {src dst : ι} {n : ℕ}
    (hn : n ≤ l.weight src) (hsrc : l.checkpoint src = l.index)
    (hdst : l.checkpoint dst = l.index) : Sound P (l.shift src dst n) where
  behind := h.behind
  total := by
    show l.divisor = 1 + ∑ b, moved l.weight src dst n b
    rw [sum_moved hn, h.total]
  backed := by
    rw [claim_shift n hsrc hdst]
    exact h.backed

/-! ## Completeness

The other half of soundness: the reserve is handed out. What no account is owed
is what the extra unit of the divisor has earned, which is the index itself
since that unit is never settled, and dust. -/

/-- The reserve is claimed, by an account or by the extra unit, up to `dust` at
the fine scale. -/
structure Shared (P dust : ℕ) (l : Ledger ι) : Prop where
  covered : ∑ a, l.claim a + l.index ≤ P * l.reserve
  complete : P * l.reserve ≤ ∑ a, l.claim a + l.index + dust

variable {dust : ℕ}

omit [DecidableEq ι] in
/-- With the extra unit an accrual is split by the whole divisor. -/
theorem Sound.sum_claim_accrue (h : Sound P l) (amount : ℕ) :
    ∑ a, (l.accrue P amount).claim a + amount * P / l.divisor =
      ∑ a, l.claim a + l.divisor * (amount * P / l.divisor) := by
  have hclaims : ∑ a, (l.accrue P amount).claim a =
      ∑ a, l.claim a + (∑ a, l.weight a) * (amount * P / l.divisor) := by
    rw [Finset.sum_mul, ← Finset.sum_add_distrib]
    exact Finset.sum_congr rfl fun a _ => claim_accrue h.behind amount a
  have hunit : l.divisor * (amount * P / l.divisor) =
      amount * P / l.divisor + (∑ a, l.weight a) * (amount * P / l.divisor) := by
    have hsplit := congrArg (· * (amount * P / l.divisor)) h.total
    rwa [Nat.add_mul, Nat.one_mul] at hsplit
  rw [hclaims, hunit]
  ring

omit [DecidableEq ι] in
theorem Shared.accrue (hs : Sound P l) (h : Shared P dust l) (amount : ℕ) :
    Shared P (dust + if amount = 0 then 0 else l.divisor)
      (l.accrue P amount) := by
  have hclaims := hs.sum_claim_accrue amount
  have hdivision := Nat.div_add_mod (amount * P) l.divisor
  have hreserve : P * (l.accrue P amount).reserve = P * l.reserve + amount * P := by
    show P * (l.reserve + amount) = _
    rw [Nat.mul_add, Nat.mul_comm P amount]
  have hindex : (l.accrue P amount).index = l.index + amount * P / l.divisor := rfl
  have hrest : amount * P % l.divisor ≤ if amount = 0 then 0 else l.divisor := by
    split
    · next hnone =>
      rw [hnone, Nat.zero_mul, Nat.zero_mod]
    · exact (Nat.mod_lt _ hs.divisor_pos).le
  have hcovered := h.covered
  have hcomplete := h.complete
  constructor <;> rw [hreserve, hindex] <;> omega

/-- A settlement rounds its own claim down. -/
theorem Shared.settle (hs : Sound P l) (h : Shared P dust l) (hP : 0 < P)
    (a : ι) : Shared P (dust + P) (l.settle P a) := by
  have hsum := sum_update_add l.claim a 0
  have hpaid : P * l.pending P a ≤ l.claim a := Nat.mul_div_le _ _
  have hlost : l.claim a < P * l.pending P a + P := Nat.lt_mul_div_succ _ hP
  have hle := Nat.mul_le_mul_left P (hs.pending_le hP a)
  have hreserve : P * (l.settle P a).reserve = P * l.reserve - P * l.pending P a :=
    Nat.mul_sub _ _ _
  have hindex : (l.settle P a).index = l.index := rfl
  have hcovered := h.covered
  have hcomplete := h.complete
  constructor <;> rw [claim_settle, hreserve, hindex] <;> omega

omit [DecidableEq ι] in
theorem Shared.of_claims {l' : Ledger ι} (h : Shared P dust l)
    (hclaim : l'.claim = l.claim) (hindex : l'.index = l.index)
    (hreserve : l'.reserve = l.reserve) : Shared P dust l' := by
  constructor
  · rw [hclaim, hindex, hreserve]
    exact h.covered
  · rw [hclaim, hindex, hreserve]
    exact h.complete

theorem Shared.grow (h : Shared P dust l) {a : ι} (n : ℕ)
    (ha : l.checkpoint a = l.index) : Shared P dust (l.grow a n) :=
  h.of_claims (claim_grow n ha) rfl rfl

theorem Shared.shift (h : Shared P dust l) {src dst : ι} (n : ℕ)
    (hsrc : l.checkpoint src = l.index) (hdst : l.checkpoint dst = l.index) :
    Shared P dust (l.shift src dst n) :=
  h.of_claims (claim_shift n hsrc hdst) rfl rfl

omit [DecidableEq ι] in
/-- What settling everybody at once would pay, short of less than one unit for
each account that has any weight. -/
theorem sum_claim_le (hP : 0 < P) (l : Ledger ι) :
    ∑ a, l.claim a ≤ P * (∑ a, l.pending P a +
      (Finset.univ.filter fun a => l.weight a ≠ 0).card) := by
  rw [Nat.mul_add, Finset.mul_sum, Finset.card_filter, Finset.mul_sum,
    ← Finset.sum_add_distrib]
  apply Finset.sum_le_sum
  intro a _
  by_cases hweight : l.weight a = 0
  · have hnone : l.claim a = 0 := by
      unfold claim
      rw [hweight, Nat.zero_mul]
    rw [hnone]
    exact Nat.zero_le _
  · rw [if_pos hweight, Nat.mul_one]
    exact (Nat.lt_mul_div_succ _ hP).le

end Ledger

/-! ## Rounding

A balance is kept at scale `P` as tokens held plus the unsettled claim, with
nothing rounded. The displayed balance is its quotient by `P`, and settling
rounds it down to a multiple of `P`. Rounding questions about histories become
inequalities between such fine balances. -/

/-- Rounded down to a multiple of the scale. -/
def whole (P f : ℕ) : ℕ := P * (f / P)

section Rounding

variable {P x y e : ℕ}

theorem whole_le (P x : ℕ) : whole P x ≤ x := Nat.mul_div_le x P

theorem le_whole_add (hP : 0 < P) (x : ℕ) : x < whole P x + P :=
  Nat.lt_mul_div_succ x hP

theorem whole_div (hP : 0 < P) (x : ℕ) : whole P x / P = x / P :=
  Nat.mul_div_cancel_left _ hP

theorem whole_whole (hP : 0 < P) (x : ℕ) : whole P (whole P x) = whole P x := by
  unfold whole
  rw [Nat.mul_div_cancel_left _ hP]

theorem whole_mono (h : x ≤ y) : whole P x ≤ whole P y :=
  Nat.mul_le_mul_left P (Nat.div_le_div_right h)

/-- Rounding two fine balances down keeps any lead that is a whole number of
tokens. -/
theorem floor_lead (hP : 0 < P) (h : x ≤ y + P * e) : x / P ≤ y / P + e := by
  have hdiv := Nat.div_le_div_right (c := P) h
  rwa [Nat.add_mul_div_left _ _ hP] at hdiv

theorem whole_lead (hP : 0 < P) (h : x ≤ y + P * e) :
    whole P x ≤ whole P y + P * e := by
  unfold whole
  rw [← Nat.mul_add]
  exact Nat.mul_le_mul_left P (floor_lead hP h)

/-- Two accruals in place of one never move the index further. -/
theorem split_le (x y d : ℕ) : x / d + y / d ≤ (x + y) / d :=
  Nat.div_add_div_le_add_div

/-- And they fall short by at most one unit of the index. -/
theorem le_split_succ {d : ℕ} (hd : 0 < d) (x y : ℕ) :
    (x + y) / d ≤ x / d + y / d + 1 := by
  rw [Nat.add_div hd]
  split <;> omega

end Rounding

/-! ## Exact shares

What an accrual is worth to an account without any rounding is
`amount * weight / divisor`, a rational. The index falls short of it by less
than one unit for each unit of weight. -/

section Exact

variable {P d : ℕ}

theorem cast_div_bounds (hd : 0 < d) (m : ℕ) :
    ((m / d : ℕ) : ℚ) ≤ (m : ℚ) / d ∧ (m : ℚ) / d ≤ ((m / d : ℕ) : ℚ) + 1 := by
  refine ⟨Nat.cast_div_le, ?_⟩
  have hpos : (0 : ℚ) < d := by exact_mod_cast hd
  rw [div_le_iff₀ hpos]
  have hle : m ≤ (m / d + 1) * d := by
    rw [Nat.mul_comm]
    exact (Nat.lt_mul_div_succ m hd).le
  exact_mod_cast hle

/-- **The index refines the exact share.** -/
theorem share_bounds (hd : 0 < d) (P amount w : ℕ) :
    ((w * (amount * P / d) : ℕ) : ℚ) ≤ P * ((amount : ℚ) * w / d) ∧
    P * ((amount : ℚ) * w / d) ≤ ((w * (amount * P / d) : ℕ) : ℚ) + w := by
  obtain ⟨hlo, hhi⟩ := cast_div_bounds hd (amount * P)
  have hw : (0 : ℚ) ≤ w := Nat.cast_nonneg w
  have hexact : P * ((amount : ℚ) * w / d) = w * (((amount * P : ℕ) : ℚ) / d) := by
    push_cast
    ring
  rw [hexact, Nat.cast_mul]
  constructor
  · exact mul_le_mul_of_nonneg_left hlo hw
  · calc (w : ℚ) * (((amount * P : ℕ) : ℚ) / d)
        ≤ w * (((amount * P / d : ℕ) : ℚ) + 1) := mul_le_mul_of_nonneg_left hhi hw
      _ = w * ((amount * P / d : ℕ) : ℚ) + w := by ring

end Exact

end LazyIndex
