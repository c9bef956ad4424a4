import CyberCash.Library.LazyIndex

/-!
# The eager reading of a lazy ledger

What a lazily distributed pot stands for: a pot in which every accrual credits
every account at once, with no index, no checkpoint and nothing outstanding.
Wealth is kept at the scale `P`. `Ledger.pot` reads a ledger together with the
balances it pays into, and each operation of the ledger is, through that
reading, the plain operation of the pot.
-/

namespace LazyIndex

open Function Solidity

variable {ι : Type}

/-- What every account owns, and the weight by which it shares. -/
@[ext]
structure Pot (ι : Type) where
  wealth : ι → ℕ
  weight : ι → ℕ

namespace Pot

/-- All shares of an accrual, one of them belonging to nobody. -/
def shares [Fintype ι] (p : Pot ι) : ℕ := 1 + ∑ a, p.weight a

/-- Every unit of weight receives the same. -/
def accrue [Fintype ι] (P amount : ℕ) (p : Pot ι) : Pot ι :=
  { p with wealth := fun a => p.wealth a + p.weight a * (amount * P / p.shares) }

variable [DecidableEq ι]

/-- An account is rounded down to whole tokens. -/
def round (P : ℕ) (a : ι) (p : Pot ι) : Pot ι :=
  { p with wealth := update p.wealth a (whole P (p.wealth a)) }

/-- Whole tokens in. -/
def give (P : ℕ) (a : ι) (x : ℕ) (p : Pot ι) : Pot ι :=
  { p with wealth := update p.wealth a (p.wealth a + P * x) }

/-- Whole tokens out. -/
def take (P : ℕ) (a : ι) (x : ℕ) (p : Pot ι) : Pot ι :=
  { p with wealth := update p.wealth a (p.wealth a - P * x) }

def grow (a : ι) (n : ℕ) (p : Pot ι) : Pot ι :=
  { p with weight := update p.weight a (p.weight a + n) }

def shift (src dst : ι) (n : ℕ) (p : Pot ι) : Pot ι :=
  { p with weight := moved p.weight src dst n }

end Pot

namespace Ledger

/-- A ledger read eagerly: what an account holds and what it is owed. -/
def pot (P : ℕ) (balance : ι → ℕ) (l : Ledger ι) : Pot ι where
  wealth a := P * balance a + l.claim a
  weight := l.weight

variable {P : ℕ} {l : Ledger ι} {balance : ι → ℕ}

theorem pot_accrue [Fintype ι] (h : Sound P l) (amount : ℕ) :
    (l.accrue P amount).pot P balance = (l.pot P balance).accrue P amount := by
  have hshares : (l.pot P balance).shares = l.divisor := h.total.symm
  ext a
  · show P * balance a + (l.accrue P amount).claim a =
      P * balance a + l.claim a + l.weight a * (amount * P / (l.pot P balance).shares)
    rw [claim_accrue h.behind, hshares, Nat.add_assoc]
  · rfl

variable [DecidableEq ι]

/-- Paying out a claim rounds the account, and is not visible otherwise. -/
theorem pot_settle (hP : 0 < P) (a : ι) :
    (l.settle P a).pot P (update balance a (balance a + l.pending P a)) =
      (l.pot P balance).round P a := by
  ext b
  · show P * update balance a _ b + (l.settle P a).claim b =
      update (l.pot P balance).wealth a _ b
    rw [claim_settle]
    by_cases hb : b = a
    · subst hb
      rw [update_self, update_self, update_self, Nat.add_zero]
      show _ = P * ((P * balance b + l.claim b) / P)
      rw [Nat.mul_add_div hP]
      rfl
    · rw [update_of_ne hb, update_of_ne hb, update_of_ne hb]
      rfl
  · rfl

theorem pot_give (a : ι) (x : ℕ) :
    l.pot P (update balance a (balance a + x)) = (l.pot P balance).give P a x := by
  ext b
  · show P * update balance a (balance a + x) b + l.claim b =
      update (l.pot P balance).wealth a _ b
    by_cases hb : b = a
    · subst hb
      rw [update_self, update_self, Nat.mul_add, Nat.add_right_comm]
      rfl
    · rw [update_of_ne hb, update_of_ne hb]
      rfl
  · rfl

theorem pot_take {a : ι} {x : ℕ} (hx : x ≤ balance a) :
    l.pot P (update balance a (balance a - x)) = (l.pot P balance).take P a x := by
  ext b
  · show P * update balance a (balance a - x) b + l.claim b =
      update (l.pot P balance).wealth a _ b
    by_cases hb : b = a
    · subst hb
      rw [update_self, update_self, Nat.mul_sub,
        ← Nat.sub_add_comm (Nat.mul_le_mul_left P hx)]
      rfl
    · rw [update_of_ne hb, update_of_ne hb]
      rfl
  · rfl

/-- A payment, the debit first. -/
theorem pot_moved {src : ι} {x : ℕ} (hx : x ≤ balance src) (dst : ι) :
    l.pot P (moved balance src dst x) =
      ((l.pot P balance).take P src x).give P dst x := by
  unfold moved
  rw [pot_give, pot_take hx]

theorem pot_grow {a : ι} (n : ℕ) (ha : l.checkpoint a = l.index) :
    (l.grow a n).pot P balance = (l.pot P balance).grow a n := by
  ext b
  · show P * balance b + (l.grow a n).claim b = P * balance b + l.claim b
    rw [claim_grow n ha]
  · rfl

theorem pot_shift {src dst : ι} (n : ℕ) (hsrc : l.checkpoint src = l.index)
    (hdst : l.checkpoint dst = l.index) :
    (l.shift src dst n).pot P balance = (l.pot P balance).shift src dst n := by
  ext b
  · show P * balance b + (l.shift src dst n).claim b = P * balance b + l.claim b
    rw [claim_shift n hsrc hdst]
  · rfl

end Ledger

end LazyIndex
