import CyberCash.Contract.Calls
import CyberCash.Library.LazyIndex

/-!
# What the views compute

The reward bookkeeping of a state is a `LazyIndex.Ledger`, and the views read
the ledger as it would stand if it accrued now. Each view has a plain value
(`accrued`, `rewardsAt`, `balanceAt`, `supplyAt`), and one lemma says that the
view, when it returns, returns that value. `Fits` collects the arithmetic side
conditions under which every view does return.
-/

namespace CyberCash

open Solidity Function

theorem rewardPrecision_pos : 0 < REWARD_PRECISION := by decide +kernel

namespace State

/-! ## Plain values -/

/-- Inflation since the last accrual; there is none while the owner is set. -/
def accrued (s : State) (now : ℕ) : ℕ :=
  if s.owner = 0 then MINT_PER_SECOND * (now - s.lastMintTime) else 0

def ledger (s : State) : LazyIndex.Ledger Address where
  index := s.rewardsPerTokenBurned
  checkpoint := s.userRewardsPerTokenBurned
  weight := s.burnScore
  divisor := s.totalBurned
  reserve := s.pendingMints

/-- The ledger with the accrual up to `now` simulated. -/
def ledgerAt (s : State) (now : ℕ) : LazyIndex.Ledger Address :=
  s.ledger.accrue REWARD_PRECISION (s.accrued now)

def indexAt (s : State) (now : ℕ) : ℕ :=
  s.rewardsPerTokenBurned + s.accrued now * REWARD_PRECISION / s.totalBurned

def rewardsAt (s : State) (now : ℕ) (a : Address) : ℕ :=
  s.burnScore a * (s.indexAt now - s.userRewardsPerTokenBurned a) /
    REWARD_PRECISION

def balanceAt (s : State) (now : ℕ) (a : Address) : ℕ :=
  s._balances a + s.rewardsAt now a

def supplyAt (s : State) (now : ℕ) : ℕ :=
  s._totalSupply + s.pendingMints + s.accrued now

theorem claim_ledgerAt (s : State) (now : ℕ) (a : Address) :
    (s.ledgerAt now).claim a =
      s.burnScore a * (s.indexAt now - s.userRewardsPerTokenBurned a) := rfl

variable {s : State} {now : ℕ} {a : Address} {r : ℕ}

theorem accrued_of_owner (h : s.owner ≠ 0) (now : ℕ) : s.accrued now = 0 :=
  if_neg h

theorem accrued_of_launched (h : s.owner = 0) (now : ℕ) :
    s.accrued now = MINT_PER_SECOND * (now - s.lastMintTime) := if_pos h

theorem accrued_self (h : s.lastMintTime = now) : s.accrued now = 0 := by
  unfold accrued
  simp [h]

theorem indexAt_self (h : s.lastMintTime = now) :
    s.indexAt now = s.rewardsPerTokenBurned := by
  unfold indexAt
  simp [accrued_self h]

theorem rewardsAt_of_idle (h : s.burnScore a = 0) (now : ℕ) :
    s.rewardsAt now a = 0 := by
  unfold rewardsAt
  simp [h]

/-- An account that has just been settled has nothing pending. -/
theorem rewardsAt_of_settled (hclock : s.lastMintTime = now)
    (hsettled : s.userRewardsPerTokenBurned a = s.rewardsPerTokenBurned) :
    s.rewardsAt now a = 0 := by
  unfold rewardsAt
  rw [indexAt_self hclock, hsettled, Nat.sub_self, Nat.mul_zero, Nat.zero_div]

theorem balanceAt_of_idle (h : s.burnScore a = 0) (now : ℕ) :
    s.balanceAt now a = s._balances a := by
  unfold balanceAt
  rw [rewardsAt_of_idle h, Nat.add_zero]

/-! ## A view that returns, returns its plain value -/

theorem totalRewards_eq_ok :
    s.totalRewards now = .ok r ↔
      (s.owner = 0 → s.lastMintTime ≤ now ∧ s.accrued now < 2 ^ 256) ∧
        r = s.accrued now := by
  unfold totalRewards accrued
  by_cases h : s.owner = 0
  · rw [if_pos h, if_pos h, bind_eq_ok]
    simp only [checkedSub_eq_ok, checkedMul_eq_ok]
    constructor
    · rintro ⟨_, ⟨hle, rfl⟩, hlt, rfl⟩
      exact ⟨fun _ => ⟨hle, hlt⟩, rfl⟩
    · rintro ⟨hfit, rfl⟩
      exact ⟨_, ⟨(hfit h).1, rfl⟩, (hfit h).2, rfl⟩
  · rw [if_neg h, if_neg h]
    simp only [pure_eq_ok, Except.ok.injEq, h, false_implies, true_and]
    exact eq_comm

theorem userRewards_eq (h : s.userRewards now a = .ok r) :
    r = s.rewardsAt now a := by
  simp only [userRewards, bind_eq_ok, totalRewards_eq_ok, checkedMul_eq_ok,
    checkedDiv_eq_ok, checkedAdd_eq_ok, checkedSub_eq_ok] at h
  obtain ⟨_, ⟨-, rfl⟩, _, ⟨-, rfl⟩, _, ⟨-, rfl⟩, _, ⟨-, rfl⟩, _, ⟨-, rfl⟩, _,
    ⟨-, rfl⟩, -, rfl⟩ := h
  rfl

theorem balanceOf_eq (h : s.balanceOf now a = .ok r) :
    r = s.balanceAt now a := by
  simp only [balanceOf, bind_eq_ok, checkedAdd_eq_ok] at h
  obtain ⟨rewards, hrewards, -, rfl⟩ := h
  rw [userRewards_eq hrewards]
  rfl

theorem sum_balanceOf_eq {A : Finset Address} {b : Address → ℕ}
    (h : ∀ a ∈ A, s.balanceOf now a = .ok (b a)) :
    ∑ a ∈ A, b a = ∑ a ∈ A, s.balanceAt now a :=
  Finset.sum_congr rfl fun a ha => balanceOf_eq (h a ha)

theorem totalSupply_eq (h : s.totalSupply now = .ok r) :
    r = s.supplyAt now := by
  simp only [totalSupply, bind_eq_ok, checkedAdd_eq_ok, totalRewards_eq_ok] at h
  obtain ⟨_, ⟨-, rfl⟩, _, ⟨-, rfl⟩, -, rfl⟩ := h
  rfl

/-! Two readings follow the plain values. -/

section Readings

variable {s' : State} {n : ℕ}

theorem rises_balanceOf (h : s'.balanceAt now a = s.balanceAt now a + n) :
    Rises (s.balanceOf now a) (s'.balanceOf now a) n := by
  intro x x' hx hx'
  rw [balanceOf_eq hx, balanceOf_eq hx', h]

theorem falls_balanceOf (h : s'.balanceAt now a + n = s.balanceAt now a) :
    Falls (s.balanceOf now a) (s'.balanceOf now a) n := by
  intro x x' hx hx'
  rw [balanceOf_eq hx, balanceOf_eq hx', h]

theorem stays_balanceOf (h : s'.balanceAt now a = s.balanceAt now a) :
    Stays (s.balanceOf now a) (s'.balanceOf now a) := by
  intro x x' hx hx'
  rw [balanceOf_eq hx, balanceOf_eq hx', h]

theorem falls_totalSupply (h : s'.supplyAt now + n = s.supplyAt now) :
    Falls (s.totalSupply now) (s'.totalSupply now) n := by
  intro x x' hx hx'
  rw [totalSupply_eq hx, totalSupply_eq hx', h]

theorem stays_totalSupply (h : s'.supplyAt now = s.supplyAt now) :
    Stays (s.totalSupply now) (s'.totalSupply now) := by
  intro x x' hx hx'
  rw [totalSupply_eq hx, totalSupply_eq hx', h]

end Readings

/-! ## When the views return -/

/-- No operation of the views leaves the words at time `now`. -/
structure Fits (s : State) (now : ℕ) : Prop where
  elapsed : s.owner = 0 → s.lastMintTime ≤ now
  scaled : s.accrued now * REWARD_PRECISION < 2 ^ 256
  divisor : 0 < s.totalBurned
  index : s.indexAt now < 2 ^ 256
  behind : ∀ a, s.userRewardsPerTokenBurned a ≤ s.indexAt now
  claim : ∀ a, s.burnScore a *
    (s.indexAt now - s.userRewardsPerTokenBurned a) < 2 ^ 256
  balance : ∀ a, s.balanceAt now a < 2 ^ 256
  supply : s.supplyAt now < 2 ^ 256

theorem Fits.accrued_lt (h : s.Fits now) : s.accrued now < 2 ^ 256 := by
  have hsupply := h.supply
  unfold supplyAt at hsupply
  omega

theorem Fits.totalRewards (h : s.Fits now) :
    s.totalRewards now = .ok (s.accrued now) :=
  totalRewards_eq_ok.mpr ⟨fun h₀ => ⟨h.elapsed h₀, h.accrued_lt⟩, rfl⟩

theorem Fits.userRewards (h : s.Fits now) (a : Address) :
    s.userRewards now a = .ok (s.rewardsAt now a) := by
  unfold State.userRewards
  rw [h.totalRewards, ok_bind, checkedMul_of_lt h.scaled, ok_bind,
    checkedDiv_of_pos h.divisor, ok_bind, checkedAdd_of_lt h.index, ok_bind]
  change (checkedSub (s.indexAt now) (s.userRewardsPerTokenBurned a) >>= _) = _
  rw [checkedSub_of_le (h.behind a), ok_bind, checkedMul_of_lt (h.claim a),
    ok_bind, checkedDiv_of_pos rewardPrecision_pos]
  rfl

theorem Fits.balanceOf (h : s.Fits now) (a : Address) :
    s.balanceOf now a = .ok (s.balanceAt now a) := by
  unfold State.balanceOf
  rw [h.userRewards a, ok_bind]
  exact checkedAdd_of_lt (h.balance a)

theorem Fits.totalSupply (h : s.Fits now) :
    s.totalSupply now = .ok (s.supplyAt now) := by
  have hsupply := h.supply
  unfold supplyAt at hsupply
  unfold State.totalSupply ERC20.totalSupply
  rw [checkedAdd_of_lt (by omega), ok_bind, h.totalRewards, ok_bind]
  exact checkedAdd_of_lt hsupply

end State

end CyberCash
