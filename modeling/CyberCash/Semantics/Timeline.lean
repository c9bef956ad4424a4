import CyberCash.Semantics.Flows

/-!
# The passage of time

Between two transactions only the clock moves, and every displayed quantity
grows with it. From a state that has just accrued, a claim grows by
`score * growth`; from one that has not, an accrual in between can cost each
unit of score one unit of the index.
-/

namespace CyberCash

open Solidity Function State LazyIndex

/-- How far the index moves in `d` seconds while `divisor` is burned. -/
def growth (divisor d : ℕ) : ℕ := MINT_PER_SECOND * d * REWARD_PRECISION / divisor

namespace State

variable {s : State} {now t t' : ℕ} {a : Address}

theorem accrued_mono (s : State) (ht : t ≤ t') : s.accrued t ≤ s.accrued t' := by
  unfold accrued
  split
  · exact Nat.mul_le_mul_left _ (Nat.sub_le_sub_right ht _)
  · exact Nat.le_refl 0

theorem indexAt_mono (s : State) (ht : t ≤ t') : s.indexAt t ≤ s.indexAt t' :=
  Nat.add_le_add_left
    (Nat.div_le_div_right (Nat.mul_le_mul_right _ (s.accrued_mono ht))) _

theorem balanceAt_mono (s : State) (ht : t ≤ t') (a : Address) :
    s.balanceAt t a ≤ s.balanceAt t' a := by
  have hgap := Nat.sub_le_sub_right (s.indexAt_mono ht)
    (s.userRewardsPerTokenBurned a)
  exact Nat.add_le_add_left (Nat.div_le_div_right (Nat.mul_le_mul_left _ hgap)) _

theorem accrued_split (howner : s.owner = 0) (hclock : s.lastMintTime ≤ now)
    (ht : now ≤ t) :
    s.accrued t = s.accrued now + MINT_PER_SECOND * (t - now) := by
  rw [accrued_of_launched howner, accrued_of_launched howner, ← Nat.mul_add]
  congr 1
  omega

theorem supplyAt_split (howner : s.owner = 0) (hclock : s.lastMintTime ≤ now)
    (ht : now ≤ t) :
    s.supplyAt t = s.supplyAt now + MINT_PER_SECOND * (t - now) := by
  unfold supplyAt
  rw [accrued_split howner hclock ht]
  exact (Nat.add_assoc _ _ _).symm

/-- From a fresh accrual the index grows by one division. -/
theorem indexAt_fresh (howner : s.owner = 0) (hclock : s.lastMintTime = now)
    (t : ℕ) : s.indexAt t = s.indexAt now + growth s.totalBurned (t - now) := by
  rw [indexAt_self hclock]
  unfold indexAt growth
  rw [accrued_of_launched howner, hclock]

theorem indexAt_split_le (howner : s.owner = 0) (hclock : s.lastMintTime ≤ now)
    (ht : now ≤ t) :
    s.indexAt now + growth s.totalBurned (t - now) ≤ s.indexAt t := by
  unfold indexAt growth
  rw [accrued_split howner hclock ht, Nat.add_mul, Nat.add_assoc]
  exact Nat.add_le_add_left (split_le _ _ _) _

theorem indexAt_le_split (h : Inv s) (howner : s.owner = 0)
    (hclock : s.lastMintTime ≤ now) (ht : now ≤ t) :
    s.indexAt t ≤ s.indexAt now + growth s.totalBurned (t - now) + 1 := by
  have hsplit := le_split_succ h.totalBurned_pos
    (s.accrued now * REWARD_PRECISION)
    (MINT_PER_SECOND * (t - now) * REWARD_PRECISION)
  unfold indexAt growth
  rw [accrued_split howner hclock ht, Nat.add_mul]
  omega

theorem checkpoint_le_indexAt (h : Inv s) (now : ℕ) (a : Address) :
    s.userRewardsPerTokenBurned a ≤ s.indexAt now := (h.soundAt now).behind a

/-- A claim follows the index. -/
theorem claimAt_of_index {i : ℕ} (h : Inv s) (hi : s.indexAt t = s.indexAt now + i)
    (a : Address) : s.claimAt t a = s.claimAt now a + s.burnScore a * i := by
  unfold claimAt
  rw [claim_ledgerAt, claim_ledgerAt, hi, ← Nat.mul_add,
    Nat.sub_add_comm (checkpoint_le_indexAt h now a)]

theorem fineAt_of_index {i : ℕ} (h : Inv s) (hi : s.indexAt t = s.indexAt now + i)
    (a : Address) : s.fineAt t a = s.fineAt now a + s.burnScore a * i := by
  unfold fineAt
  rw [claimAt_of_index h hi, Nat.add_assoc]

theorem fineAt_fresh (h : Inv s) (howner : s.owner = 0)
    (hclock : s.lastMintTime = now) (t : ℕ) (a : Address) :
    s.fineAt t a = s.fineAt now a +
      s.burnScore a * growth s.totalBurned (t - now) :=
  fineAt_of_index h (indexAt_fresh howner hclock t) a

/-- **An accrual in between** costs nothing or one unit of the index. -/
theorem fineAt_split (h : Inv s) (howner : s.owner = 0)
    (hclock : s.lastMintTime ≤ now) (ht : now ≤ t) (a : Address) :
    s.fineAt now a + s.burnScore a * growth s.totalBurned (t - now) ≤
        s.fineAt t a ∧
      s.fineAt t a ≤ s.fineAt now a +
        s.burnScore a * growth s.totalBurned (t - now) + s.burnScore a := by
  have hlo := indexAt_split_le howner hclock ht
  have hhi := indexAt_le_split h howner hclock ht
  have hindex : s.indexAt t = s.indexAt now + (s.indexAt t - s.indexAt now) :=
    (Nat.add_sub_cancel' (s.indexAt_mono ht)).symm
  rw [fineAt_of_index h hindex, Nat.add_assoc (s.fineAt now a), ← Nat.mul_succ]
  constructor
  · exact Nat.add_le_add_left (Nat.mul_le_mul_left _ (by omega)) _
  · exact Nat.add_le_add_left (Nat.mul_le_mul_left _ (by omega)) _

end State

/-! ## Which calls accrue -/

theorem Effect.of_approval {s s' : State} {tx : Tx} (he : Effect s tx s')
    (hcall : tx.call.isApproval = true) : s.Reapproves s' := by
  cases he with
  | launch hlaunch =>
      rw [hlaunch] at hcall
      exact Bool.noConfusion hcall
  | reapprove _ hs => exact hs
  | send hmove =>
      rw [Tx.movement_of_approval hcall] at hmove
      cases hmove
  | moveScore hscore =>
      rw [hscore] at hcall
      exact Bool.noConfusion hcall

/-- After the launch every other call accrues at its own timestamp. -/
theorem Effect.accrues {s s' : State} {tx : Tx} (he : Effect s tx s')
    (hinv : Inv s) (howner : s.owner = 0) (hcall : tx.call.isApproval = false) :
    s'.lastMintTime = tx.now := by
  cases he with
  | launch => rfl
  | reapprove happroval =>
      rw [happroval] at hcall
      exact Bool.noConfusion hcall
  | send =>
      have hpool : (s.charge tx).liquidityPool ≠ 0 := by
        rw [(s.charge_reapproves tx).liquidityPool]
        exact hinv.phase.mp howner
      unfold State.send
      rw [if_neg hpool]
      split <;> rfl
  | moveScore => rfl

/-! ## The index and the checkpoints -/

namespace State

variable {s s' : State} {now x n : ℕ} {a src dst : Address}

theorem indexAt_reapproves (h : s.Reapproves s') (now : ℕ) :
    s'.indexAt now = s.indexAt now := by
  obtain ⟨_, _, _, rfl, -⟩ := h
  unfold indexAt accrued
  rfl

theorem send_rewardsPerTokenBurned (hpool : s.liquidityPool ≠ 0) :
    (s.send now src dst x).rewardsPerTokenBurned = s.indexAt now := by
  unfold send
  rw [if_neg hpool]
  split <;> rfl

theorem send_userRewardsPerTokenBurned (hpool : s.liquidityPool ≠ 0) :
    (s.send now src dst x).userRewardsPerTokenBurned =
      update s.userRewardsPerTokenBurned src (s.indexAt now) := by
  unfold send
  rw [if_neg hpool]
  split <;> rfl

theorem moveScore_rewardsPerTokenBurned (s : State) (now : ℕ)
    (src dst : Address) (n : ℕ) :
    (s.moveScore now src dst n).rewardsPerTokenBurned = s.indexAt now :=
  indexAt_self (s := s.settle now src) rfl

theorem moveScore_userRewardsPerTokenBurned (s : State) (now : ℕ)
    (src dst : Address) (n : ℕ) :
    (s.moveScore now src dst n).userRewardsPerTokenBurned =
      update (update s.userRewardsPerTokenBurned src (s.indexAt now)) dst
        (s.indexAt now) := by
  have hindex : (s.settle now src).indexAt now = s.indexAt now :=
    indexAt_self (s := s.settle now src) rfl
  show update (s.settle now src).userRewardsPerTokenBurned dst
    ((s.settle now src).indexAt now) = _
  rw [hindex]
  rfl

end State

/-- The stored index after a call that accrues is the one the views read. -/
theorem Effect.index {s s' : State} {tx : Tx} (he : Effect s tx s')
    (hinv : Inv s) (howner : s.owner = 0) (hcall : tx.call.isApproval = false) :
    s'.rewardsPerTokenBurned = s.indexAt tx.now := by
  cases he with
  | launch hlaunch hsender =>
      exact absurd (hsender.trans howner) tx.msg.sender_ne_zero
  | reapprove happroval =>
      rw [happroval] at hcall
      exact Bool.noConfusion hcall
  | send =>
      have hs := s.charge_reapproves tx
      rw [send_rewardsPerTokenBurned (hs.liquidityPool ▸ hinv.phase.mp howner),
        indexAt_reapproves hs]
  | moveScore => exact moveScore_rewardsPerTokenBurned s tx.now tx.sender _ _

/-- The parties a call settles are brought up to the index, no others. -/
theorem Effect.checkpoint {s s' : State} {tx : Tx} (he : Effect s tx s')
    (hinv : Inv s) (howner : s.owner = 0) (a : Address) :
    s'.userRewardsPerTokenBurned a =
      if a ∈ tx.settles then s.indexAt tx.now
        else s.userRewardsPerTokenBurned a := by
  cases he with
  | launch hlaunch hsender =>
      exact absurd (hsender.trans howner) tx.msg.sender_ne_zero
  | reapprove happroval hs =>
      rw [Tx.settles_of_approval happroval, hs.userRewardsPerTokenBurned]
      rfl
  | @send src dst x hmove =>
      have hs := s.charge_reapproves tx
      rw [send_userRewardsPerTokenBurned (hs.liquidityPool ▸ hinv.phase.mp howner),
        Tx.settles_of_movement hmove, hs.userRewardsPerTokenBurned,
        indexAt_reapproves hs]
      simp only [update_apply, List.mem_singleton]
  | @moveScore dst n hscore =>
      rw [moveScore_userRewardsPerTokenBurned]
      simp only [Tx.settles, hscore, update_apply, List.mem_cons,
        List.not_mem_nil, or_false]
      by_cases hd : a = dst
      · simp [hd]
      · simp [hd]

end CyberCash
