import CyberCash.Semantics.History
import CyberCash.Results.Solvency

/-!
# Pro-rata rewards

The index with its checkpoints refines the ideal distribution, in which every
second of inflation is split among the scores held at that second. What an
account has earned never exceeds its ideal share, and falls short of it by the
rounding of the index, once for every interval between accruals, and of its
own claims.
-/

namespace CyberCash

open Solidity Function State TimedRun LazyIndex

/-! ## What an account has earned -/

namespace State

/-- Rewards minted so far and rewards pending, at the scale of the index. -/
def earnedAt (s : State) (now : ℕ) (a : Address) : ℕ :=
  REWARD_PRECISION * s.claimed a + s.claimAt now a

end State

/-- From `s` to `s'`, at one moment, the earnings of `a` lost at most the
rounding of the claims made in between. -/
structure Mints (now : ℕ) (a : Address) (s s' : State) : Prop where
  down : s'.earnedAt now a ≤ s.earnedAt now a
  up : s.earnedAt now a + REWARD_PRECISION * s.mints a ≤
    s'.earnedAt now a + REWARD_PRECISION * s'.mints a

namespace Mints

variable {s s' s'' : State} {now x n : ℕ} {a b src dst : Address}

theorem of_eq (hclaim : s'.claimAt now a = s.claimAt now a)
    (htally : ∀ f, Special f → (∀ y, f (.burnedTokensFromLP y) = 0) →
      s'.tally f = s.tally f) : Mints now a s s' := by
  have hclaimed : s'.claimed a = s.claimed a :=
    htally _ (special_amountClaimed a) fun _ => rfl
  have hmints : s'.mints a = s.mints a :=
    htally _ (special_claims a) fun _ => rfl
  have hearned : s'.earnedAt now a = s.earnedAt now a := by
    unfold earnedAt
    rw [hclaimed, hclaim]
  exact ⟨hearned.le, by rw [hearned, hmints]⟩

theorem trans (h : Mints now a s s') (h' : Mints now a s' s'') :
    Mints now a s s'' := ⟨h'.down.trans h.down, h.up.trans h'.up⟩

/-- A claim of `a` itself loses less than one token, any other claim nothing. -/
theorem settle (s : State) (now : ℕ) (a b : Address) :
    Mints now a s (s.settle now b) := by
  have hclaimed : (s.settle now b).claimed a =
      s.claimed a + if b = a then s.rewardsAt now b else 0 :=
    tally_settle (special_amountClaimed a) s now b
  have hmints : (s.settle now b).mints a = s.mints a + if b = a then 1 else 0 :=
    tally_settle (special_claims a) s now b
  have hclaim := congrFun (claimAt_settle s now b) a
  by_cases hb : b = a
  · subst hb
    rw [if_pos rfl] at hclaimed hmints
    rw [update_self] at hclaim
    have hpaid := whole_le REWARD_PRECISION (s.claimAt now b)
    have hlost := le_whole_add rewardPrecision_pos (s.claimAt now b)
    constructor
    · unfold earnedAt
      rw [hclaimed, hclaim, rewardsAt_eq, Nat.mul_add, Nat.add_zero]
      exact Nat.add_le_add_left hpaid _
    · unfold earnedAt
      rw [hclaimed, hclaim, hmints, rewardsAt_eq, Nat.mul_add, Nat.mul_add]
      show _ ≤ REWARD_PRECISION * s.claimed b +
        whole REWARD_PRECISION (s.claimAt now b) + 0 + _
      omega
  · rw [if_neg hb, Nat.add_zero] at hclaimed hmints
    rw [update_of_ne (Ne.symm hb)] at hclaim
    have hearned : (s.settle now b).earnedAt now a = s.earnedAt now a := by
      unfold earnedAt
      rw [hclaimed, hclaim]
    exact ⟨hearned.le, by rw [hearned, hmints]⟩

theorem pay (s : State) (now : ℕ) (a src dst : Address) (x : ℕ) :
    Mints now a s (s.pay src dst x) :=
  of_eq (claimAt_pay s now src dst x a) fun _ hf _ => tally_pay hf

theorem reapproves (h : s.Reapproves s') (now : ℕ) (a : Address) :
    Mints now a s s' :=
  of_eq (claimAt_reapproves h now a) fun _ hf _ => tally_reapproves hf h

theorem levy (hclock : s.lastMintTime = now)
    (hsettled : s.userRewardsPerTokenBurned src = s.rewardsPerTokenBurned) :
    Mints now a s (s.levy src x) := by
  apply of_eq (claimAt_levy hclock hsettled a)
  intro f hf hlp
  rw [tally_levy hf, hlp, Nat.add_zero]

theorem send (s : State) (now : ℕ) (a src dst : Address) (x : ℕ) :
    Mints now a s (s.send now src dst x) := by
  have hsettle := settle s now a src
  rcases s.send_cases now src dst x with
    ⟨-, -, hsend⟩ | ⟨-, -, hsend⟩ | ⟨-, -, hsend⟩
  · rw [hsend]
    exact pay s now a src dst x
  · have hlevied : Mints now a s ((s.settle now src).levy src x) :=
      hsettle.trans (levy (settle_lastMintTime s now src) (settle_settled s now src))
    rw [hsend]
    exact hlevied.trans (pay _ now a src dst _)
  · rw [hsend]
    exact hsettle.trans (pay _ now a src dst x)

theorem moveScore (s : State) (now : ℕ) (a src dst : Address) (n : ℕ) :
    Mints now a s (s.moveScore now src dst n) :=
  ((settle s now a src).trans (settle _ now a dst)).trans
    (of_eq (claimAt_moveScore s now src dst n a) fun f _ _ => tally_moveScore f s)

end Mints

theorem Effect.mints {s s' : State} {tx : Tx} (he : Effect s tx s')
    (howner : s.owner = 0) (a : Address) : Mints tx.now a s s' := by
  cases he with
  | launch hcall hsender =>
      exact absurd (hsender.trans howner) tx.msg.sender_ne_zero
  | reapprove _ hs => exact .reapproves hs tx.now a
  | send =>
      exact (Mints.reapproves (s.charge_reapproves tx) tx.now a).trans
        (.send _ tx.now a _ _ _)
  | moveScore => exact .moveScore s tx.now a _ _ _

/-! ## The ideal distribution -/

/-- A stretch of time with the score of one account and the total burned held
during it. -/
structure Interval where
  seconds : ℕ
  score : ℕ
  burned : ℕ

/-- The exact share of the inflation in the interval. -/
def Interval.share (i : Interval) : ℚ :=
  ((MINT_PER_SECOND * i.seconds : ℕ) : ℚ) * i.score / i.burned

/-- From the accrual before a step to the one it makes. A step that does not
accrue leaves an interval of no length. -/
def intervalOf (a : Address) (st : TokenStep) : Interval :=
  ⟨st.post.lastMintTime - st.pre.lastMintTime, st.pre.burnScore a,
    st.pre.totalBurned⟩

/-- From the last accrual until now. -/
def openInterval (a : Address) (s : State) (now : ℕ) : Interval :=
  ⟨now - s.lastMintTime, s.burnScore a, s.totalBurned⟩

/-- The intervals between the accruals of a run. -/
def closedIntervals (a : Address) (steps : List TokenStep) : List Interval :=
  (steps.map (intervalOf a)).filter (0 < ·.seconds)

/-- All intervals of a run that is now in `s`, the last one ending now. -/
def intervals (a : Address) (steps : List TokenStep) (s : State) (now : ℕ) :
    List Interval :=
  closedIntervals a steps ++ [openInterval a s now].filter (0 < ·.seconds)

def ideal (is : List Interval) : ℚ := (is.map Interval.share).sum

/-- What the rounding of the index can cost. -/
def indexDust (is : List Interval) : ℚ :=
  (is.map fun i => (i.score : ℚ) / REWARD_PRECISION).sum

theorem ideal_append (is js : List Interval) :
    ideal (is ++ js) = ideal is + ideal js := by
  unfold ideal
  rw [List.map_append, List.sum_append]

theorem indexDust_append (is js : List Interval) :
    indexDust (is ++ js) = indexDust is + indexDust js := by
  unfold indexDust
  rw [List.map_append, List.sum_append]

theorem closedIntervals_snoc (a : Address) (steps : List TokenStep)
    (st : TokenStep) :
    closedIntervals a (steps ++ [st]) =
      closedIntervals a steps ++ [intervalOf a st].filter (0 < ·.seconds) := by
  unfold closedIntervals
  rw [List.map_append, List.filter_append, List.map_singleton]

/-- **One interval.** What the index gives for it, against the exact share. An
interval of no length gives nothing and costs nothing. -/
theorem Interval.growth_bounds (i : Interval) (hburned : 0 < i.burned) :
    ((i.score * growth i.burned i.seconds : ℕ) : ℚ) ≤
        REWARD_PRECISION * ideal ([i].filter (0 < ·.seconds)) ∧
      REWARD_PRECISION * ideal ([i].filter (0 < ·.seconds)) ≤
        ((i.score * growth i.burned i.seconds : ℕ) : ℚ) +
          REWARD_PRECISION * indexDust ([i].filter (0 < ·.seconds)) := by
  have hprecision : (REWARD_PRECISION : ℚ) ≠ 0 := by
    exact_mod_cast rewardPrecision_pos.ne'
  by_cases hlong : 0 < i.seconds
  · have hkept : [i].filter (0 < ·.seconds) = [i] := by simp [hlong]
    have hshare : ideal [i] = i.share := List.sum_singleton
    have hdust : (REWARD_PRECISION : ℚ) * indexDust [i] = i.score := by
      unfold indexDust
      rw [List.map_singleton, List.sum_singleton, mul_div_cancel₀ _ hprecision]
    rw [hkept, hshare, hdust]
    exact share_bounds hburned REWARD_PRECISION (MINT_PER_SECOND * i.seconds) i.score
  · have hdropped : [i].filter (0 < ·.seconds) = [] := by simp [hlong]
    have hnone : growth i.burned i.seconds = 0 := by
      unfold growth
      rw [Nat.eq_zero_of_not_pos hlong, Nat.mul_zero, Nat.zero_mul, Nat.zero_div]
    rw [hdropped, hnone]
    simp [ideal, indexDust]

/-! ## The refinement along a run -/

/-- Since the last accrual, earnings have grown by the open interval. -/
theorem earnedAt_of_fresh {s : State} (hinv : Inv s) (howner : s.owner = 0)
    (now : ℕ) (a : Address) :
    s.earnedAt now a = s.earnedAt s.lastMintTime a +
      s.burnScore a * growth s.totalBurned (now - s.lastMintTime) := by
  unfold earnedAt
  rw [claimAt_of_index hinv (indexAt_fresh howner rfl now), Nat.add_assoc]

structure Refines (a : Address) (past : List TokenStep) (t : ℕ) (s : State) :
    Prop where
  good : Good t s
  owner : s.owner = 0
  lower : (s.earnedAt s.lastMintTime a : ℚ) ≤
    REWARD_PRECISION * ideal (closedIntervals a past)
  upper : REWARD_PRECISION * ideal (closedIntervals a past) ≤
    s.earnedAt s.lastMintTime a +
      REWARD_PRECISION * (indexDust (closedIntervals a past) + s.mints a)

namespace Refines

variable {a : Address} {past : List TokenStep} {t t₀ now : ℕ} {s s' : State}
  {tx : Tx}

theorem start (h : Start t₀ s) (a : Address) : Refines a [] t₀ s := by
  have hclaimed : s.claimed a = 0 := tally_quiet (special_amountClaimed a) h.quiet
  have hearned : s.earnedAt s.lastMintTime a = 0 := by
    unfold earnedAt
    rw [hclaimed, claimAt_of_idle (h.idle a)]
    rfl
  have hmints : (0 : ℚ) ≤ s.mints a := Nat.cast_nonneg _
  have hprecision : (0 : ℚ) ≤ REWARD_PRECISION := Nat.cast_nonneg _
  refine ⟨h.good, h.owner, ?_, ?_⟩
  · rw [hearned]
    simp [ideal, closedIntervals]
  · rw [hearned]
    simp only [ideal, indexDust, closedIntervals, List.map_nil, List.filter_nil,
      List.sum_nil, zero_add, mul_zero, Nat.cast_zero]
    exact mul_nonneg hprecision hmints

theorem next {evm : Evm} (h : Refines a past t s) (ht : t ≤ tx.now)
    (hnext : Next evm s tx s') : Refines a (past ++ [⟨s, tx, s'⟩]) tx.now s' := by
  have hg := h.good.later ht
  have he := step_effect hg hnext
  -- an approval keeps the clock of the last accrual, any other call sets it
  have hmints : Mints s'.lastMintTime a s s' := by
    cases hcall : tx.call.isApproval with
    | true => exact .reapproves (he.of_approval hcall) _ a
    | false =>
        rw [he.accrues hg.inv h.owner hcall]
        exact he.mints h.owner a
  obtain ⟨hlo, hhi⟩ := (intervalOf a ⟨s, tx, s'⟩).growth_bounds hg.inv.totalBurned_pos
  have hdown := hmints.down
  have hup := hmints.up
  rw [earnedAt_of_fresh hg.inv h.owner] at hdown hup
  have hdown' : (s'.earnedAt s'.lastMintTime a : ℚ) ≤
      s.earnedAt s.lastMintTime a +
        ((s.burnScore a * growth s.totalBurned
          (s'.lastMintTime - s.lastMintTime) : ℕ) : ℚ) := by
    exact_mod_cast hdown
  have hup' : (s.earnedAt s.lastMintTime a : ℚ) +
      ((s.burnScore a * growth s.totalBurned
        (s'.lastMintTime - s.lastMintTime) : ℕ) : ℚ) +
          REWARD_PRECISION * s.mints a ≤
      s'.earnedAt s'.lastMintTime a + REWARD_PRECISION * s'.mints a := by
    exact_mod_cast hup
  have hlower := h.lower
  have hupper := h.upper
  refine ⟨h.good.next ht hnext, (he.frozen h.owner).1, ?_, ?_⟩
  · rw [closedIntervals_snoc, ideal_append, mul_add]
    exact hdown'.trans (add_le_add hlower hlo)
  · rw [closedIntervals_snoc, ideal_append, indexDust_append]
    simp only [mul_add] at hupper ⊢
    change _ ≤ ((s.burnScore a * growth s.totalBurned
      (s'.lastMintTime - s.lastMintTime) : ℕ) : ℚ) + _ at hhi
    linarith

/-- The refinement read off at `now`, still at the scale of the index. -/
theorem readout (h : Refines a past t s) (now : ℕ) :
    (s.earnedAt now a : ℚ) ≤ REWARD_PRECISION * ideal (intervals a past s now) ∧
    REWARD_PRECISION * ideal (intervals a past s now) ≤
      s.earnedAt now a +
        REWARD_PRECISION * (indexDust (intervals a past s now) + s.mints a) := by
  have hfresh : (s.earnedAt now a : ℚ) = s.earnedAt s.lastMintTime a +
      ((s.burnScore a * growth s.totalBurned (now - s.lastMintTime) : ℕ) : ℚ) := by
    exact_mod_cast earnedAt_of_fresh h.good.inv h.owner now a
  have hlower := h.lower
  have hupper := h.upper
  obtain ⟨hlo, hhi⟩ :=
    (openInterval a s now).growth_bounds h.good.inv.totalBurned_pos
  unfold intervals
  rw [ideal_append, indexDust_append, hfresh]
  constructor
  · rw [mul_add]
    exact add_le_add hlower hlo
  · simp only [mul_add] at hupper ⊢
    change _ ≤ ((s.burnScore a * growth s.totalBurned
      (now - s.lastMintTime) : ℕ) : ℚ) + _ at hhi
    linarith

end Refines

/-- **Pro-rata rewards.** -/
theorem rewards_pro_rata {evm : Evm} {t₀ t now : ℕ} {s₀ s : State}
    {steps : List TokenStep} (h₀ : Launched evm t₀ s₀)
    (hrun : TokenRun evm t₀ s₀ steps t s) (ht : t ≤ now) (a : Address) :
    (∀ rewards, s.userRewards now a = .ok rewards →
      let earned : ℚ := ((s.claimed a + rewards : ℕ) : ℚ)
      earned ≤ ideal (intervals a steps s now) ∧
      ideal (intervals a steps s now) - earned ≤
        indexDust (intervals a steps s now) + s.mints a + 1) ∧
    (now < 2 ^ 64 → ∃ rewards, s.userRewards now a = .ok rewards) := by
  have h : Refines a steps t s :=
    hrun.history (fun h ht hnext => h.next ht hnext) (Refines.start h₀.start a)
  constructor
  · intro rewards hrewards
    obtain ⟨hlo, hhi⟩ := h.readout now
    have hpaid : whole REWARD_PRECISION (s.claimAt now a) =
        REWARD_PRECISION * rewards := by
      rw [userRewards_eq hrewards]
      rfl
    have hdown := whole_le REWARD_PRECISION (s.claimAt now a)
    have hlost := le_whole_add rewardPrecision_pos (s.claimAt now a)
    rw [hpaid] at hdown hlost
    have hearned : REWARD_PRECISION * (s.claimed a + rewards) ≤ s.earnedAt now a := by
      unfold earnedAt
      rw [Nat.mul_add]
      exact Nat.add_le_add_left hdown _
    have hearned' : s.earnedAt now a ≤
        REWARD_PRECISION * (s.claimed a + rewards + 1) := by
      unfold earnedAt
      rw [Nat.mul_add, Nat.mul_add, Nat.add_assoc, Nat.mul_one]
      exact Nat.add_le_add_left hlost.le _
    have hprecision : (0 : ℚ) < REWARD_PRECISION := by
      exact_mod_cast rewardPrecision_pos
    dsimp only
    constructor
    · refine le_of_mul_le_mul_left (le_trans ?_ hlo) hprecision
      exact_mod_cast hearned
    · rw [sub_le_iff_le_add]
      refine le_of_mul_le_mul_left (hhi.trans ?_) hprecision
      have hcast : (s.earnedAt now a : ℚ) ≤
          REWARD_PRECISION * (((s.claimed a + rewards : ℕ) : ℚ) + 1) := by
        exact_mod_cast hearned'
      linarith
  · intro hnow
    exact ⟨_, (h.good.fits ht hnow).userRewards a⟩

/-- What account `2` has earned at time 400 of the sample history. -/
theorem sample_pro_rata :
    ∃ steps : List TokenStep, steps.map Step.label = tradingTxs ∧
      let earned : ℚ :=
        (((sampleState sampleTxs).claimed 2 + 1902587519025875186434 : ℕ) : ℚ)
      let spans := intervals 2 steps (sampleState sampleTxs) 400
      earned ≤ ideal spans ∧
        ideal spans - earned ≤ indexDust spans + (sampleState sampleTxs).mints 2 + 1 := by
  obtain ⟨steps, hrun, hlabels⟩ := sampleState_more
    (by decide +kernel : (sampleRun (launchTxs ++ tradingTxs)).isOk = true)
    (by decide) (by decide : (100 :: tradingTxs.map Tx.now).getLast? = some 300)
  have hrewards : (sampleState sampleTxs).userRewards 400 2 =
      .ok 1902587519025875186434 := by decide +kernel
  refine ⟨steps, hlabels, ?_⟩
  exact (rewards_pro_rata launchTxs_launched hrun (by decide : 300 ≤ 400) 2).1 _
    hrewards

end CyberCash
