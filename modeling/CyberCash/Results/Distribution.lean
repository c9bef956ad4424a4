import CyberCash.Results.ProRata

/-!
# All inflation is distributed

The counterpart of solvency. What is created and owed to no account is dust,
and the share of the one unit that `totalBurned` starts with: nobody holds it,
so what accrues to it is never minted. Before the first burn it is the only
unit there is and takes everything.
-/

namespace CyberCash

open Solidity Function State TimedRun LazyIndex

/-! ## Counting -/

def Event.isClaim : Event → ℕ
  | .rewardsClaimed _ _ => 1
  | _ => 0

theorem special_isClaim : Special Event.isClaim := by
  intro e he
  cases e with
  | rewardsClaimed user amount => exact Bool.noConfusion he
  | _ => rfl

namespace State

/-- How often `mintRewards` was executed, for whomever. -/
def mintCount (s : State) : ℕ := s.tally Event.isClaim

/-- Accounts with burn score. -/
noncomputable def holders (s : State) : Finset Address :=
  Finset.univ.filter fun a => s.burnScore a ≠ 0

end State

/-- From the accrual before a step to the one it makes, as the unit of
`totalBurned` sees it that no account holds. -/
def accrualOf (st : TokenStep) : Interval :=
  ⟨st.post.lastMintTime - st.pre.lastMintTime, 1, st.pre.totalBurned⟩

def closedAccruals (steps : List TokenStep) : List Interval :=
  (steps.map accrualOf).filter (0 < ·.seconds)

/-- The accrual intervals of a run that is now in `s`, the last one ending
now. -/
def accruals (steps : List TokenStep) (s : State) (now : ℕ) : List Interval :=
  closedAccruals steps ++
    [⟨now - s.lastMintTime, 1, s.totalBurned⟩].filter (0 < ·.seconds)

/-- The sum of the divisors: what the divisions of the index can lose. -/
def divisorSum (is : List Interval) : ℕ := (is.map Interval.burned).sum

theorem closedAccruals_snoc (steps : List TokenStep) (st : TokenStep) :
    closedAccruals (steps ++ [st]) =
      closedAccruals steps ++ [accrualOf st].filter (0 < ·.seconds) := by
  unfold closedAccruals
  rw [List.map_append, List.filter_append, List.map_singleton]

theorem divisorSum_append (is js : List Interval) :
    divisorSum (is ++ js) = divisorSum is + divisorSum js := by
  unfold divisorSum
  rw [List.map_append, List.sum_append]

/-- In whole tokens. -/
theorem divisorSum_le (is : List Interval) :
    divisorSum is ≤
      REWARD_PRECISION * (is.map fun i => i.burned / REWARD_PRECISION + 1).sum := by
  induction is with
  | nil => exact Nat.zero_le _
  | cons i is ih =>
      have hhead : i.burned ≤ REWARD_PRECISION * (i.burned / REWARD_PRECISION + 1) :=
        (Nat.lt_mul_div_succ _ rewardPrecision_pos).le
      unfold divisorSum at ih ⊢
      rw [List.map_cons, List.map_cons, List.sum_cons, List.sum_cons, Nat.mul_add]
      exact Nat.add_le_add hhead ih

/-! ## The ledger under the effects -/

section Effects

variable {s s' : State} {now x n dust : ℕ} {a src dst : Address}

/-- The ledger is shared up to `dust` and the rounding of the claims so far. -/
def Distributes (dust : ℕ) (s : State) (l : Ledger Address) : Prop :=
  l.Shared REWARD_PRECISION (dust + REWARD_PRECISION * s.mintCount)

theorem Distributes.settle (h : Inv s)
    (hd : Distributes dust s (s.ledgerAt now)) (a : Address) :
    Distributes dust (s.settle now a) (s.settle now a).ledger := by
  have hcount : (s.settle now a).mintCount = s.mintCount + 1 :=
    tally_settle special_isClaim s now a
  unfold Distributes
  rw [hcount, Nat.mul_succ, ← Nat.add_assoc, ledger_settle]
  exact Ledger.Shared.settle (h.soundAt now) hd rewardPrecision_pos a

theorem Distributes.pay (hd : Distributes dust s s.ledger) (src dst : Address)
    (x : ℕ) : Distributes dust (s.pay src dst x) (s.pay src dst x).ledger := by
  have hcount : (s.pay src dst x).mintCount = s.mintCount :=
    tally_pay special_isClaim
  unfold Distributes
  rw [hcount]
  exact hd

theorem Distributes.levy (hd : Distributes dust s s.ledger)
    (hsettled : s.userRewardsPerTokenBurned src = s.rewardsPerTokenBurned)
    (x : ℕ) : Distributes dust (s.levy src x) (s.levy src x).ledger := by
  have hcount : (s.levy src x).mintCount = s.mintCount :=
    tally_levy special_isClaim
  unfold Distributes
  rw [hcount, ledger_levy]
  exact Ledger.Shared.grow hd (taxOf x) hsettled

theorem Distributes.send (h : Inv s) (hpool : s.liquidityPool ≠ 0)
    (hd : Distributes dust s (s.ledgerAt now)) (src dst : Address) (x : ℕ) :
    Distributes dust (s.send now src dst x) (s.send now src dst x).ledger := by
  have hsettled := hd.settle h src
  rcases s.send_cases now src dst x with
    ⟨hnone, -, -⟩ | ⟨-, -, hsend⟩ | ⟨-, -, hsend⟩
  · exact absurd hnone hpool
  · rw [hsend]
    exact (hsettled.levy (settle_settled s now src) x).pay src dst _
  · rw [hsend]
    exact hsettled.pay src dst x

theorem Distributes.moveScore (h : Inv s) (hclock : s.lastMintTime ≤ now)
    (hd : Distributes dust s (s.ledgerAt now)) (src dst : Address) (n : ℕ) :
    Distributes dust (s.moveScore now src dst n)
      (s.moveScore now src dst n).ledger := by
  have hfirst : Distributes dust (s.settle now src)
      ((s.settle now src).ledgerAt now) := by
    rw [ledgerAt_self (settle_lastMintTime s now src)]
    exact hd.settle h src
  have hboth := hfirst.settle (h.settle hclock src) dst
  have hcount : (s.moveScore now src dst n).mintCount =
      ((s.settle now src).settle now dst).mintCount := tally_moveScore _ s
  unfold Distributes at hboth ⊢
  rw [hcount, ledger_moveScore]
  exact Ledger.Shared.shift hboth n (settle_settle_settled s now src dst)
    (settle_settled (s.settle now src) now dst)

theorem Distributes.reapproves (h : s.Reapproves s') {l : Ledger Address}
    (hd : Distributes dust s l) : Distributes dust s' l := by
  have hcount : s'.mintCount = s.mintCount := tally_reapproves special_isClaim h
  unfold Distributes
  rw [hcount]
  exact hd

theorem ledgerAt_reapproves (h : s.Reapproves s') (now : ℕ) :
    s'.ledgerAt now = s.ledgerAt now := by
  obtain ⟨_, _, _, rfl, -⟩ := h
  rfl

end Effects

/-- A call that accrues shares out the ledger it has brought up to its time. -/
theorem Effect.distributes {s s' : State} {tx : Tx} {dust : ℕ}
    (he : Effect s tx s') (hg : Good tx.now s) (howner : s.owner = 0)
    (hcall : tx.call.isApproval = false)
    (hd : Distributes dust s (s.ledgerAt tx.now)) :
    Distributes dust s' s'.ledger := by
  cases he with
  | launch _ hsender => exact absurd (hsender.trans howner) tx.msg.sender_ne_zero
  | reapprove happroval =>
      rw [happroval] at hcall
      exact Bool.noConfusion hcall
  | send =>
      have hs := s.charge_reapproves tx
      have hpool : (s.charge tx).liquidityPool ≠ 0 :=
        hs.liquidityPool ▸ hg.inv.phase.mp howner
      rw [← ledgerAt_reapproves hs] at hd
      exact (hd.reapproves hs).send (hg.charge tx).inv hpool _ _ _
  | moveScore => exact hd.moveScore hg.inv hg.clock _ _ _

/-! ## Along a run -/

/-- The simulated accrual up to `now` adds the divisor to the dust, if any time
has passed. -/
theorem Distributes.accrue {s : State} {dust now : ℕ} (hinv : Inv s)
    (howner : s.owner = 0) (hd : Distributes dust s s.ledger) :
    Distributes (dust + divisorSum ([⟨now - s.lastMintTime, 1,
      s.totalBurned⟩].filter (0 < ·.seconds))) s (s.ledgerAt now) := by
  have hdust : divisorSum ([⟨now - s.lastMintTime, 1, s.totalBurned⟩].filter
      (0 < ·.seconds)) = if s.accrued now = 0 then 0 else s.totalBurned := by
    have hmint : 0 < MINT_PER_SECOND := by decide +kernel
    rw [accrued_of_launched howner]
    by_cases hlong : 0 < now - s.lastMintTime
    · rw [if_neg (Nat.mul_pos hmint hlong).ne']
      simp [divisorSum, hlong]
    · rw [Nat.eq_zero_of_not_pos hlong, Nat.mul_zero, if_pos rfl]
      rfl
  have hshared := Ledger.Shared.accrue hinv.rewards hd (s.accrued now)
  unfold Distributes
  rw [hdust, Nat.add_right_comm]
  exact hshared

/-- What a run since the launch has handed out. -/
structure Distributed (past : List TokenStep) (t : ℕ) (s : State) : Prop where
  good : Good t s
  owner : s.owner = 0
  shared : Distributes (divisorSum (closedAccruals past)) s s.ledger
  index : (s.rewardsPerTokenBurned : ℚ) ≤
    REWARD_PRECISION * ideal (closedAccruals past)

namespace Distributed

variable {past : List TokenStep} {t t₀ now : ℕ} {s s' : State} {tx : Tx}

theorem start {evm : Evm} (h : Launched evm t₀ s) : Distributed [] t₀ s := by
  have hstart := h.start
  have hcount : s.mintCount = 0 := tally_quiet special_isClaim hstart.quiet
  have hclaims : ∑ a, s.ledger.claim a = 0 := by
    apply Finset.sum_eq_zero
    intro a _
    show s.burnScore a * _ = 0
    rw [hstart.idle a, Nat.zero_mul]
  have hindex : s.ledger.index = 0 := h.index_zero
  have hreserve : s.ledger.reserve = 0 := hstart.pending
  refine ⟨hstart.good, hstart.owner, ⟨?_, ?_⟩, ?_⟩
  · rw [hclaims, hindex, hreserve]
    exact Nat.zero_le _
  · rw [hreserve]
    exact Nat.zero_le _
  · rw [h.index_zero]
    simp [closedAccruals, ideal]

/-- The index at `now`, against what it gives the unit nobody holds. -/
theorem index_le (h : Distributed past t s) (now : ℕ) :
    (s.indexAt now : ℚ) ≤ REWARD_PRECISION * ideal (accruals past s now) := by
  have hfresh : s.indexAt now =
      s.rewardsPerTokenBurned + 1 * growth s.totalBurned (now - s.lastMintTime) := by
    rw [indexAt_fresh h.owner rfl now, indexAt_self rfl, Nat.one_mul]
  obtain ⟨hgrowth, -⟩ := Interval.growth_bounds
    ⟨now - s.lastMintTime, 1, s.totalBurned⟩ h.good.inv.totalBurned_pos
  unfold accruals
  rw [hfresh, ideal_append, mul_add, Nat.cast_add]
  exact add_le_add h.index hgrowth

theorem next {evm : Evm} (h : Distributed past t s) (ht : t ≤ tx.now)
    (hnext : Next evm s tx s') :
    Distributed (past ++ [⟨s, tx, s'⟩]) tx.now s' := by
  have hg := h.good.later ht
  have he := step_effect hg hnext
  have hgood := h.good.next ht hnext
  have howner := (he.frozen h.owner).1
  cases hcall : tx.call.isApproval with
  | true =>
      have hs := he.of_approval hcall
      -- an approval closes no interval
      have hnone : closedAccruals (past ++ [⟨s, tx, s'⟩]) = closedAccruals past := by
        have hclock : s'.lastMintTime = s.lastMintTime := by
          obtain ⟨_, _, _, rfl, -⟩ := hs
          rfl
        rw [closedAccruals_snoc]
        simp [accrualOf, hclock]
      have hledger : s'.ledger = s.ledger := by
        obtain ⟨_, _, _, rfl, -⟩ := hs
        rfl
      refine ⟨hgood, howner, ?_, ?_⟩
      · rw [hnone, hledger]
        exact h.shared.reapproves hs
      · have hindex : s'.rewardsPerTokenBurned = s.rewardsPerTokenBurned :=
          congrArg Ledger.index hledger
        rw [hnone, hindex]
        exact h.index
  | false =>
      have hclock := he.accrues hg.inv h.owner hcall
      have hclosed : closedAccruals (past ++ [⟨s, tx, s'⟩]) =
          accruals past s tx.now := by
        rw [closedAccruals_snoc, accrualOf, hclock]
        rfl
      refine ⟨hgood, howner, ?_, ?_⟩
      · rw [hclosed, accruals, divisorSum_append]
        exact he.distributes hg h.owner hcall (h.shared.accrue hg.inv h.owner)
      · rw [hclosed, he.index hg.inv h.owner hcall]
        exact h.index_le tx.now

/-- **Read off at `now`**, at the fine scale: the gap between the supply and the
balances is what the unit nobody holds has earned, up to dust. -/
theorem readout (h : Distributed past t s) (now : ℕ) :
    REWARD_PRECISION * ∑ a, s.balanceAt now a + s.indexAt now ≤
        REWARD_PRECISION * s.supplyAt now ∧
      REWARD_PRECISION * s.supplyAt now ≤
        REWARD_PRECISION * (∑ a, s.balanceAt now a + s.holders.card + s.mintCount) +
          divisorSum (accruals past s now) + s.indexAt now := by
  have hshared : Distributes (divisorSum (accruals past s now)) s (s.ledgerAt now) := by
    rw [accruals, divisorSum_append]
    exact h.shared.accrue h.good.inv h.owner
  obtain ⟨hcovered, hcomplete⟩ := hshared
  have hreserve : (s.ledgerAt now).reserve = s.pendingMints + s.accrued now := rfl
  have hindex : (s.ledgerAt now).index = s.indexAt now := rfl
  have hheld : ∑ a, s.balanceAt now a = s._totalSupply + ∑ a, s.rewardsAt now a := by
    rw [← h.good.inv.sum]
    exact Finset.sum_add_distrib
  have hpaid : REWARD_PRECISION * ∑ a, s.rewardsAt now a ≤
      ∑ a, (s.ledgerAt now).claim a := by
    rw [Finset.mul_sum]
    exact Finset.sum_le_sum fun a _ => Nat.mul_div_le _ _
  have hrounded : ∑ a, (s.ledgerAt now).claim a ≤
      REWARD_PRECISION * (∑ a, s.rewardsAt now a + s.holders.card) :=
    Ledger.sum_claim_le rewardPrecision_pos (s.ledgerAt now)
  rw [hreserve, hindex] at hcovered hcomplete
  rw [hheld]
  unfold supplyAt
  simp only [Nat.mul_add] at hcovered hcomplete hrounded ⊢
  constructor <;> omega

end Distributed

/-- **All inflation is distributed**, but for dust and the share of the unit
that `totalBurned` starts with: `accruals` are the intervals as that unit sees
them, with score one, and `ideal` adds up its exact shares
`MINT_PER_SECOND * seconds / totalBurned`. -/
theorem inflation_distributed {evm : Evm} {t₀ t now : ℕ} {s₀ s : State}
    {steps : List TokenStep} (h₀ : Launched evm t₀ s₀)
    (hrun : TokenRun evm t₀ s₀ steps t s) (ht : t ≤ now) :
    (∀ (supply : ℕ) (balance : Address → ℕ), s.totalSupply now = .ok supply →
      (∀ a, s.balanceOf now a = .ok (balance a)) →
      (supply : ℚ) - ((∑ a, balance a : ℕ) : ℚ) ≤
        s.mintCount + s.holders.card + 1 +
          (((accruals steps s now).map fun i =>
            i.burned / REWARD_PRECISION + 1).sum : ℕ) +
          ideal (accruals steps s now)) ∧
    (now < 2 ^ 64 → (∃ supply, s.totalSupply now = .ok supply) ∧
      ∀ a, ∃ x, s.balanceOf now a = .ok x) := by
  have h : Distributed steps t s :=
    hrun.history (fun h ht hnext => h.next ht hnext) (Distributed.start h₀)
  constructor
  · intro supply balance hsupply hbalance
    have hshown : ∑ a, balance a = ∑ a, s.balanceAt now a :=
      Finset.sum_congr rfl fun a _ => balanceOf_eq (hbalance a)
    obtain ⟨-, hgap⟩ := h.readout now
    have hdust := divisorSum_le (accruals steps s now)
    have hindex := h.index_le now
    rw [totalSupply_eq hsupply, hshown]
    have hprecision : (0 : ℚ) < REWARD_PRECISION := by
      exact_mod_cast rewardPrecision_pos
    have hgap' : (REWARD_PRECISION : ℚ) * s.supplyAt now ≤
        REWARD_PRECISION * ((∑ a, s.balanceAt now a : ℕ) + s.holders.card +
          s.mintCount) + REWARD_PRECISION * ((accruals steps s now).map fun i =>
            i.burned / REWARD_PRECISION + 1).sum + s.indexAt now := by
      exact_mod_cast hgap.trans (Nat.add_le_add_right (Nat.add_le_add_left hdust _) _)
    refine le_of_mul_le_mul_left ?_ hprecision
    linarith
  · intro hnow
    have hfits := h.good.fits ht hnow
    exact ⟨⟨_, hfits.totalSupply⟩, fun a => ⟨_, hfits.balanceOf a⟩⟩

/-- The sample history at time 400. -/
theorem sample_distribution :
    ∃ steps : List TokenStep, steps.map Step.label = tradingTxs ∧
      ((10000009512237595129375951200 : ℕ) : ℚ) -
          ((∑ a, (sampleState sampleTxs).balanceAt 400 a : ℕ) : ℚ) ≤
        (sampleState sampleTxs).mintCount + (sampleState sampleTxs).holders.card + 1 +
          (((accruals steps (sampleState sampleTxs) 400).map fun i =>
            i.burned / REWARD_PRECISION + 1).sum : ℕ) +
          ideal (accruals steps (sampleState sampleTxs) 400) := by
  obtain ⟨steps, hrun, hlabels⟩ := sampleState_more
    (by decide +kernel : (sampleRun (launchTxs ++ tradingTxs)).isOk = true)
    (by decide) (by decide : (100 :: tradingTxs.map Tx.now).getLast? = some 300)
  have hsupply : (sampleState sampleTxs).totalSupply 400 =
      .ok 10000009512237595129375951200 := by decide +kernel
  have hfits := sampleTxs_reachable.good.fits (by decide : 300 ≤ 400) (by decide)
  exact ⟨steps, hlabels, (inflation_distributed launchTxs_launched hrun
    (by decide)).1 _ _ hsupply hfits.balanceOf⟩

/-- Every holder has at least one unit of the score. -/
theorem holders_card_lt {s : State} (h : Inv s) :
    s.holders.card < s.totalBurned := by
  have htotal : s.totalBurned = 1 + ∑ a, s.burnScore a := h.rewards.total
  have hcard : s.holders.card ≤ ∑ a, s.burnScore a := by
    unfold holders
    rw [Finset.card_filter]
    apply Finset.sum_le_sum
    intro a _
    split
    · next hscore => exact Nat.pos_of_ne_zero hscore
    · exact Nat.zero_le _
  omega

/-- **The initial unit takes its share.** Without that share the bound fails:
the sample history burns for the first time a hundred seconds after its launch,
and what those seconds create is owed to nobody. -/
theorem initial_unit_is_undistributed :
    ¬ ∀ (evm : Evm) (t₀ t now : ℕ) (s₀ s : State) (steps : List TokenStep),
      Launched evm t₀ s₀ → TokenRun evm t₀ s₀ steps t s → t ≤ now →
      (∃ a, s.burnScore a ≠ 0) →
      ∀ (supply : ℕ) (balance : Address → ℕ), s.totalSupply now = .ok supply →
        (∀ a, s.balanceOf now a = .ok (balance a)) →
        supply - ∑ a, balance a ≤ s.mintCount + s.holders.card + 1 +
          ((accruals steps s now).map fun i =>
            i.burned / REWARD_PRECISION + 1).sum := by
  intro hclaim
  have hexecute := sampleState_execute
    (by decide +kernel : (sampleRun (launchTxs ++ [tradeTx])).isOk = true)
  obtain ⟨s, hstep, hrest⟩ := execute_cons_eq_ok.mp hexecute
  obtain rfl := Except.ok.inj hrest
  have hrun : TokenRun sampleEvm 100 (sampleState launchTxs)
      [⟨sampleState launchTxs, tradeTx, sampleState (launchTxs ++ [tradeTx])⟩] 200
        (sampleState (launchTxs ++ [tradeTx])) :=
    .cons (by decide) hstep .nil
  have h : Distributed [⟨sampleState launchTxs, tradeTx,
      sampleState (launchTxs ++ [tradeTx])⟩] 200 (sampleState (launchTxs ++ [tradeTx])) :=
    hrun.history (fun h ht hnext => h.next ht hnext)
      (Distributed.start launchTxs_launched)
  have hfits := h.good.fits (Nat.le_refl 200) (by decide)
  have hbound := hclaim sampleEvm 100 200 200 _ _ _ launchTxs_launched hrun
    (Nat.le_refl 200) ⟨2, by decide +kernel⟩ _ _ hfits.totalSupply hfits.balanceOf
  have hgap := (h.readout 200).1
  have hholders := holders_card_lt h.good.inv
  have hcount : (sampleState (launchTxs ++ [tradeTx])).mintCount = 1 := by
    decide +kernel
  have hintervals : ((accruals [⟨sampleState launchTxs, tradeTx,
      sampleState (launchTxs ++ [tradeTx])⟩] (sampleState (launchTxs ++ [tradeTx]))
        200).map fun i => i.burned / REWARD_PRECISION + 1).sum = 1 := by
    decide +kernel
  have hindex : REWARD_PRECISION * (sampleState (launchTxs ++ [tradeTx])).totalBurned +
      REWARD_PRECISION * 2 <
        (sampleState (launchTxs ++ [tradeTx])).indexAt 200 := by
    decide +kernel
  rw [hcount, hintervals] at hbound
  have hsmall : (sampleState (launchTxs ++ [tradeTx])).supplyAt 200 ≤
      ∑ a, (sampleState (launchTxs ++ [tradeTx])).balanceAt 200 a +
        ((sampleState (launchTxs ++ [tradeTx])).totalBurned + 2) := by omega
  have hscaled := Nat.mul_le_mul_left REWARD_PRECISION hsmall
  rw [Nat.mul_add, Nat.mul_add REWARD_PRECISION (State.totalBurned _)] at hscaled
  omega

end CyberCash
