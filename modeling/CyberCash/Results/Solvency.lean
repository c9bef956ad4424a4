import CyberCash.Semantics.Totality

/-!
# Solvency

Every displayed token is covered by the displayed supply, and the machinery
that computes both never panics. The two are sides of the same invariant: all
unsettled claims together, at the fine scale, are at most the backed reserve.
-/

namespace CyberCash

open Solidity Function State TimedRun

/-! ## The displayed balances are covered -/

theorem Inv.sum_balanceAt_le {s : State} (h : Inv s) (now : ℕ)
    (A : Finset Address) : ∑ a ∈ A, s.balanceAt now a ≤ s.supplyAt now := by
  have hheld : ∑ a ∈ A, s._balances a ≤ s._totalSupply := by
    rw [← h.sum]
    exact Finset.sum_le_sum_of_subset (Finset.subset_univ A)
  have howed : ∑ a ∈ A, s.rewardsAt now a ≤ s.pendingMints + s.accrued now :=
    (h.soundAt now).sum_pending_le rewardPrecision_pos A
  calc ∑ a ∈ A, s.balanceAt now a
      = ∑ a ∈ A, s._balances a + ∑ a ∈ A, s.rewardsAt now a :=
        Finset.sum_add_distrib
    _ ≤ s._totalSupply + (s.pendingMints + s.accrued now) :=
        Nat.add_le_add hheld howed
    _ = s.supplyAt now := (Nat.add_assoc _ _ _).symm

/-- **Solvency of the displayed balances.** In every reachable state and at
every later time, the balances that any set of accounts is shown sum to at most
the total supply that is shown. At 64-bit timestamps all of them are shown. -/
theorem displayed_balances_le_totalSupply {evm : Evm} {t now : ℕ} {s : State}
    (hs : Reachable evm t s) (ht : t ≤ now) (A : Finset Address) :
    (∀ (balance : Address → ℕ) (supply : ℕ),
      (∀ a ∈ A, s.balanceOf now a = .ok (balance a)) →
      s.totalSupply now = .ok supply → ∑ a ∈ A, balance a ≤ supply) ∧
    (now < 2 ^ 64 → (∀ a, ∃ x, s.balanceOf now a = .ok x) ∧
      ∃ x, s.totalSupply now = .ok x) := by
  have hg := hs.good
  constructor
  · intro balance supply hbalance hsupply
    rw [totalSupply_eq hsupply]
    calc ∑ a ∈ A, balance a
        = ∑ a ∈ A, s.balanceAt now a :=
          Finset.sum_congr rfl fun a ha => balanceOf_eq (hbalance a ha)
      _ ≤ s.supplyAt now := hg.inv.sum_balanceAt_le now A
  · intro hnow
    have hfits := hg.fits ht hnow
    exact ⟨fun a => ⟨_, hfits.balanceOf a⟩, _, hfits.totalSupply⟩

/-! A short history: the owner `1` funds account `2` and the pool, launches the
token, and `2` trades with `3` and gives away some of the score it earned. -/

/-- A machine on which no signature is valid. -/
def sampleEvm : Evm := ⟨fun _ => 0, fun _ _ _ _ => 0, 0⟩

def ownerMsg (now : ℕ) : Msg := ⟨1, by decide, now⟩

def traderMsg (now : ℕ) : Msg := ⟨2, by decide, now⟩

def friendMsg (now : ℕ) : Msg := ⟨3, by decide, now⟩

def fundingTxs : List Tx :=
  [ ⟨ownerMsg 10, .transfer 2 1000000000000000000000000#256⟩
  , ⟨ownerMsg 50, .transfer 100 5000000000000000000000#256⟩ ]

def launchTx : Tx := ⟨ownerMsg 100, .initialise 100 101⟩

def launchTxs : List Tx := fundingTxs ++ [launchTx]

def tradeTx : Tx := ⟨traderMsg 200, .transfer 3 100000000000000000000#256⟩

def giftTx : Tx :=
  ⟨traderMsg 300, .transferBurnScore 3 200000000000000000#256⟩

def tradingTxs : List Tx := [tradeTx, giftTx]

def sampleTxs : List Tx := launchTxs ++ tradingTxs

def sampleRun (txs : List Tx) : Result State := do
  let g ← State.constructor 0 1
  execute sampleEvm g txs

/-- The state a history ends in. -/
def sampleState (txs : List Tx) : State := (sampleRun txs).toOption.getD blank

theorem sampleRun_eq {txs : List Tx} (h : (sampleRun txs).isOk = true) :
    sampleRun txs = .ok (sampleState txs) := by
  obtain ⟨s, hs⟩ := exists_of_isOk h
  unfold sampleState
  rw [hs]
  rfl

/-- A history that does not revert is a run. -/
theorem sampleState_run {txs : List Tx} {t : ℕ} (h : (sampleRun txs).isOk = true)
    (hclock : (0 :: txs.map Tx.now).IsChain (· ≤ ·))
    (hlast : (0 :: txs.map Tx.now).getLast? = some t) :
    ∃ g steps, State.constructor 0 1 = .ok g ∧
      TokenRun sampleEvm 0 g steps t (sampleState txs) ∧
      steps.map Step.label = txs := by
  obtain ⟨g, hg, hexecute⟩ := bind_eq_ok.mp (sampleRun_eq h)
  obtain ⟨steps, t', hrun, hlabels, hlast'⟩ := exists_run_of_execute hexecute hclock
  rw [hlast] at hlast'
  obtain rfl := Option.some.inj hlast'
  exact ⟨g, steps, hg, hrun, hlabels⟩

theorem sampleState_execute {txs more : List Tx}
    (h : (sampleRun (txs ++ more)).isOk = true) :
    execute sampleEvm (sampleState txs) more = .ok (sampleState (txs ++ more)) := by
  obtain ⟨g, hg, hexecute⟩ := bind_eq_ok.mp (sampleRun_eq h)
  obtain ⟨s, htxs, hmore⟩ := execute_append_eq_ok.mp hexecute
  have hrun : sampleRun txs = .ok s := bind_eq_ok.mpr ⟨g, hg, htxs⟩
  have hstate : sampleState txs = s := by
    unfold sampleState
    rw [hrun]
    rfl
  rw [hstate]
  exact hmore

/-- And so is each continuation of it. -/
theorem sampleState_more {txs more : List Tx} {t t' : ℕ}
    (h : (sampleRun (txs ++ more)).isOk = true)
    (hclock : (t :: more.map Tx.now).IsChain (· ≤ ·))
    (hlast : (t :: more.map Tx.now).getLast? = some t') :
    ∃ steps, TokenRun sampleEvm t (sampleState txs) steps t'
      (sampleState (txs ++ more)) ∧ steps.map Step.label = more := by
  obtain ⟨steps, t'', hrun, hlabels, hlast'⟩ :=
    exists_run_of_execute (sampleState_execute h) hclock
  rw [hlast] at hlast'
  obtain rfl := Option.some.inj hlast'
  exact ⟨steps, hrun, hlabels⟩

/-- The state right after the launch of the sample history. -/
theorem launchTxs_launched : Launched sampleEvm 100 (sampleState launchTxs) := by
  obtain ⟨g, steps, hg, hrun, -⟩ := sampleState_run
    (by decide +kernel : (sampleRun fundingTxs).isOk = true) (by decide)
    (by decide : (0 :: fundingTxs.map Tx.now).getLast? = some 50)
  obtain ⟨s, hstep, hrest⟩ := execute_cons_eq_ok.mp (sampleState_execute
    (by decide +kernel : (sampleRun (fundingTxs ++ [launchTx])).isOk = true))
  obtain rfl := Except.ok.inj hrest
  exact ⟨50, _, launchTx, ⟨0, 1, g, steps, hg, hrun⟩, by decide, rfl, hstep, rfl⟩

theorem sampleState_reachable {txs : List Tx} {t : ℕ}
    (h : (sampleRun txs).isOk = true)
    (hclock : (0 :: txs.map Tx.now).IsChain (· ≤ ·))
    (hlast : (0 :: txs.map Tx.now).getLast? = some t) :
    Reachable sampleEvm t (sampleState txs) := by
  obtain ⟨g, steps, hg, hrun, -⟩ := sampleState_run h hclock hlast
  exact ⟨0, 1, g, steps, hg, hrun⟩

theorem sampleTxs_reachable : Reachable sampleEvm 300 (sampleState sampleTxs) :=
  sampleState_reachable (by decide +kernel) (by decide) (by decide)

/-- At time 400 the two traders and the pool are covered. -/
theorem sample_balances_covered :
    (sampleState sampleTxs).balanceOf 400 2 = .ok 1004973566717402333830492 ∧
    (sampleState sampleTxs).balanceOf 400 3 = .ok 1367891679350583457623 ∧
    (sampleState sampleTxs).totalSupply 400 =
      .ok 10000009512237595129375951200 ∧
    1004973566717402333830492 + 1367891679350583457623 ≤
      10000009512237595129375951200 := by
  have htwo : (sampleState sampleTxs).balanceOf 400 2 =
      .ok 1004973566717402333830492 := by decide +kernel
  have hthree : (sampleState sampleTxs).balanceOf 400 3 =
      .ok 1367891679350583457623 := by decide +kernel
  have hsupply : (sampleState sampleTxs).totalSupply 400 =
      .ok 10000009512237595129375951200 := by decide +kernel
  have hcovered := (displayed_balances_le_totalSupply sampleTxs_reachable
    (by decide : 300 ≤ 400) {2, 3}).1
      (fun a => if a = 2 then 1004973566717402333830492
        else 1367891679350583457623) _ ?_ hsupply
  · rw [Finset.sum_pair (by decide)] at hcovered
    exact ⟨htwo, hthree, hsupply, hcovered⟩
  · intro a ha
    rcases Finset.mem_insert.mp ha with rfl | ha
    · exact htwo
    · rw [Finset.mem_singleton] at ha
      subst ha
      exact hthree

/-! ## The accrual machinery does not panic -/

/-- **No arithmetic panic.** At any 64-bit timestamp from the last accrual on,
every view returns and so does a claim by any account but the zero address. The
two operations that a crude bound would not save are spelled out: the claim at
the scale of the index fits a word, and paying it does not underflow the
pending mints. -/
theorem accrual_never_panics {evm : Evm} {t now : ℕ} {s : State}
    (hs : Reachable evm t s) (hclock : s.lastMintTime ≤ now)
    (hnow : now < 2 ^ 64) (a : Address) :
    s.userRewardsPerTokenBurned a ≤ s.rewardsPerTokenBurned ∧
    1 ≤ s.totalBurned ∧
    (∃ addedRewards rewards,
      s.totalRewards now = .ok addedRewards ∧
      s.userRewards now a = .ok rewards ∧
      rewards ≤ s.pendingMints + addedRewards ∧
      s.burnScore a * (s.rewardsPerTokenBurned +
        addedRewards * REWARD_PRECISION / s.totalBurned -
          s.userRewardsPerTokenBurned a) < 2 ^ 256) ∧
    (∃ x, s.balanceOf now a = .ok x) ∧
    (∃ x, s.totalSupply now = .ok x) ∧
    (a ≠ 0 → ∃ s', s.mintRewards now a = .ok s') := by
  have hinv := hs.good.inv
  have hfits := hinv.fits hclock hnow
  refine ⟨hinv.rewards.behind a, hinv.totalBurned_pos, ?_, ?_, ?_, ?_⟩
  · exact ⟨_, _, hfits.totalRewards, hfits.userRewards a, hinv.rewardsAt_le now a,
      hfits.claim a⟩
  · exact ⟨_, hfits.balanceOf a⟩
  · exact ⟨_, hfits.totalSupply⟩
  · intro ha
    exact ⟨_, mintRewards_ok hinv hclock hnow ha⟩

/-- A claim of account `2` a century after the last accrual, when almost
nothing has been burned. -/
theorem sample_late_claim :
    ∃ s', (sampleState sampleTxs).mintRewards (300 + 3153600000) 2 = .ok s' :=
  (accrual_never_panics sampleTxs_reachable
    (by decide +kernel : (sampleState sampleTxs).lastMintTime ≤ 300 + 3153600000)
    (by decide) 2).2.2.2.2.2 (by decide)

end CyberCash
