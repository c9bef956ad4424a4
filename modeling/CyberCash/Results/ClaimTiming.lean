import CyberCash.Semantics.Timeline
import CyberCash.Results.Solvency

/-!
# Claim timing is neutral

Two runs of the same calls, the second with extra transfers of nothing, which
only claim for their caller. The extra claims split accruals and so move the
index differently for everyone; what they cost is bounded by their own
rounding, and they never favour anybody.

The relation between the runs is kept at the fine scale. Its bound is a whole
number of tokens, so it survives the rounding of every later claim.
-/

namespace CyberCash

open Solidity Function State TimedRun LazyIndex

/-- A transfer of nothing, by whomever. -/
def ClaimsOnly (tx : Tx) : Prop := ∃ _to, tx.call = .transfer _to 0

/-- What the extra claims can have cost an account. -/
def claimDust (extras : List TokenStep) (a : Address) : ℕ :=
  (extras.map fun st => st.pre.burnScore a / REWARD_PRECISION + 2).sum

theorem claimDust_snoc (extras : List TokenStep) (st : TokenStep) (a : Address) :
    claimDust (extras ++ [st]) a =
      claimDust extras a + (st.pre.burnScore a / REWARD_PRECISION + 2) := by
  unfold claimDust
  rw [List.map_append, List.sum_append, List.map_singleton, List.sum_singleton]

/-- The state of the second run against that of the first, at time `t`. -/
structure Neutral (extras : List TokenStep) (t : ℕ) (s₁ s₂ : State) : Prop where
  good₁ : Good t s₁
  good₂ : Good t s₂
  owner₁ : s₁.owner = 0
  owner₂ : s₂.owner = 0
  pool : s₂.liquidityPool = s₁.liquidityPool
  exempt : s₂.exemptedAddresses = s₁.exemptedAddresses
  score : s₂.burnScore = s₁.burnScore
  burned : s₂.totalBurned = s₁.totalBurned
  supply : s₂.supplyAt t = s₁.supplyAt t
  pooled : s₂._balances s₁.liquidityPool = s₁._balances s₁.liquidityPool
  below : ∀ now, t ≤ now → ∀ a, s₂.fineAt now a ≤ s₁.fineAt now a
  lead : ∀ now, t ≤ now → ∀ a, s₁.fineAt now a ≤
    s₂.fineAt now a + REWARD_PRECISION * claimDust extras a

namespace Neutral

variable {extras : List TokenStep} {t now : ℕ} {s₁ s₂ s₁' s₂' : State} {tx : Tx}
  {a : Address}

theorem refl {s : State} (hg : Good t s) (howner : s.owner = 0) :
    Neutral [] t s s where
  good₁ := hg
  good₂ := hg
  owner₁ := howner
  owner₂ := howner
  pool := rfl
  exempt := rfl
  score := rfl
  burned := rfl
  supply := rfl
  pooled := rfl
  below _ _ _ := Nat.le_refl _
  lead _ _ _ := Nat.le_add_right _ _

theorem supply_later (h : Neutral extras t s₁ s₂) (ht : t ≤ now) :
    s₂.supplyAt now = s₁.supplyAt now := by
  rw [supplyAt_split h.owner₁ h.good₁.clock ht,
    supplyAt_split h.owner₂ h.good₂.clock ht, h.supply]

/-! ## The two runs owe the same -/

theorem taxed_eq (h : Neutral extras t s₁ s₂) : s₂.taxed = s₁.taxed :=
  taxed_congr h.pool h.exempt

theorem poolBurn_eq (h : Neutral extras t s₁ s₂) (x : ℕ) :
    s₂.poolBurn x = s₁.poolBurn x := by
  unfold poolBurn
  rw [h.pool, h.pooled]

theorem poolDue_eq (h : Neutral extras t s₁ s₂) (tx : Tx) :
    s₂.poolDue tx = s₁.poolDue tx := by
  unfold poolDue
  simp only [h.taxed_eq, h.poolBurn_eq]

theorem poolLoss_eq (h : Neutral extras t s₁ s₂) (tx : Tx) (a : Address) :
    s₂.poolLoss tx a = s₁.poolLoss tx a := by
  unfold poolLoss
  rw [h.pool, h.poolDue_eq]

/-! ## A call that both runs make -/

/-- At the timestamp of the call the order of the fine balances is kept. -/
theorem fine_keep (h : Neutral extras t s₁ s₂) (ht : t ≤ tx.now)
    (hf₁ : Flows s₁ tx s₁') (hf₂ : Flows s₂ tx s₂') (a : Address) :
    s₂'.fineAt tx.now a ≤ s₁'.fineAt tx.now a ∧
      s₁'.fineAt tx.now a ≤
        s₂'.fineAt tx.now a + REWARD_PRECISION * claimDust extras a := by
  have hbelow := h.below tx.now ht a
  have hlead := h.lead tx.now ht a
  have hfine₁ := hf₁.fine a
  have hfine₂ := hf₂.fine a
  rw [h.poolLoss_eq, receives_congr h.taxed_eq] at hfine₂
  by_cases hsettled : a ∈ tx.settles
  · rw [if_pos hsettled] at hfine₁ hfine₂
    have hwhole := whole_mono (P := REWARD_PRECISION) hbelow
    have hwhole' := whole_lead rewardPrecision_pos hlead
    omega
  · rw [if_neg hsettled] at hfine₁ hfine₂
    omega

/-- And it is kept afterwards: both runs accrue, or neither does. -/
theorem fine_keep_later {evm : Evm} (h : Neutral extras t s₁ s₂)
    (ht : t ≤ tx.now) (h₁ : Next evm s₁ tx s₁') (h₂ : Next evm s₂ tx s₂')
    (hscore : s₂'.burnScore = s₁'.burnScore)
    (hburned : s₂'.totalBurned = s₁'.totalBurned) (hnow : tx.now ≤ now)
    (a : Address) :
    s₂'.fineAt now a ≤ s₁'.fineAt now a ∧
      s₁'.fineAt now a ≤
        s₂'.fineAt now a + REWARD_PRECISION * claimDust extras a := by
  have hg₁ := h.good₁.later ht
  have hg₂ := h.good₂.later ht
  have he₁ := step_effect hg₁ h₁
  have he₂ := step_effect hg₂ h₂
  -- an approval moves nothing, any other call leaves both runs freshly accrued
  cases hcall : tx.call.isApproval with
  | true =>
      rw [fineAt_reapproves (he₁.of_approval hcall),
        fineAt_reapproves (he₂.of_approval hcall)]
      exact ⟨h.below now (ht.trans hnow) a, h.lead now (ht.trans hnow) a⟩
  | false =>
      have hkept := h.fine_keep ht (he₁.flows hg₁) (he₂.flows hg₂) a
      have hinv₁ := (h.good₁.next ht h₁).inv
      have hinv₂ := (h.good₂.next ht h₂).inv
      rw [fineAt_fresh hinv₁ (he₁.frozen h.owner₁).1
          (he₁.accrues hg₁.inv h.owner₁ hcall) now,
        fineAt_fresh hinv₂ (he₂.frozen h.owner₂).1
          (he₂.accrues hg₂.inv h.owner₂ hcall) now, hscore, hburned]
      omega

/-- **A call that both runs make** keeps them neutral. -/
theorem keep {evm : Evm} (h : Neutral extras t s₁ s₂) (ht : t ≤ tx.now)
    (h₁ : Next evm s₁ tx s₁') (h₂ : Next evm s₂ tx s₂') :
    Neutral extras tx.now s₁' s₂' := by
  have hg₁ := h.good₁.later ht
  have hg₂ := h.good₂.later ht
  have he₁ := step_effect hg₁ h₁
  have he₂ := step_effect hg₂ h₂
  have hf₁ := he₁.flows hg₁
  have hf₂ := he₂.flows hg₂
  obtain ⟨howner₁, hpool₁, hexempt₁⟩ := he₁.frozen h.owner₁
  obtain ⟨howner₂, hpool₂, hexempt₂⟩ := he₂.frozen h.owner₂
  have hgood₁ := h.good₁.next ht h₁
  have hgood₂ := h.good₂.next ht h₂
  have hscore : s₂'.burnScore = s₁'.burnScore := by
    ext a
    have hscore₁ := hf₁.score a
    have hscore₂ := hf₂.score a
    rw [h.score, earns_congr h.taxed_eq] at hscore₂
    omega
  have hburned : s₂'.totalBurned = s₁'.totalBurned := by
    rw [hf₁.burned, hf₂.burned, h.burned, taxDue_congr h.taxed_eq]
  refine ⟨hgood₁, hgood₂, howner₁, howner₂, ?_, ?_, hscore, hburned, ?_, ?_, ?_, ?_⟩
  · rw [hpool₁, hpool₂, h.pool]
  · rw [hexempt₁, hexempt₂, h.exempt]
  · have hsupply₁ := hf₁.supply
    have hsupply₂ := hf₂.supply
    rw [h.supply_later ht, taxDue_congr h.taxed_eq, h.poolDue_eq] at hsupply₂
    omega
  · have hpooled₁ := hf₁.pooled hg₁.inv hgood₁.inv hpool₁
    have hpooled₂ := hf₂.pooled hg₂.inv hgood₂.inv hpool₂
    rw [h.pool, h.pooled, h.poolDue_eq, receives_congr h.taxed_eq] at hpooled₂
    rw [hpool₁]
    omega
  · intro now hnow a
    exact (h.fine_keep_later ht h₁ h₂ hscore hburned hnow a).1
  · intro now hnow a
    exact (h.fine_keep_later ht h₁ h₂ hscore hburned hnow a).2

end Neutral

/-! ## A claim that only the second run makes -/

theorem taxOf_zero : taxOf 0 = 0 := by
  unfold taxOf
  rw [Nat.zero_mul, Nat.zero_div]

theorem poolBurn_zero (s : State) : s.poolBurn 0 = 0 := by
  unfold poolBurn poolShare
  rw [Nat.zero_mul, Nat.zero_div, Nat.zero_min]

namespace ClaimsOnly

variable {tx : Tx} {s s' : State} {a : Address} {t now : ℕ}

theorem movement (h : ClaimsOnly tx) :
    ∃ _to, tx.movement = some (tx.sender, _to, 0) := by
  obtain ⟨_to, hcall⟩ := h
  exact ⟨_to, by simp [Tx.movement, hcall]⟩

theorem isApproval (h : ClaimsOnly tx) : tx.call.isApproval = false := by
  obtain ⟨_to, hcall⟩ := h
  rw [hcall]
  rfl

theorem no_due (h : ClaimsOnly tx) (s : State) :
    s.taxDue tx = 0 ∧ s.poolDue tx = 0 := by
  obtain ⟨_to, hmove⟩ := h.movement
  simp [taxDue, poolDue, hmove, taxOf_zero, poolBurn_zero]

theorem no_flow (h : ClaimsOnly tx) (s : State) (a : Address) :
    tx.pays a = 0 ∧ s.receives tx a = 0 ∧ s.earns tx a = 0 ∧
      s.poolLoss tx a = 0 := by
  obtain ⟨_to, hmove⟩ := h.movement
  obtain ⟨htax, hburn⟩ := h.no_due s
  simp [Tx.pays, receives, earns, poolLoss, hmove, htax, hburn]

/-- At its own timestamp a claim rounds one balance down. -/
theorem fine_now (h : ClaimsOnly tx) (hf : Flows s tx s') (a : Address) :
    s'.fineAt tx.now a ≤ s.fineAt tx.now a ∧
      s.fineAt tx.now a < s'.fineAt tx.now a + REWARD_PRECISION := by
  obtain ⟨hpays, hreceives, -, hloss⟩ := h.no_flow s a
  have hfine := hf.fine a
  rw [hpays, hreceives, hloss] at hfine
  have hpositive := rewardPrecision_pos
  by_cases hsettled : a ∈ tx.settles
  · rw [if_pos hsettled] at hfine
    have hdown := whole_le REWARD_PRECISION (s.fineAt tx.now a)
    have hup := le_whole_add rewardPrecision_pos (s.fineAt tx.now a)
    constructor <;> omega
  · rw [if_neg hsettled] at hfine
    constructor <;> omega

/-- Later it has cost an account its own rounding and that of the index. -/
theorem fine_later {evm : Evm} (h : ClaimsOnly tx) (hg : Good tx.now s)
    (howner : s.owner = 0) (hnext : Next evm s tx s') (hnow : tx.now ≤ now)
    (a : Address) :
    s'.fineAt now a ≤ s.fineAt now a ∧
      s.fineAt now a ≤ s'.fineAt now a +
        REWARD_PRECISION * (s.burnScore a / REWARD_PRECISION + 2) := by
  have he := step_effect hg hnext
  have hf := he.flows hg
  have hinv' := (hg.next (Nat.le_refl _) hnext).inv
  obtain ⟨hdown, hup⟩ := h.fine_now hf a
  obtain ⟨hlo, hhi⟩ := fineAt_split hg.inv howner hg.clock hnow a
  have hscore : s'.burnScore a = s.burnScore a := by
    obtain ⟨_to, hmove⟩ := h.movement
    obtain ⟨hyields, hobtains⟩ := Tx.score_of_movement hmove a
    have hscore := hf.score a
    rwa [hyields, hobtains, (h.no_flow s a).2.2.1] at hscore
  have hburned : s'.totalBurned = s.totalBurned := by
    rw [hf.burned, (h.no_due s).1, Nat.add_zero]
  have hfresh := fineAt_fresh hinv' (he.frozen howner).1
    (he.accrues hg.inv howner h.isApproval) now a
  rw [hscore, hburned] at hfresh
  -- the split accrual costs one unit of the index for each unit of score
  have hdust := le_whole_add rewardPrecision_pos (s.burnScore a)
  unfold whole at hdust
  rw [Nat.mul_add]
  constructor <;> omega

end ClaimsOnly

theorem Neutral.extra {evm : Evm} {extras : List TokenStep} {t : ℕ}
    {s₁ s₂ s₂' : State} {tx : Tx} (h : Neutral extras t s₁ s₂) (ht : t ≤ tx.now)
    (hclaim : ClaimsOnly tx) (h₂ : Next evm s₂ tx s₂') :
    Neutral (extras ++ [⟨s₂, tx, s₂'⟩]) tx.now s₁ s₂' := by
  have hg₂ := h.good₂.later ht
  have he₂ := step_effect hg₂ h₂
  have hf₂ := he₂.flows hg₂
  obtain ⟨howner₂, hpool₂, hexempt₂⟩ := he₂.frozen h.owner₂
  have hgood₂ := h.good₂.next ht h₂
  obtain ⟨htax, hburn⟩ := hclaim.no_due s₂
  refine ⟨h.good₁.later ht, hgood₂, h.owner₁, howner₂, hpool₂.trans h.pool,
    hexempt₂.trans h.exempt, ?_, ?_, ?_, ?_, ?_, ?_⟩
  · ext a
    obtain ⟨_to, hmove⟩ := hclaim.movement
    obtain ⟨hyields, hobtains⟩ := Tx.score_of_movement hmove a
    have hscore := hf₂.score a
    rw [hyields, hobtains, (hclaim.no_flow s₂ a).2.2.1, h.score] at hscore
    exact hscore
  · rw [hf₂.burned, htax, Nat.add_zero, h.burned]
  · have hsupply := hf₂.supply
    rw [htax, hburn, h.supply_later ht] at hsupply
    exact hsupply
  · have hpooled := hf₂.pooled hg₂.inv hgood₂.inv hpool₂
    obtain ⟨hpays, hreceives, -⟩ := hclaim.no_flow s₂ s₂.liquidityPool
    rw [hpays, hreceives, hburn, h.pool, h.pooled] at hpooled
    exact hpooled
  · intro now hnow a
    exact (hclaim.fine_later hg₂ h.owner₂ h₂ hnow a).1.trans
      (h.below now (ht.trans hnow) a)
  · intro now hnow a
    have hlead := h.lead now (ht.trans hnow) a
    have hcost := (hclaim.fine_later hg₂ h.owner₂ h₂ hnow a).2
    rw [claimDust_snoc, Nat.mul_add]
    dsimp only
    omega

/-- **Claim timing is neutral up to dust.** -/
theorem claim_timing_neutral {evm : Evm} {t u₁ u₂ now : ℕ} {s s₁ s₂ : State}
    {steps₁ steps₂ extras : List TokenStep} (hs : Reachable evm t s)
    (howner : s.owner = 0) (h₁ : TokenRun evm t s steps₁ u₁ s₁)
    (h₂ : TokenRun evm t s steps₂ u₂ s₂)
    (hinserted : Inserted ClaimsOnly steps₁ steps₂ extras) (hnow : u₂ ≤ now) :
    (∀ x₁ x₂, s₁.totalSupply now = .ok x₁ → s₂.totalSupply now = .ok x₂ →
      x₁ = x₂) ∧
    s₁.totalBurned = s₂.totalBurned ∧
    (∀ a, s₁.burnScore a = s₂.burnScore a) ∧
    (∀ a b₁ b₂, s₁.balanceOf now a = .ok b₁ → s₂.balanceOf now a = .ok b₂ →
      b₂ ≤ b₁ ∧ b₁ ≤ b₂ + (extras.map fun st =>
        st.pre.burnScore a / REWARD_PRECISION + 2).sum) ∧
    (now < 2 ^ 64 →
      (∃ x, s₁.totalSupply now = .ok x) ∧ (∃ x, s₂.totalSupply now = .ok x) ∧
      ∀ a, (∃ b, s₁.balanceOf now a = .ok b) ∧
        ∃ b, s₂.balanceOf now a = .ok b) := by
  obtain ⟨h, -⟩ := simulation
    (R := fun zs t s₁ s₂ => Neutral zs t s₁ s₂)
    (fun h ht h₁ h₂ => h.keep ht h₁ h₂)
    (fun h ht hclaim h₂ => h.extra ht hclaim h₂)
    hinserted h₁ h₂ (Nat.le_refl t) (Neutral.refl hs.good howner)
  refine ⟨?_, h.burned.symm, fun a => (congrFun h.score a).symm, ?_, ?_⟩
  · intro x₁ x₂ hx₁ hx₂
    rw [totalSupply_eq hx₁, totalSupply_eq hx₂, h.supply_later hnow]
  · intro a b₁ b₂ hb₁ hb₂
    rw [balanceOf_eq hb₁, balanceOf_eq hb₂, balanceAt_eq, balanceAt_eq]
    exact ⟨Nat.div_le_div_right (h.below now hnow a),
      floor_lead rewardPrecision_pos (h.lead now hnow a)⟩
  · intro hsmall
    have hfits₁ := h.good₁.fits hnow hsmall
    have hfits₂ := h.good₂.fits hnow hsmall
    exact ⟨⟨_, hfits₁.totalSupply⟩, ⟨_, hfits₂.totalSupply⟩, fun a =>
      ⟨⟨_, hfits₁.balanceOf a⟩, ⟨_, hfits₂.balanceOf a⟩⟩⟩

/-- Account `2` claims once more, between its two calls. -/
def claimTx : Tx := ⟨traderMsg 250, .transfer 3 0#256⟩

def claimingTxs : List Tx := [tradeTx, claimTx, giftTx]

/-- The sample history, and the same with the extra claim. -/
theorem sample_claim_timing :
    ∃ extras : List TokenStep, extras.map Step.label = [claimTx] ∧
      ∃ b₁ b₂, (sampleState (launchTxs ++ tradingTxs)).balanceOf 400 2 = .ok b₁ ∧
        (sampleState (launchTxs ++ claimingTxs)).balanceOf 400 2 = .ok b₂ ∧
        b₂ ≤ b₁ ∧ b₁ ≤ b₂ + (extras.map fun st =>
          st.pre.burnScore 2 / REWARD_PRECISION + 2).sum := by
  have howner : (sampleState launchTxs).owner = 0 := by decide +kernel
  obtain ⟨steps₁, hrun₁, hlabels₁⟩ := sampleState_more
    (by decide +kernel : (sampleRun (launchTxs ++ tradingTxs)).isOk = true)
    (by decide) (by decide : (100 :: tradingTxs.map Tx.now).getLast? = some 300)
  obtain ⟨steps₂, hrun₂, hlabels₂⟩ := sampleState_more
    (by decide +kernel : (sampleRun (launchTxs ++ claimingTxs)).isOk = true)
    (by decide) (by decide : (100 :: claimingTxs.map Tx.now).getLast? = some 300)
  have hclaims : ClaimsOnly claimTx := ⟨3, rfl⟩
  have hsame : steps₁.map Step.label = [tradeTx] ++ [giftTx] := hlabels₁
  have hmore : steps₂.map Step.label = [tradeTx] ++ claimTx :: [giftTx] := hlabels₂
  obtain ⟨extras, hinserted, hextras⟩ :=
    Inserted.of_labels (P := ClaimsOnly) hclaims hsame hmore
  obtain ⟨-, -, -, hbalances, hviews⟩ := claim_timing_neutral
    launchTxs_launched.reachable howner hrun₁ hrun₂ hinserted
    (by decide : 300 ≤ 400)
  obtain ⟨-, -, hshown⟩ := hviews (by decide)
  obtain ⟨⟨b₁, hb₁⟩, b₂, hb₂⟩ := hshown 2
  exact ⟨extras, hextras, b₁, b₂, hb₁, hb₂,
    hbalances 2 b₁ b₂ hb₁ hb₂⟩

end CyberCash
