import CyberCash.Semantics.Timeline
import CyberCash.Results.LifeCycle

/-!
# Trading score is neutral for everybody else

Score can be moved, so it can be traded. Two runs of the same calls, the second
with any number of extra score moves among the members of a group: whatever the
group does, nobody outside it is shown more, and less only by the rounding of
the accruals that the extra calls cut short. The supply, the total burned, the
pool and the score of the group as a whole are the same to the last unit.

Only members of the group are settled by the extra calls, so a third party pays
no rounding of a claim, just that of the index.
-/

namespace CyberCash

open Solidity Function State TimedRun LazyIndex

/-- A score move from a member of the group to a member. -/
def TradesIn (B : Finset Address) (tx : Tx) : Prop :=
  ∃ _to n, tx.call = .transferBurnScore _to n ∧ tx.sender ∈ B ∧ _to ∈ B

/-- What the extra accruals can have cost an account. -/
def accrualDust (extras : List TokenStep) (a : Address) : ℕ :=
  (extras.map fun st => st.pre.burnScore a / REWARD_PRECISION + 1).sum

theorem accrualDust_snoc (extras : List TokenStep) (st : TokenStep) (a : Address) :
    accrualDust (extras ++ [st]) a =
      accrualDust extras a + (st.pre.burnScore a / REWARD_PRECISION + 1) := by
  unfold accrualDust
  rw [List.map_append, List.sum_append, List.map_singleton, List.sum_singleton]

/-- The state of the second run against that of the first, at time `t`. -/
structure Aside (B : Finset Address) (extras : List TokenStep) (t : ℕ)
    (s₁ s₂ : State) : Prop where
  good₁ : Good t s₁
  good₂ : Good t s₂
  owner₁ : s₁.owner = 0
  owner₂ : s₂.owner = 0
  pool : s₂.liquidityPool = s₁.liquidityPool
  exempt : s₂.exemptedAddresses = s₁.exemptedAddresses
  burned : s₂.totalBurned = s₁.totalBurned
  supply : s₂.supplyAt t = s₁.supplyAt t
  pooled : s₂._balances s₁.liquidityPool = s₁._balances s₁.liquidityPool
  score : ∀ a ∉ B, s₂.burnScore a = s₁.burnScore a
  below : ∀ now, t ≤ now → ∀ a ∉ B, s₂.fineAt now a ≤ s₁.fineAt now a
  lead : ∀ now, t ≤ now → ∀ a ∉ B, s₁.fineAt now a ≤
    s₂.fineAt now a + REWARD_PRECISION * accrualDust extras a

namespace Aside

variable {B : Finset Address} {extras : List TokenStep} {t now : ℕ}
  {s₁ s₂ s₁' s₂' : State} {tx : Tx} {a : Address}

theorem refl {s : State} (hg : Good t s) (howner : s.owner = 0) : Aside B [] t s s where
  good₁ := hg
  good₂ := hg
  owner₁ := howner
  owner₂ := howner
  pool := rfl
  exempt := rfl
  burned := rfl
  supply := rfl
  pooled := rfl
  score _ _ := rfl
  below _ _ _ _ := Nat.le_refl _
  lead _ _ _ _ := Nat.le_add_right _ _

theorem supply_later (h : Aside B extras t s₁ s₂) (ht : t ≤ now) :
    s₂.supplyAt now = s₁.supplyAt now := by
  rw [supplyAt_split h.owner₁ h.good₁.clock ht,
    supplyAt_split h.owner₂ h.good₂.clock ht, h.supply]

theorem taxed_eq (h : Aside B extras t s₁ s₂) : s₂.taxed = s₁.taxed :=
  taxed_congr h.pool h.exempt

theorem poolDue_eq (h : Aside B extras t s₁ s₂) (tx : Tx) :
    s₂.poolDue tx = s₁.poolDue tx := by
  unfold poolDue poolBurn
  rw [h.taxed_eq, h.pool, h.pooled]

theorem poolLoss_eq (h : Aside B extras t s₁ s₂) (tx : Tx) :
    s₂.poolLoss tx = s₁.poolLoss tx := by
  funext a
  unfold poolLoss
  rw [h.pool, h.poolDue_eq]

/-- The score of the group as a whole is what the others do not hold. -/
theorem sum_score (h : Aside B extras t s₁ s₂) :
    ∑ a ∈ B, s₂.burnScore a = ∑ a ∈ B, s₁.burnScore a := by
  have htotal₁ : s₁.totalBurned = 1 + ∑ a, s₁.burnScore a := h.good₁.inv.rewards.total
  have htotal₂ : s₂.totalBurned = 1 + ∑ a, s₂.burnScore a := h.good₂.inv.rewards.total
  have hsplit₁ := Finset.sum_add_sum_compl B s₁.burnScore
  have hsplit₂ := Finset.sum_add_sum_compl B s₂.burnScore
  have hothers : ∑ a ∈ Bᶜ, s₂.burnScore a = ∑ a ∈ Bᶜ, s₁.burnScore a :=
    Finset.sum_congr rfl fun a ha => h.score a (Finset.mem_compl.mp ha)
  have hburned := h.burned
  omega

/-! ## A call that both runs make -/

/-- At the timestamp of the call the order of the fine balances is kept. -/
theorem fine_keep (h : Aside B extras t s₁ s₂) (ht : t ≤ tx.now)
    (hf₁ : Flows s₁ tx s₁') (hf₂ : Flows s₂ tx s₂') (ha : a ∉ B) :
    s₂'.fineAt tx.now a ≤ s₁'.fineAt tx.now a ∧
      s₁'.fineAt tx.now a ≤
        s₂'.fineAt tx.now a + REWARD_PRECISION * accrualDust extras a := by
  have hbelow := h.below tx.now ht a ha
  have hlead := h.lead tx.now ht a ha
  have hfine₁ := hf₁.fine a
  have hfine₂ := hf₂.fine a
  rw [h.poolLoss_eq, receives_congr h.taxed_eq] at hfine₂
  by_cases hsettled : a ∈ tx.settles
  · rw [if_pos hsettled] at hfine₁ hfine₂
    have hwhole := whole_mono (P := REWARD_PRECISION) hbelow
    have hwhole' := whole_lead rewardPrecision_pos hlead
    omega
  · rw [if_neg hsettled] at hfine₁ hfine₂
    omega

/-- And it is kept afterwards: both runs accrue, or neither does. -/
theorem fine_keep_later {evm : Evm} (h : Aside B extras t s₁ s₂) (ht : t ≤ tx.now)
    (h₁ : Next evm s₁ tx s₁') (h₂ : Next evm s₂ tx s₂')
    (hscore : s₂'.burnScore a = s₁'.burnScore a)
    (hburned : s₂'.totalBurned = s₁'.totalBurned) (hnow : tx.now ≤ now) (ha : a ∉ B) :
    s₂'.fineAt now a ≤ s₁'.fineAt now a ∧
      s₁'.fineAt now a ≤
        s₂'.fineAt now a + REWARD_PRECISION * accrualDust extras a := by
  have hg₁ := h.good₁.later ht
  have hg₂ := h.good₂.later ht
  have he₁ := step_effect hg₁ h₁
  have he₂ := step_effect hg₂ h₂
  cases hcall : tx.call.isApproval with
  | true =>
      rw [fineAt_reapproves (he₁.of_approval hcall),
        fineAt_reapproves (he₂.of_approval hcall)]
      exact ⟨h.below now (ht.trans hnow) a ha, h.lead now (ht.trans hnow) a ha⟩
  | false =>
      have hkept := h.fine_keep ht (he₁.flows hg₁) (he₂.flows hg₂) ha
      have hinv₁ := (h.good₁.next ht h₁).inv
      have hinv₂ := (h.good₂.next ht h₂).inv
      rw [fineAt_fresh hinv₁ (he₁.frozen h.owner₁).1
          (he₁.accrues hg₁.inv h.owner₁ hcall) now,
        fineAt_fresh hinv₂ (he₂.frozen h.owner₂).1
          (he₂.accrues hg₂.inv h.owner₂ hcall) now, hscore, hburned]
      omega

/-- **A call that both runs make**, even one of the group. -/
theorem keep {evm : Evm} (h : Aside B extras t s₁ s₂) (ht : t ≤ tx.now)
    (h₁ : Next evm s₁ tx s₁') (h₂ : Next evm s₂ tx s₂') :
    Aside B extras tx.now s₁' s₂' := by
  have hg₁ := h.good₁.later ht
  have hg₂ := h.good₂.later ht
  have he₁ := step_effect hg₁ h₁
  have he₂ := step_effect hg₂ h₂
  have hf₁ := he₁.flows hg₁
  have hf₂ := he₂.flows hg₂
  obtain ⟨howner₁, hpool₁, hexempt₁⟩ := he₁.frozen h.owner₁
  obtain ⟨howner₂, hpool₂, hexempt₂⟩ := he₂.frozen h.owner₂
  have hgood₁ := h.good₁.next ht h₁
  have hgood₂ := h.good₂.next ht h₂
  have hscore (a : Address) (ha : a ∉ B) : s₂'.burnScore a = s₁'.burnScore a := by
    have hscore₁ := hf₁.score a
    have hscore₂ := hf₂.score a
    rw [h.score a ha, earns_congr h.taxed_eq] at hscore₂
    omega
  have hburned : s₂'.totalBurned = s₁'.totalBurned := by
    rw [hf₁.burned, hf₂.burned, h.burned, taxDue_congr h.taxed_eq]
  refine ⟨hgood₁, hgood₂, howner₁, howner₂, ?_, ?_, hburned, ?_, ?_, hscore, ?_, ?_⟩
  · rw [hpool₁, hpool₂, h.pool]
  · rw [hexempt₁, hexempt₂, h.exempt]
  · have hsupply₁ := hf₁.supply
    have hsupply₂ := hf₂.supply
    rw [h.supply_later ht, taxDue_congr h.taxed_eq, h.poolDue_eq] at hsupply₂
    omega
  · have hpooled₁ := hf₁.pooled hg₁.inv hgood₁.inv hpool₁
    have hpooled₂ := hf₂.pooled hg₂.inv hgood₂.inv hpool₂
    rw [h.pool, h.pooled, h.poolDue_eq, receives_congr h.taxed_eq] at hpooled₂
    rw [hpool₁]
    omega
  · intro now hnow a ha
    exact (h.fine_keep_later ht h₁ h₂ (hscore a ha) hburned hnow ha).1
  · intro now hnow a ha
    exact (h.fine_keep_later ht h₁ h₂ (hscore a ha) hburned hnow ha).2

end Aside

/-! ## A trade that only the second run makes -/

namespace TradesIn

variable {B : Finset Address} {tx : Tx} {s s' : State} {a : Address} {now : ℕ}

theorem movement (h : TradesIn B tx) : tx.movement = none := by
  obtain ⟨_to, n, hcall, -⟩ := h
  exact Tx.movement_of_score hcall

theorem isApproval (h : TradesIn B tx) : tx.call.isApproval = false := by
  obtain ⟨_to, n, hcall, -⟩ := h
  rw [hcall]
  rfl

/-- An outsider is no party. -/
theorem outsider (h : TradesIn B tx) (ha : a ∉ B) :
    a ∉ tx.settles ∧ tx.yields a = 0 ∧ tx.obtains a = 0 := by
  obtain ⟨_to, n, hcall, hsender, hto⟩ := h
  have hne : a ≠ tx.sender := fun heq => ha (heq ▸ hsender)
  have hne' : a ≠ _to := fun heq => ha (heq ▸ hto)
  simp [Tx.settles, Tx.yields, Tx.obtains, hcall, hne, hne']

/-- An outsider loses at most the rounding of the accrual. -/
theorem fine_later {evm : Evm} (h : TradesIn B tx) (hg : Good tx.now s)
    (howner : s.owner = 0) (hnext : Next evm s tx s') (hnow : tx.now ≤ now) (ha : a ∉ B) :
    s'.fineAt now a ≤ s.fineAt now a ∧
      s.fineAt now a ≤ s'.fineAt now a +
        REWARD_PRECISION * (s.burnScore a / REWARD_PRECISION + 1) := by
  have he := step_effect hg hnext
  have hf := he.flows hg
  have hinv' := (hg.next (Nat.le_refl _) hnext).inv
  obtain ⟨hsettles, hyields, hobtains⟩ := h.outsider ha
  obtain ⟨hpays, hreceives, hearns, htax, -, hloss⟩ := s.no_flow h.movement a
  have hsame : s'.fineAt tx.now a = s.fineAt tx.now a := by
    have hfine := hf.fine a
    rw [if_neg hsettles, hpays, hloss, hreceives] at hfine
    exact Nat.add_right_cancel hfine
  have hscore : s'.burnScore a = s.burnScore a := by
    have hscore := hf.score a
    rwa [hyields, hobtains, hearns] at hscore
  have hburned : s'.totalBurned = s.totalBurned := by
    rw [hf.burned, htax, Nat.add_zero]
  have hfresh := fineAt_fresh hinv' (he.frozen howner).1
    (he.accrues hg.inv howner h.isApproval) now a
  rw [hsame, hscore, hburned] at hfresh
  obtain ⟨hlo, hhi⟩ := fineAt_split hg.inv howner hg.clock hnow a
  -- the split accrual costs one unit of the index for each unit of score
  have hdust := le_whole_add rewardPrecision_pos (s.burnScore a)
  unfold whole at hdust
  rw [Nat.mul_add]
  constructor <;> omega

end TradesIn

theorem Aside.extra {evm : Evm} {B : Finset Address} {extras : List TokenStep} {t : ℕ}
    {s₁ s₂ s₂' : State} {tx : Tx} (h : Aside B extras t s₁ s₂) (ht : t ≤ tx.now)
    (htrade : TradesIn B tx) (h₂ : Next evm s₂ tx s₂') :
    Aside B (extras ++ [⟨s₂, tx, s₂'⟩]) tx.now s₁ s₂' := by
  have hg₂ := h.good₂.later ht
  have he₂ := step_effect hg₂ h₂
  have hf₂ := he₂.flows hg₂
  obtain ⟨howner₂, hpool₂, hexempt₂⟩ := he₂.frozen h.owner₂
  have hgood₂ := h.good₂.next ht h₂
  obtain ⟨hpays, hreceives, -, htax, hburn, -⟩ := s₂.no_flow htrade.movement s₂.liquidityPool
  refine ⟨h.good₁.later ht, hgood₂, h.owner₁, howner₂, hpool₂.trans h.pool,
    hexempt₂.trans h.exempt, ?_, ?_, ?_, ?_, ?_, ?_⟩
  · rw [hf₂.burned, htax, Nat.add_zero, h.burned]
  · have hsupply := hf₂.supply
    rwa [htax, hburn, h.supply_later ht] at hsupply
  · have hpooled := hf₂.pooled hg₂.inv hgood₂.inv hpool₂
    rw [hpays, hreceives, hburn, h.pool, h.pooled] at hpooled
    exact hpooled
  · intro a ha
    obtain ⟨-, hyields, hobtains⟩ := htrade.outsider ha
    have hscore := hf₂.score a
    rwa [hyields, hobtains, (s₂.no_flow htrade.movement a).2.2.1, h.score a ha] at hscore
  · intro now hnow a ha
    exact (htrade.fine_later hg₂ h.owner₂ h₂ hnow ha).1.trans
      (h.below now (ht.trans hnow) a ha)
  · intro now hnow a ha
    have hlead := h.lead now (ht.trans hnow) a ha
    have hcost := (htrade.fine_later hg₂ h.owner₂ h₂ hnow ha).2
    rw [accrualDust_snoc, Nat.mul_add]
    dsimp only
    omega

/-- **Trading score is neutral for everybody else**, up to dust, and the group
trades what it has. -/
theorem score_trading_neutral {evm : Evm} {t u₁ u₂ now : ℕ} {s s₁ s₂ : State}
    {steps₁ steps₂ extras : List TokenStep} {B : Finset Address}
    (hs : Reachable evm t s) (howner : s.owner = 0)
    (h₁ : TokenRun evm t s steps₁ u₁ s₁) (h₂ : TokenRun evm t s steps₂ u₂ s₂)
    (hinserted : Inserted (TradesIn B) steps₁ steps₂ extras) (hnow : u₂ ≤ now) :
    (∀ x₁ x₂, s₁.totalSupply now = .ok x₁ → s₂.totalSupply now = .ok x₂ → x₁ = x₂) ∧
    s₁.totalBurned = s₂.totalBurned ∧
    ∑ a ∈ B, s₁.burnScore a = ∑ a ∈ B, s₂.burnScore a ∧
    ∀ a ∉ B, s₁.burnScore a = s₂.burnScore a ∧
      ∀ b₁ b₂, s₁.balanceOf now a = .ok b₁ → s₂.balanceOf now a = .ok b₂ →
        b₂ ≤ b₁ ∧ b₁ ≤ b₂ + (extras.map fun st =>
          st.pre.burnScore a / REWARD_PRECISION + 1).sum := by
  obtain ⟨h, -⟩ := simulation
    (R := fun zs t s₁ s₂ => Aside B zs t s₁ s₂)
    (fun h ht h₁ h₂ => h.keep ht h₁ h₂)
    (fun h ht htrade h₂ => h.extra ht htrade h₂)
    hinserted h₁ h₂ (Nat.le_refl t) (Aside.refl hs.good howner)
  refine ⟨?_, h.burned.symm, h.sum_score.symm, ?_⟩
  · intro x₁ x₂ hx₁ hx₂
    rw [totalSupply_eq hx₁, totalSupply_eq hx₂, h.supply_later hnow]
  · intro a ha
    refine ⟨(h.score a ha).symm, ?_⟩
    intro b₁ b₂ hb₁ hb₂
    rw [balanceOf_eq hb₁, balanceOf_eq hb₂, balanceAt_eq, balanceAt_eq]
    exact ⟨Nat.div_le_div_right (h.below now hnow a ha),
      floor_lead rewardPrecision_pos (h.lead now hnow a ha)⟩

/-- Account `2` gives half of its score to `4`, before it gives some to `3`. -/
def swapTx : Tx := ⟨traderMsg 250, .transferBurnScore 4 100000000000000000#256⟩

/-- What account `3` has in the sample history, with and without the trade. -/
theorem sample_score_trading :
    ∃ extras : List TokenStep, extras.map Step.label = [swapTx] ∧
      ∃ b₁ b₂, (sampleState (launchTxs ++ tradingTxs)).balanceOf 400 3 = .ok b₁ ∧
        (sampleState (launchTxs ++ [tradeTx, swapTx, giftTx])).balanceOf 400 3 = .ok b₂ ∧
        b₂ ≤ b₁ ∧ b₁ ≤ b₂ + (extras.map fun st =>
          st.pre.burnScore 3 / REWARD_PRECISION + 1).sum := by
  have howner : (sampleState launchTxs).owner = 0 := by decide +kernel
  obtain ⟨steps₁, hrun₁, hlabels₁⟩ := sampleState_more
    (by decide +kernel : (sampleRun (launchTxs ++ tradingTxs)).isOk = true)
    (by decide) (by decide : (100 :: tradingTxs.map Tx.now).getLast? = some 300)
  obtain ⟨steps₂, hrun₂, hlabels₂⟩ := sampleState_more
    (by decide +kernel : (sampleRun (launchTxs ++ [tradeTx, swapTx, giftTx])).isOk = true)
    (by decide)
    (by decide : (100 :: [tradeTx, swapTx, giftTx].map Tx.now).getLast? = some 300)
  have htrade : TradesIn {2, 4} swapTx := ⟨4, _, rfl, by decide, by decide⟩
  have hsame : steps₁.map Step.label = [tradeTx] ++ [giftTx] := hlabels₁
  have hmore : steps₂.map Step.label = [tradeTx] ++ swapTx :: [giftTx] := hlabels₂
  obtain ⟨extras, hinserted, hextras⟩ :=
    Inserted.of_labels (P := TradesIn {2, 4}) htrade hsame hmore
  obtain ⟨-, -, -, hothers⟩ := score_trading_neutral launchTxs_launched.reachable howner
    hrun₁ hrun₂ hinserted (by decide : 300 ≤ 400)
  obtain ⟨-, hshown⟩ := hothers 3 (by decide)
  obtain ⟨b₁, hb₁⟩ := exists_of_isOk (by decide +kernel :
    ((sampleState (launchTxs ++ tradingTxs)).balanceOf 400 3).isOk = true)
  obtain ⟨b₂, hb₂⟩ := exists_of_isOk (by decide +kernel :
    ((sampleState (launchTxs ++ [tradeTx, swapTx, giftTx])).balanceOf 400 3).isOk = true)
  exact ⟨extras, hextras, b₁, b₂, hb₁, hb₂, hshown b₁ b₂ hb₁ hb₂⟩

end CyberCash
