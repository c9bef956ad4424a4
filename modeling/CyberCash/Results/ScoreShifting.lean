import CyberCash.Semantics.History
import CyberCash.Results.ScoreTrading

/-!
# Shifting score gains dust

The other half of trading score: the group itself. Whoever holds several
accounts may shift score among them in the hope that the rounding favours one
of them. The two runs of `Results/ScoreTrading` are compared once more, now by
what the members of the group have together. Each claim of a member rounds away
less than one token, and each accrual cut short less than one unit of the index
for each unit of score; nothing else can come of it, in either direction.
-/

namespace CyberCash

open Solidity Function State TimedRun LazyIndex

/-! ## What a call does to one account, with its rounding -/

section OneCall

variable {s s' : State} {tx : Tx}

/-- A settled account has claimed. -/
theorem Effect.claims (hg : Good tx.now s) (howner : s.owner = 0) (he : Effect s tx s')
    (a : Address) : s.mints a + (if a ∈ tx.settles then 1 else 0) ≤ s'.mints a := by
  have hclaims (b : Address) (r : ℕ) :
      Event.claims a (.rewardsClaimed b r) = if b = a then 1 else 0 := rfl
  cases he with
  | launch _ hsender => exact absurd (hsender.trans howner) tx.msg.sender_ne_zero
  | reapprove hcall hs =>
      rw [Tx.settles_of_approval hcall, if_neg List.not_mem_nil, Nat.add_zero]
      exact (tally_reapproves (special_claims a) hs).ge
  | @send src dst x hmove =>
      have hs := s.charge_reapproves tx
      have hpool := hg.inv.charge_launched howner tx
      have hbefore : s.mints a = (s.charge tx).mints a :=
        (tally_reapproves (special_claims a) hs).symm
      have hmem : a ∈ tx.settles ↔ a = src := by
        rw [Tx.settles_of_movement hmove, List.mem_singleton]
      rw [hbefore]
      unfold State.mints
      rw [tally_send (special_claims a) (hg.charge tx).inv, if_neg hpool, hclaims]
      by_cases ha : a = src
      · rw [if_pos (hmem.mpr ha), if_pos ha.symm]
        exact Nat.le_add_right _ _
      · rw [if_neg (mt hmem.mp ha), Nat.add_zero, Nat.add_assoc]
        exact Nat.le_add_right _ _
  | @moveScore dst n hcall =>
      unfold State.mints
      rw [tally_moveScore, tally_settle (special_claims a), tally_settle (special_claims a),
        hclaims, hclaims]
      simp only [Tx.settles, hcall, List.mem_cons, List.not_mem_nil, or_false]
      by_cases hsender : a = tx.sender
      · rw [if_pos (.inl hsender), if_pos hsender.symm]
        exact Nat.le_add_right _ _
      · by_cases hdst : a = dst
        · rw [if_pos (.inr hdst), if_pos hdst.symm]
          omega
        · rw [if_neg (not_or.mpr ⟨hsender, hdst⟩)]
          omega

/-- What a call does to a fine balance, up to the claims it makes. -/
theorem Effect.fine_bounds (hg : Good tx.now s) (howner : s.owner = 0)
    (he : Effect s tx s') (a : Address) :
    s'.fineAt tx.now a + REWARD_PRECISION * (tx.pays a + s.poolLoss tx a) ≤
        s.fineAt tx.now a + REWARD_PRECISION * s.receives tx a ∧
      s.fineAt tx.now a + REWARD_PRECISION * s.receives tx a +
          REWARD_PRECISION * s.mints a ≤
        s'.fineAt tx.now a + REWARD_PRECISION * (tx.pays a + s.poolLoss tx a) +
          REWARD_PRECISION * s'.mints a := by
  have hfine := (he.flows hg).fine a
  have hclaims := he.claims hg howner a
  have hdown := whole_le REWARD_PRECISION (s.fineAt tx.now a)
  have hup := le_whole_add rewardPrecision_pos (s.fineAt tx.now a)
  have hscaled := Nat.mul_le_mul_left REWARD_PRECISION hclaims
  rw [Nat.mul_add] at hscaled
  by_cases hsettled : a ∈ tx.settles
  · rw [if_pos hsettled] at hfine hscaled
    constructor <;> omega
  · rw [if_neg hsettled] at hfine hscaled
    constructor <;> omega

end OneCall

/-! ## What a group has -/

namespace State

/-- What the members of a group are owed and hold together, at the fine scale. -/
def fineOf (s : State) (B : Finset Address) (now : ℕ) : ℕ := ∑ a ∈ B, s.fineAt now a

/-- How often members of the group have claimed. -/
def mintsOf (s : State) (B : Finset Address) : ℕ := ∑ a ∈ B, s.mints a

def scoreOf (s : State) (B : Finset Address) : ℕ := ∑ a ∈ B, s.burnScore a

/-- What a call moves to members of the group, and what it takes from them. -/
def inflow (s : State) (B : Finset Address) (tx : Tx) : ℕ :=
  ∑ a ∈ B, REWARD_PRECISION * s.receives tx a

def outflow (s : State) (B : Finset Address) (tx : Tx) : ℕ :=
  ∑ a ∈ B, REWARD_PRECISION * (tx.pays a + s.poolLoss tx a)

variable {s s' : State} {B : Finset Address} {now t : ℕ}

theorem fineOf_reapproves (h : s.Reapproves s') (now : ℕ) :
    s'.fineOf B now = s.fineOf B now :=
  Finset.sum_congr rfl fun a _ => fineAt_reapproves h now a

theorem mintsOf_reapproves (h : s.Reapproves s') : s'.mintsOf B = s.mintsOf B :=
  Finset.sum_congr rfl fun a _ => tally_reapproves (special_claims a) h

theorem fineOf_fresh (h : Inv s) (howner : s.owner = 0) (hclock : s.lastMintTime = now)
    (t : ℕ) : s.fineOf B t = s.fineOf B now +
      s.scoreOf B * growth s.totalBurned (t - now) := by
  unfold fineOf scoreOf
  rw [Finset.sum_mul, ← Finset.sum_add_distrib]
  exact Finset.sum_congr rfl fun a _ => fineAt_fresh h howner hclock t a

theorem fineOf_split (h : Inv s) (howner : s.owner = 0) (hclock : s.lastMintTime ≤ now)
    (ht : now ≤ t) (B : Finset Address) :
    s.fineOf B now + s.scoreOf B * growth s.totalBurned (t - now) ≤ s.fineOf B t ∧
      s.fineOf B t ≤ s.fineOf B now +
        s.scoreOf B * growth s.totalBurned (t - now) + s.scoreOf B := by
  unfold fineOf scoreOf
  rw [Finset.sum_mul, ← Finset.sum_add_distrib, ← Finset.sum_add_distrib]
  exact ⟨Finset.sum_le_sum fun a _ => (fineAt_split h howner hclock ht a).1,
    Finset.sum_le_sum fun a _ => (fineAt_split h howner hclock ht a).2⟩

/-- What the members are shown, each rounded down. -/
theorem fineOf_rounded (s : State) (B : Finset Address) (now : ℕ) :
    REWARD_PRECISION * ∑ a ∈ B, s.balanceAt now a ≤ s.fineOf B now ∧
      s.fineOf B now ≤ REWARD_PRECISION * (∑ a ∈ B, s.balanceAt now a + B.card) := by
  unfold fineOf
  rw [Nat.mul_add, Finset.mul_sum, Finset.card_eq_sum_ones, Finset.mul_sum,
    ← Finset.sum_add_distrib]
  constructor
  · apply Finset.sum_le_sum
    intro a _
    rw [← whole_fineAt]
    exact whole_le _ _
  · apply Finset.sum_le_sum
    intro a _
    rw [← whole_fineAt, Nat.mul_one]
    exact (le_whole_add rewardPrecision_pos _).le

end State

theorem Effect.fineOf_bounds {s s' : State} {tx : Tx} (hg : Good tx.now s)
    (howner : s.owner = 0) (he : Effect s tx s') (B : Finset Address) :
    s'.fineOf B tx.now + s.outflow B tx ≤ s.fineOf B tx.now + s.inflow B tx ∧
      s.fineOf B tx.now + s.inflow B tx + REWARD_PRECISION * s.mintsOf B ≤
        s'.fineOf B tx.now + s.outflow B tx + REWARD_PRECISION * s'.mintsOf B := by
  unfold fineOf inflow outflow mintsOf
  rw [Finset.mul_sum, Finset.mul_sum, ← Finset.sum_add_distrib, ← Finset.sum_add_distrib,
    ← Finset.sum_add_distrib, ← Finset.sum_add_distrib]
  exact ⟨Finset.sum_le_sum fun a _ => (he.fine_bounds hg howner a).1,
    Finset.sum_le_sum fun a _ => (he.fine_bounds hg howner a).2⟩

/-! ## Two runs, the second with trades in the group -/

/-- What the extra accruals can have cost the group. -/
def groupDust (extras : List TokenStep) (B : Finset Address) : ℕ :=
  (extras.map fun st => st.pre.scoreOf B / REWARD_PRECISION + 1).sum

theorem groupDust_snoc (extras : List TokenStep) (st : TokenStep) (B : Finset Address) :
    groupDust (extras ++ [st]) B =
      groupDust extras B + (st.pre.scoreOf B / REWARD_PRECISION + 1) := by
  unfold groupDust
  rw [List.map_append, List.sum_append, List.map_singleton, List.sum_singleton]

/-- Either run is ahead by no more than its own claims, `m₀` of which were made
before the runs part, and the second is behind by the extra accruals too. -/
structure Shifted (B : Finset Address) (m₀ : ℕ) (extras : List TokenStep) (t : ℕ)
    (s₁ s₂ : State) : Prop where
  aside : Aside B extras t s₁ s₂
  gain : ∀ now, t ≤ now → s₂.fineOf B now + REWARD_PRECISION * m₀ ≤
    s₁.fineOf B now + REWARD_PRECISION * s₁.mintsOf B
  loss : ∀ now, t ≤ now → s₁.fineOf B now + REWARD_PRECISION * m₀ ≤
    s₂.fineOf B now + REWARD_PRECISION * (s₂.mintsOf B + groupDust extras B)

namespace Shifted

variable {B : Finset Address} {m₀ : ℕ} {extras : List TokenStep} {t now : ℕ}
  {s₁ s₂ s₁' s₂' : State} {tx : Tx}

theorem refl {s : State} (hg : Good t s) (howner : s.owner = 0) :
    Shifted B (s.mintsOf B) [] t s s where
  aside := .refl hg howner
  gain _ _ := Nat.le_refl _
  loss _ _ := Nat.le_refl _

/-- The same flows reach the group in both runs. -/
theorem flows_eq (h : Aside B extras t s₁ s₂) (tx : Tx) :
    s₂.inflow B tx = s₁.inflow B tx ∧ s₂.outflow B tx = s₁.outflow B tx := by
  unfold inflow outflow
  rw [receives_congr h.taxed_eq, h.poolLoss_eq]
  exact ⟨rfl, rfl⟩

/-- **A call that both runs make.** -/
theorem keep {evm : Evm} (h : Shifted B m₀ extras t s₁ s₂) (ht : t ≤ tx.now)
    (h₁ : Next evm s₁ tx s₁') (h₂ : Next evm s₂ tx s₂') :
    Shifted B m₀ extras tx.now s₁' s₂' := by
  have haside := h.aside
  have haside' := haside.keep ht h₁ h₂
  have hg₁ := haside.good₁.later ht
  have hg₂ := haside.good₂.later ht
  have he₁ := step_effect hg₁ h₁
  have he₂ := step_effect hg₂ h₂
  cases hcall : tx.call.isApproval with
  | true =>
      have hs₁ := he₁.of_approval hcall
      have hs₂ := he₂.of_approval hcall
      refine ⟨haside', ?_, ?_⟩
      · intro now hnow
        rw [fineOf_reapproves hs₁, fineOf_reapproves hs₂, mintsOf_reapproves hs₁]
        exact h.gain now (ht.trans hnow)
      · intro now hnow
        rw [fineOf_reapproves hs₁, fineOf_reapproves hs₂, mintsOf_reapproves hs₂]
        exact h.loss now (ht.trans hnow)
  | false =>
      obtain ⟨hdown₁, hup₁⟩ := he₁.fineOf_bounds hg₁ haside.owner₁ B
      obtain ⟨hdown₂, hup₂⟩ := he₂.fineOf_bounds hg₂ haside.owner₂ B
      obtain ⟨hin, hout⟩ := flows_eq haside tx
      have hgain := h.gain tx.now ht
      have hloss := h.loss tx.now ht
      have hscore : s₂'.scoreOf B = s₁'.scoreOf B := haside'.sum_score
      rw [hin, hout] at hdown₂ hup₂
      rw [Nat.mul_add] at hloss
      refine ⟨haside', ?_, ?_⟩
      · intro now _
        rw [fineOf_fresh haside'.good₁.inv haside'.owner₁
            (he₁.accrues hg₁.inv haside.owner₁ hcall) now,
          fineOf_fresh haside'.good₂.inv haside'.owner₂
            (he₂.accrues hg₂.inv haside.owner₂ hcall) now, hscore, haside'.burned]
        omega
      · intro now _
        rw [fineOf_fresh haside'.good₁.inv haside'.owner₁
            (he₁.accrues hg₁.inv haside.owner₁ hcall) now,
          fineOf_fresh haside'.good₂.inv haside'.owner₂
            (he₂.accrues hg₂.inv haside.owner₂ hcall) now, hscore, haside'.burned,
          Nat.mul_add]
        omega

/-- A trade moves nothing into the group or out of it. -/
theorem no_flow (htrade : TradesIn B tx) (s : State) :
    s.inflow B tx = 0 ∧ s.outflow B tx = 0 := by
  constructor
  · apply Finset.sum_eq_zero
    intro a _
    rw [(s.no_flow htrade.movement a).2.1, Nat.mul_zero]
  · apply Finset.sum_eq_zero
    intro a _
    obtain ⟨hpays, -, -, -, -, hloss⟩ := s.no_flow htrade.movement a
    rw [hpays, hloss, Nat.add_zero, Nat.mul_zero]

/-- **A trade that only the second run makes.** -/
theorem extra {evm : Evm} (h : Shifted B m₀ extras t s₁ s₂) (ht : t ≤ tx.now)
    (htrade : TradesIn B tx) (h₂ : Next evm s₂ tx s₂') :
    Shifted B m₀ (extras ++ [⟨s₂, tx, s₂'⟩]) tx.now s₁ s₂' := by
  have haside := h.aside
  have haside' := haside.extra ht htrade h₂
  have hg₂ := haside.good₂.later ht
  have he₂ := step_effect hg₂ h₂
  obtain ⟨hdown, hup⟩ := he₂.fineOf_bounds hg₂ haside.owner₂ B
  obtain ⟨hin, hout⟩ := no_flow htrade s₂
  rw [hin, hout, Nat.add_zero, Nat.add_zero] at hdown hup
  have hscore : s₂'.scoreOf B = s₂.scoreOf B :=
    haside'.sum_score.trans haside.sum_score.symm
  have hburned : s₂'.totalBurned = s₂.totalBurned :=
    haside'.burned.trans haside.burned.symm
  have hfresh (now : ℕ) := fineOf_fresh (B := B) haside'.good₂.inv haside'.owner₂
    (he₂.accrues hg₂.inv haside.owner₂ htrade.isApproval) now
  refine ⟨haside', ?_, ?_⟩
  · intro now hnow
    have hgain := h.gain now (ht.trans hnow)
    have hsplit := (fineOf_split hg₂.inv haside.owner₂ hg₂.clock hnow B).1
    rw [hfresh now, hscore, hburned]
    omega
  · intro now hnow
    have hloss := h.loss now (ht.trans hnow)
    have hsplit := (fineOf_split hg₂.inv haside.owner₂ hg₂.clock hnow B).2
    -- the split accrual costs one unit of the index for each unit of score
    have hdust := le_whole_add rewardPrecision_pos (s₂.scoreOf B)
    unfold whole at hdust
    rw [hfresh now, hscore, hburned, groupDust_snoc]
    simp only [Nat.mul_add] at hloss ⊢
    omega

/-- Read off as displayed balances: each of them is rounded once. -/
theorem readout (h : Shifted B m₀ extras t s₁ s₂) (hnow : t ≤ now) :
    ∑ a ∈ B, s₂.balanceAt now a + m₀ ≤
        ∑ a ∈ B, s₁.balanceAt now a + s₁.mintsOf B + B.card ∧
      ∑ a ∈ B, s₁.balanceAt now a + m₀ ≤
        ∑ a ∈ B, s₂.balanceAt now a + s₂.mintsOf B + groupDust extras B + B.card := by
  obtain ⟨hlo₁, hhi₁⟩ := s₁.fineOf_rounded B now
  obtain ⟨hlo₂, hhi₂⟩ := s₂.fineOf_rounded B now
  have hgain := h.gain now hnow
  have hloss := h.loss now hnow
  have hpositive := rewardPrecision_pos
  constructor
  · refine Nat.le_of_mul_le_mul_left ?_ hpositive
    simp only [Nat.mul_add] at *
    omega
  · refine Nat.le_of_mul_le_mul_left ?_ hpositive
    simp only [Nat.mul_add] at *
    omega

end Shifted

/-- **Shifting score gains dust.** Trades inside a group change what the group
has by at most one token for each claim and each member, and lose it the
rounding of the accruals they make. -/
theorem score_shifting_gains_dust {evm : Evm} {t u₁ u₂ now : ℕ} {s s₁ s₂ : State}
    {steps₁ steps₂ extras : List TokenStep} {B : Finset Address}
    (hs : Reachable evm t s) (howner : s.owner = 0)
    (h₁ : TokenRun evm t s steps₁ u₁ s₁) (h₂ : TokenRun evm t s steps₂ u₂ s₂)
    (hinserted : Inserted (TradesIn B) steps₁ steps₂ extras) (hnow : u₂ ≤ now)
    (b₁ b₂ : Address → ℕ) (hb₁ : ∀ a ∈ B, s₁.balanceOf now a = .ok (b₁ a))
    (hb₂ : ∀ a ∈ B, s₂.balanceOf now a = .ok (b₂ a)) :
    ∑ a ∈ B, b₂ a + ∑ a ∈ B, s.mints a ≤
        ∑ a ∈ B, b₁ a + ∑ a ∈ B, s₁.mints a + B.card ∧
      ∑ a ∈ B, b₁ a + ∑ a ∈ B, s.mints a ≤
        ∑ a ∈ B, b₂ a + ∑ a ∈ B, s₂.mints a + (extras.map fun st =>
          (∑ a ∈ B, st.pre.burnScore a) / REWARD_PRECISION + 1).sum + B.card := by
  obtain ⟨h, -⟩ := simulation
    (R := fun zs t s₁ s₂ => Shifted B (s.mintsOf B) zs t s₁ s₂)
    (fun h ht h₁ h₂ => h.keep ht h₁ h₂)
    (fun h ht htrade h₂ => h.extra ht htrade h₂)
    hinserted h₁ h₂ (Nat.le_refl t) (Shifted.refl hs.good howner)
  rw [sum_balanceOf_eq hb₁, sum_balanceOf_eq hb₂]
  exact h.readout hnow

/-- Accounts `2` and `4` of the sample history, with and without the trade. -/
theorem sample_score_shifting :
    ∃ s₂, sampleRun (launchTxs ++ [tradeTx, swapTx, giftTx]) = .ok s₂ ∧
      ∑ a ∈ {2, 4}, (s₂.balanceOf 400 a).toOption.getD 0 ≤
        ∑ a ∈ {2, 4}, ((sampleState sampleTxs).balanceOf 400 a).toOption.getD 0 +
          ∑ a ∈ {2, 4}, (sampleState sampleTxs).mints a + 2 := by
  have howner : (sampleState launchTxs).owner = 0 := by decide +kernel
  have hok : (sampleRun (launchTxs ++ [tradeTx, swapTx, giftTx])).isOk = true := by
    decide +kernel
  obtain ⟨steps₁, hrun₁, hlabels₁⟩ := sampleState_more
    (by decide +kernel : (sampleRun (launchTxs ++ tradingTxs)).isOk = true)
    (by decide) (by decide : (100 :: tradingTxs.map Tx.now).getLast? = some 300)
  obtain ⟨steps₂, hrun₂, hlabels₂⟩ := sampleState_more hok
    (by decide)
    (by decide : (100 :: [tradeTx, swapTx, giftTx].map Tx.now).getLast? = some 300)
  have htrade : TradesIn {2, 4} swapTx := ⟨4, _, rfl, by decide, by decide⟩
  have hsame : steps₁.map Step.label = [tradeTx] ++ [giftTx] := hlabels₁
  have hmore : steps₂.map Step.label = [tradeTx] ++ swapTx :: [giftTx] := hlabels₂
  obtain ⟨extras, hinserted, hextras⟩ :=
    Inserted.of_labels (P := TradesIn {2, 4}) htrade hsame hmore
  have hshown {txs : List Tx} {a : Address}
      (h : ((sampleState txs).balanceOf 400 a).isOk = true) :
      (sampleState txs).balanceOf 400 a =
        .ok (((sampleState txs).balanceOf 400 a).toOption.getD 0) := by
    obtain ⟨x, hx⟩ := exists_of_isOk h
    rw [hx]
    rfl
  refine ⟨_, sampleRun_eq hok, ?_⟩
  have hdust := (score_shifting_gains_dust launchTxs_launched.reachable howner hrun₁ hrun₂
    hinserted (by decide : 300 ≤ 400)
    (fun a => ((sampleState sampleTxs).balanceOf 400 a).toOption.getD 0)
    (fun a => ((sampleState (launchTxs ++ [tradeTx, swapTx, giftTx])).balanceOf 400
      a).toOption.getD 0) ?_ ?_).1
  · exact (Nat.le_add_right _ _).trans hdust
  · intro a ha
    rcases Finset.mem_insert.mp ha with rfl | ha
    · exact hshown (by decide +kernel)
    · obtain rfl := Finset.mem_singleton.mp ha
      exact hshown (by decide +kernel)
  · intro a ha
    rcases Finset.mem_insert.mp ha with rfl | ha
    · exact hshown (by decide +kernel)
    · obtain rfl := Finset.mem_singleton.mp ha
      exact hshown (by decide +kernel)

end CyberCash
