import CyberCash.Results.ProRata
import CyberCash.Results.Inflation
import CyberCash.Results.LogReplay
import Mathlib.Algebra.BigOperators.Group.List.Basic

/-!
# Where a balance comes from

From the launch on, the balance an account is shown is what it was shown then,
and what it received, less what it gave, and its income. The income is its share
of the inflation, up to the rounding of the index and of its own claims. So no
strategy, alone or in concert with others, gains more than the inflation.
-/

namespace CyberCash

open Solidity Function State TimedRun

/-! ## Claims move a quantity into the log -/

/-- `g` is what is still to be claimed of what `f` counts: a claim moves it into
the log and nothing else touches it. -/
structure ClaimedFrom (now : ℕ) (f : Event → ℕ) (g : State → ℕ) : Prop where
  special : Special f
  burn : ∀ y, f (.burnedTokensFromLP y) = 0
  settle : ∀ {s : State}, Inv s → ∀ a,
    g (s.settle now a) + f (.rewardsClaimed a (s.rewardsAt now a)) = g s
  levy : ∀ {s : State} {src : Address}, s.lastMintTime = now →
    s.userRewardsPerTokenBurned src = s.rewardsPerTokenBurned →
      ∀ x, g (s.levy src x) = g s
  pay : ∀ (s : State) src dst x, g (s.pay src dst x) = g s
  moveScore : ∀ (s : State) src dst n,
    g (s.moveScore now src dst n) = g ((s.settle now src).settle now dst)
  reapproves : ∀ {s s' : State}, s.Reapproves s' → g s' = g s

namespace ClaimedFrom

variable {now : ℕ} {f : Event → ℕ} {g : State → ℕ} {s s' : State}

theorem total_settle (h : ClaimedFrom now f g) (hinv : Inv s) (a : Address) :
    (s.settle now a).tally f + g (s.settle now a) = s.tally f + g s := by
  have hclaim := h.settle hinv a
  rw [tally_settle h.special]
  omega

theorem total_send (h : ClaimedFrom now f g) (hinv : Inv s) (hpool : s.liquidityPool ≠ 0)
    (src dst : Address) (x : ℕ) :
    (s.send now src dst x).tally f + g (s.send now src dst x) = s.tally f + g s := by
  have hsettle := h.total_settle hinv src
  rcases s.send_cases now src dst x with
    ⟨hnone, -, -⟩ | ⟨-, -, hsend⟩ | ⟨-, -, hsend⟩
  · exact absurd hnone hpool
  · rw [hsend, tally_pay h.special, tally_levy h.special, h.burn, h.pay,
      h.levy (settle_lastMintTime s now src) (settle_settled s now src)]
    exact hsettle
  · rw [hsend, tally_pay h.special, h.pay]
    exact hsettle

/-- **Step lemma.** -/
theorem effect {tx : Tx} (h : ClaimedFrom tx.now f g) (hg : Good tx.now s)
    (howner : s.owner = 0) (he : Effect s tx s') : s'.tally f + g s' = s.tally f + g s := by
  cases he with
  | launch _ hsender => exact absurd (hsender.trans howner) tx.msg.sender_ne_zero
  | reapprove _ hs => rw [tally_reapproves h.special hs, h.reapproves hs]
  | @send src dst x _ _ _ _ _ _ =>
      have hs := s.charge_reapproves tx
      have hpool := hg.inv.charge_launched howner tx
      rw [h.total_send (hg.charge tx).inv hpool, tally_reapproves h.special hs,
        h.reapproves hs]
  | @moveScore dst n =>
      rw [tally_moveScore, h.moveScore,
        h.total_settle (hg.inv.settle hg.clock tx.sender), h.total_settle hg.inv]

end ClaimedFrom

/-! ## The income of one account and of all -/

namespace State

/-- All rewards of an account so far, claimed or not. -/
def earned (s : State) (now : ℕ) (a : Address) : ℕ := s.claimed a + s.rewardsAt now a

/-- What has been set aside for rewards and not been claimed. -/
def unclaimed (s : State) (now : ℕ) : ℕ := s.pendingMints + s.accrued now

end State

theorem claimedFrom_account (now : ℕ) (a : Address) :
    ClaimedFrom now (Event.amountClaimed a) (·.rewardsAt now a) where
  special := special_amountClaimed a
  burn _ := rfl
  settle {s} _ b := by
    show (s.settle now b).rewardsAt now a + (if b = a then s.rewardsAt now b else 0) = _
    rw [rewardsAt_eq, claimAt_settle]
    by_cases hb : b = a
    · rw [hb, update_self, if_pos rfl, Nat.zero_div, Nat.zero_add]
    · rw [update_of_ne (Ne.symm hb), if_neg hb, ← rewardsAt_eq, Nat.add_zero]
  levy hclock hsettled x := by
    rw [rewardsAt_eq, claimAt_levy hclock hsettled, ← rewardsAt_eq]
  pay s src dst x := by
    rw [rewardsAt_eq, claimAt_pay, ← rewardsAt_eq]
  moveScore s src dst n := by
    rw [rewardsAt_eq, claimAt_moveScore, ← rewardsAt_eq]
  reapproves hs := rewardsAt_reapproves hs now a

theorem special_amountRewarded : Special Event.amountRewarded := by
  intro e he
  cases e with
  | rewardsClaimed user amount => exact Bool.noConfusion he
  | _ => rfl

theorem unclaimed_congr {s s' : State} (hpending : s'.pendingMints = s.pendingMints)
    (howner : s'.owner = s.owner) (hclock : s'.lastMintTime = s.lastMintTime) (now : ℕ) :
    s'.unclaimed now = s.unclaimed now := by
  unfold unclaimed accrued
  rw [hpending, howner, hclock]

theorem claimedFrom_all (now : ℕ) :
    ClaimedFrom now Event.amountRewarded (·.unclaimed now) where
  special := special_amountRewarded
  burn _ := rfl
  settle {s} hinv a := by
    have howed := hinv.rewardsAt_le now a
    have hfresh : (s.settle now a).accrued now = 0 := accrued_self rfl
    have hpending : (s.settle now a).pendingMints =
        s.pendingMints + s.accrued now - s.rewardsAt now a := rfl
    have hcount (r : ℕ) : Event.amountRewarded (.rewardsClaimed a r) = r := rfl
    unfold unclaimed
    rw [hfresh, hpending, hcount]
    omega
  levy _ _ _ := unclaimed_congr rfl rfl rfl now
  pay _ _ _ _ := unclaimed_congr rfl rfl rfl now
  moveScore _ _ _ _ := unclaimed_congr rfl rfl rfl now
  reapproves hs := by
    obtain ⟨_, _, _, rfl, -⟩ := hs
    exact unclaimed_congr rfl rfl rfl now

/-- What an account has earned, against its exact share of the inflation. -/
theorem Refines.earned {a : Address} {past : List TokenStep} {t : ℕ} {s : State}
    (h : Refines a past t s) (now : ℕ) :
    (s.earned now a : ℚ) ≤ ideal (intervals a past s now) ∧
      ideal (intervals a past s now) - s.earned now a ≤
        indexDust (intervals a past s now) + s.mints a + 1 := by
  obtain ⟨hlo, hhi⟩ := h.readout now
  have hprecision : (0 : ℚ) < REWARD_PRECISION := by
    exact_mod_cast rewardPrecision_pos
  have hwhole : REWARD_PRECISION * s.earned now a =
      REWARD_PRECISION * s.claimed a + LazyIndex.whole REWARD_PRECISION (s.claimAt now a) :=
    Nat.mul_add _ _ _
  have hdown := LazyIndex.whole_le REWARD_PRECISION (s.claimAt now a)
  have hlost := LazyIndex.le_whole_add rewardPrecision_pos (s.claimAt now a)
  have hle : REWARD_PRECISION * s.earned now a ≤ s.earnedAt now a := by
    unfold earnedAt
    omega
  have hge : s.earnedAt now a ≤ REWARD_PRECISION * (s.earned now a + 1) := by
    unfold earnedAt
    rw [Nat.mul_succ]
    omega
  have hle' : (REWARD_PRECISION : ℚ) * s.earned now a ≤ s.earnedAt now a := by
    exact_mod_cast hle
  have hge' : (s.earnedAt now a : ℚ) ≤ REWARD_PRECISION * (s.earned now a + 1) := by
    exact_mod_cast hge
  constructor
  · exact le_of_mul_le_mul_left (hle'.trans hlo) hprecision
  · rw [sub_le_iff_le_add]
    refine le_of_mul_le_mul_left (hhi.trans ?_) hprecision
    linarith

/-- Claims of different accounts are different entries. -/
theorem sum_claimed_le (s : State) (A : Finset Address) :
    ∑ a ∈ A, s.claimed a ≤ s.tally Event.amountRewarded := by
  have hentry (e : Event) : ∑ a ∈ A, e.amountClaimed a ≤ e.amountRewarded := by
    cases e with
    | rewardsClaimed user amount =>
        show ∑ a ∈ A, (if user = a then amount else 0) ≤ amount
        rw [Finset.sum_ite_eq]
        split
        · exact Nat.le_refl _
        · exact Nat.zero_le _
    | _ => exact (Finset.sum_const_zero).le
  unfold claimed tally
  generalize s.logs = entries
  induction entries with
  | nil => exact (Finset.sum_const_zero).le
  | cons e entries ih =>
      simp only [List.map_cons, List.sum_cons, Finset.sum_add_distrib]
      exact Nat.add_le_add (hentry e) ih

theorem Inv.sum_earned_le {s : State} (h : Inv s) (now : ℕ) (A : Finset Address) :
    ∑ a ∈ A, s.earned now a ≤ s.tally Event.amountRewarded + s.unclaimed now := by
  have howed : ∑ a ∈ A, s.rewardsAt now a ≤ s.unclaimed now :=
    (h.soundAt now).sum_pending_le rewardPrecision_pos A
  calc ∑ a ∈ A, s.earned now a
      = ∑ a ∈ A, s.claimed a + ∑ a ∈ A, s.rewardsAt now a := Finset.sum_add_distrib
    _ ≤ s.tally Event.amountRewarded + s.unclaimed now :=
        Nat.add_le_add (sum_claimed_le s A) howed

/-! ## Along a run -/

/-- What left an account: what it paid and, for the pool, what was burned of it. -/
def given (a : Address) (steps : List TokenStep) : ℕ :=
  (steps.map fun st => st.label.pays a + st.pre.poolLoss st.label a).sum

/-- What an account received, after tax. -/
def received (a : Address) (steps : List TokenStep) : ℕ :=
  (steps.map fun st => st.pre.receives st.label a).sum

section Runs

variable {evm : Evm} {t₀ t t' now : ℕ} {s₀ s s' : State} {tx : Tx}
  {steps : List TokenStep}

/-- **Step lemma.** What is held changes by the flows and the claim. -/
theorem Effect.held (hg : Good tx.now s) (howner : s.owner = 0) (he : Effect s tx s')
    (a : Address) :
    s'._balances a + (tx.pays a + s.poolLoss tx a) + s.claimed a =
      s._balances a + s.receives tx a + s'.claimed a := by
  have hshown := (he.flows hg).balance a
  have hearned : s'.claimed a + s'.rewardsAt tx.now a =
      s.claimed a + s.rewardsAt tx.now a :=
    (claimedFrom_account tx.now a).effect hg howner he
  unfold balanceAt at hshown
  omega

/-- **Run lemma.** -/
theorem TokenRun.held (hg : Good t s) (howner : s.owner = 0)
    (hrun : TokenRun evm t s steps t' s') (a : Address) :
    s'._balances a + given a steps + s.claimed a =
      s._balances a + received a steps + s'.claimed a := by
  unfold given received
  induction hrun with
  | nil => rfl
  | @cons t t' s s₁ s' tx steps ht hnext _ ih =>
      have hg' := hg.later ht
      have he := step_effect hg' hnext
      have hhead := he.held hg' howner a
      have htail := ih (hg.next ht hnext) (he.frozen howner).1
      simp only [List.map_cons, List.sum_cons]
      omega

/-- Everything set aside since the launch, claimed or not. -/
structure SetAside (t₀ t : ℕ) (s : State) : Prop where
  good : Good t s
  owner : s.owner = 0
  since : t₀ ≤ t
  total : s.tally Event.amountRewarded + s.unclaimed t = MINT_PER_SECOND * (t - t₀)

theorem SetAside.start (h : Start t₀ s) : SetAside t₀ t₀ s := by
  have hfresh : s.accrued t₀ = 0 := accrued_self h.clock
  refine ⟨h.good, h.owner, Nat.le_refl _, ?_⟩
  unfold unclaimed
  rw [tally_quiet special_amountRewarded h.quiet, h.pending, hfresh, Nat.sub_self,
    Nat.mul_zero]

theorem SetAside.later (h : SetAside t₀ t s) (ht : t ≤ now) :
    s.tally Event.amountRewarded + s.unclaimed now = MINT_PER_SECOND * (now - t₀) := by
  have hsince := h.since
  have htotal := h.total
  have helapsed : MINT_PER_SECOND * (now - t₀) =
      MINT_PER_SECOND * (t - t₀) + MINT_PER_SECOND * (now - t) := by
    rw [← Nat.mul_add]
    congr 1
    omega
  unfold unclaimed at htotal ⊢
  rw [accrued_split h.owner h.good.clock ht, helapsed]
  omega

theorem SetAside.next (h : SetAside t₀ t s) (ht : t ≤ tx.now) (hnext : Next evm s tx s') :
    SetAside t₀ tx.now s' := by
  have hg := h.good.later ht
  have he := step_effect hg hnext
  refine ⟨h.good.next ht hnext, (he.frozen h.owner).1, h.since.trans ht, ?_⟩
  rw [(claimedFrom_all tx.now).effect hg h.owner he]
  exact h.later ht

end Runs

/-- **Where a balance comes from.** From the launch on, what an account is shown
and all it gave are what it was shown at the launch, all it received and its
income; the income is its exact share of the inflation up to rounding, and the
income of all accounts of a set together is within the inflation. -/
theorem balance_is_flows_and_income {evm : Evm} {t₀ t now : ℕ} {s₀ s : State}
    {steps : List TokenStep} (h₀ : Launched evm t₀ s₀)
    (hrun : TokenRun evm t₀ s₀ steps t s) (ht : t ≤ now) :
    (∀ a before after, s₀.balanceOf t₀ a = .ok before → s.balanceOf now a = .ok after →
      let income : ℚ := ((after + given a steps : ℕ) : ℚ) - (before + received a steps : ℕ)
      0 ≤ income ∧ income ≤ ideal (intervals a steps s now) ∧
        ideal (intervals a steps s now) - income ≤
          indexDust (intervals a steps s now) + s.mints a + 1) ∧
    ∀ (A : Finset Address) (before after : Address → ℕ),
      (∀ a ∈ A, s₀.balanceOf t₀ a = .ok (before a)) →
      (∀ a ∈ A, s.balanceOf now a = .ok (after a)) →
      ∑ a ∈ A, (after a + given a steps) ≤
        ∑ a ∈ A, (before a + received a steps) + MINT_PER_SECOND * (now - t₀) := by
  have hstart := h₀.start
  have hsum (a : Address) (before after : ℕ) (hbefore : s₀.balanceOf t₀ a = .ok before)
      (hafter : s.balanceOf now a = .ok after) :
      after + given a steps = before + received a steps + s.earned now a := by
    have hheld := TokenRun.held hstart.good hstart.owner hrun a
    have hnone : s₀.claimed a = 0 := tally_quiet (special_amountClaimed a) hstart.quiet
    rw [balanceOf_eq hbefore, balanceOf_eq hafter, balanceAt_of_idle (hstart.idle a)]
    unfold balanceAt State.earned
    omega
  have hrefines (a : Address) : Refines a steps t s :=
    hrun.history (fun h ht hnext => h.next ht hnext) (Refines.start hstart a)
  have haside : SetAside t₀ t s :=
    hrun.invariant (fun h ht hnext => h.next ht hnext) (SetAside.start hstart)
  constructor
  · intro a before after hbefore hafter
    have hincome : ((after + given a steps : ℕ) : ℚ) - (before + received a steps : ℕ) =
        s.earned now a := by
      rw [hsum a before after hbefore hafter, Nat.cast_add _ (s.earned now a)]
      exact add_sub_cancel_left _ _
    dsimp only
    rw [hincome]
    exact ⟨Nat.cast_nonneg _, (hrefines a).earned now⟩
  · intro A before after hbefore hafter
    calc ∑ a ∈ A, (after a + given a steps)
        = ∑ a ∈ A, (before a + received a steps + s.earned now a) :=
          Finset.sum_congr rfl fun a ha =>
            hsum a (before a) (after a) (hbefore a ha) (hafter a ha)
      _ = ∑ a ∈ A, (before a + received a steps) + ∑ a ∈ A, s.earned now a :=
          Finset.sum_add_distrib
      _ ≤ ∑ a ∈ A, (before a + received a steps) + MINT_PER_SECOND * (now - t₀) := by
          rw [← haside.later ht]
          exact Nat.add_le_add_left (haside.good.inv.sum_earned_le now A) _

/-- Accounts `2` and `3` of the sample history, five minutes after the launch. -/
theorem sample_income :
    ∃ steps : List TokenStep, steps.map Step.label = tradingTxs ∧
      ∑ a ∈ {2, 3}, ((((sampleState sampleTxs).balanceOf 400 a).toOption.getD 0) +
          given a steps) ≤
        ∑ a ∈ {2, 3}, ((((sampleState launchTxs).balanceOf 100 a).toOption.getD 0) +
          received a steps) + MINT_PER_SECOND * (400 - 100) := by
  obtain ⟨steps, hrun, hlabels⟩ := sampleState_more
    (by decide +kernel : (sampleRun (launchTxs ++ tradingTxs)).isOk = true)
    (by decide) (by decide : (100 :: tradingTxs.map Tx.now).getLast? = some 300)
  have hincome := (balance_is_flows_and_income launchTxs_launched hrun
    (by decide : 300 ≤ 400)).2 {2, 3}
      (fun a => ((sampleState launchTxs).balanceOf 100 a).toOption.getD 0)
      (fun a => ((sampleState sampleTxs).balanceOf 400 a).toOption.getD 0)
  refine ⟨steps, hlabels, hincome ?_ ?_⟩
  · intro a ha
    rcases Finset.mem_insert.mp ha with rfl | ha
    · decide +kernel
    · rw [Finset.mem_singleton.mp ha]
      decide +kernel
  · intro a ha
    rcases Finset.mem_insert.mp ha with rfl | ha
    · decide +kernel
    · rw [Finset.mem_singleton.mp ha]
      decide +kernel

end CyberCash
