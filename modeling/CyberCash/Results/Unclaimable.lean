import CyberCash.Results.Distribution

/-!
# What nobody can claim

The unit that `totalBurned` starts with belongs to no account, and what it
earns stays where it is. Accruals and claims never take the index back, so the
part of the supply behind that unit is out of reach at every later moment. Up
to the first burn there is no other unit, and whatever is created until then is
lost to the holders for good, though the supply counts it.
-/

namespace CyberCash

open Solidity State TimedRun

/-! ## The index along a run -/

/-- A call leaves the index of its own time where it is. -/
theorem Effect.indexAt {s s' : State} {tx : Tx} (he : Effect s tx s')
    (hinv : Inv s) (howner : s.owner = 0) :
    s'.indexAt tx.now = s.indexAt tx.now := by
  cases hcall : tx.call.isApproval with
  | true => exact indexAt_reapproves (he.of_approval hcall) tx.now
  | false =>
      rw [indexAt_self (he.accrues hinv howner hcall)]
      exact he.index hinv howner hcall

/-- The index has come as far as `i`. -/
structure IndexFrom (i t : ℕ) (s : State) : Prop where
  good : Good t s
  owner : s.owner = 0
  index : i ≤ s.indexAt t

/-- **Step lemma.** The index never goes back. -/
theorem IndexFrom.next {evm : Evm} {i t : ℕ} {s s' : State} {tx : Tx}
    (h : IndexFrom i t s) (ht : t ≤ tx.now) (hnext : Next evm s tx s') :
    IndexFrom i tx.now s' := by
  have hg := h.good.later ht
  have he := step_effect hg hnext
  refine ⟨h.good.next ht hnext, (he.frozen h.owner).1, ?_⟩
  rw [he.indexAt hg.inv h.owner]
  exact h.index.trans (s.indexAt_mono ht)

/-- **Run lemma.** What the index has reached it keeps. -/
theorem TokenRun.indexAt_le {evm : Evm} {t t' now : ℕ} {s s' : State}
    {steps : List TokenStep} (hrun : TokenRun evm t s steps t' s') (hg : Good t s)
    (howner : s.owner = 0) (ht : t' ≤ now) : s.indexAt t ≤ s'.indexAt now := by
  have h : IndexFrom (s.indexAt t) t' s' :=
    hrun.invariant (fun h ht hnext => h.next ht hnext) ⟨hg, howner, Nat.le_refl _⟩
  exact h.index.trans (s'.indexAt_mono ht)

/-! ## Before the first burn -/

/-- While nothing is burned, all that is created goes to the unit that nobody
holds. -/
structure Unshared (t₀ t : ℕ) (s : State) : Prop where
  good : Good t s
  owner : s.owner = 0
  since : t₀ ≤ t
  index : s.totalBurned = 1 → ∀ now, t ≤ now →
    s.indexAt now = REWARD_PRECISION * (MINT_PER_SECOND * (now - t₀))

theorem growth_one (d : ℕ) : growth 1 d = REWARD_PRECISION * (MINT_PER_SECOND * d) := by
  unfold growth
  rw [Nat.div_one, Nat.mul_comm]

namespace Unshared

variable {evm : Evm} {t₀ t now : ℕ} {s s' : State} {tx : Tx}

theorem start (h : Launched evm t₀ s) : Unshared t₀ t₀ s := by
  have hstart := h.start
  refine ⟨hstart.good, hstart.owner, Nat.le_refl t₀, ?_⟩
  intro hone now _
  rw [indexAt_fresh hstart.owner hstart.clock now, indexAt_self hstart.clock,
    h.index_zero, hone, Nat.zero_add, growth_one]

/-- **Step lemma.** Nothing was burned before, and the accrual of the call
starts a new interval with the old divisor. -/
theorem next (h : Unshared t₀ t s) (ht : t ≤ tx.now) (hnext : Next evm s tx s') :
    Unshared t₀ tx.now s' := by
  have hg := h.good.later ht
  have he := step_effect hg hnext
  have howner := (he.frozen h.owner).1
  refine ⟨h.good.next ht hnext, howner, h.since.trans ht, ?_⟩
  intro hone now hnow
  have hbefore : s.totalBurned = 1 := by
    have hburned := (he.flows hg).burned
    have hpos := hg.inv.totalBurned_pos
    omega
  have hindex := h.index hbefore
  cases hcall : tx.call.isApproval with
  | true =>
      rw [indexAt_reapproves (he.of_approval hcall)]
      exact hindex now (ht.trans hnow)
  | false =>
      have hclock := he.accrues hg.inv h.owner hcall
      have hsince := h.since
      have hsplit : now - t₀ = tx.now - t₀ + (now - tx.now) := by omega
      rw [indexAt_fresh howner hclock, he.indexAt hg.inv h.owner, hindex tx.now ht, hone,
        growth_one, ← Nat.mul_add, ← Nat.mul_add, hsplit]

end Unshared

/-- **What nobody can claim** once, nobody can claim later: `s₁` is any state
after the launch and `t'` any moment before its next transaction. And if there
has been no burn by then, that is all the inflation of the time since the
launch. -/
theorem unclaimable_stays {evm : Evm} {t₀ t₁ t' t now : ℕ} {s₀ s₁ s : State}
    {early late : List TokenStep} (h₀ : Launched evm t₀ s₀)
    (hearly : TokenRun evm t₀ s₀ early t₁ s₁) (ht' : t₁ ≤ t')
    (hlate : TokenRun evm t' s₁ late t s) (ht : t ≤ now)
    {supply : ℕ} {balance : Address → ℕ} (hsupply : s.totalSupply now = .ok supply)
    (hbalance : ∀ a, s.balanceOf now a = .ok (balance a)) :
    REWARD_PRECISION * ∑ a, balance a + s₁.indexAt t' ≤ REWARD_PRECISION * supply ∧
      (s₁.totalBurned = 1 →
        ∑ a, balance a + MINT_PER_SECOND * (t' - t₀) ≤ supply) := by
  have hmiddle : Distributed early t₁ s₁ :=
    hearly.history (fun h ht hnext => h.next ht hnext) (Distributed.start h₀)
  have hlast : Distributed (early ++ late) t s := by
    refine hlate.history (I := fun past t s => Distributed (early ++ past) t s) ?_ ?_
    · intro past t s tx s' h ht hnext
      rw [← List.append_assoc]
      exact h.next ht hnext
    · rw [List.append_nil]
      exact ⟨hmiddle.good.later ht', hmiddle.owner, hmiddle.shared, hmiddle.index⟩
  have hindex : s₁.indexAt t' ≤ s.indexAt now :=
    hlate.indexAt_le (hmiddle.good.later ht') hmiddle.owner ht
  have hshown : ∑ a, balance a = ∑ a, s.balanceAt now a :=
    sum_balanceOf_eq fun a _ => hbalance a
  have hgap : REWARD_PRECISION * ∑ a, balance a + s₁.indexAt t' ≤
      REWARD_PRECISION * supply := by
    rw [totalSupply_eq hsupply, hshown]
    exact (Nat.add_le_add_left hindex _).trans (hlast.readout now).1
  refine ⟨hgap, ?_⟩
  intro hone
  have hunshared : Unshared t₀ t₁ s₁ :=
    hearly.invariant (fun h ht hnext => h.next ht hnext) (Unshared.start h₀)
  rw [hunshared.index hone t' ht', ← Nat.mul_add] at hgap
  exact Nat.le_of_mul_le_mul_left hgap rewardPrecision_pos

/-- In the sample history the hundred seconds from the launch to the first burn. -/
theorem sample_unclaimable :
    ∑ a, (sampleState sampleTxs).balanceAt 400 a + MINT_PER_SECOND * (200 - 100) ≤
      10000009512237595129375951200 := by
  obtain ⟨steps, hrun, -⟩ := sampleState_more
    (by decide +kernel : (sampleRun (launchTxs ++ tradingTxs)).isOk = true)
    (by decide : (200 :: tradingTxs.map Tx.now).IsChain (· ≤ ·))
    (by decide : (200 :: tradingTxs.map Tx.now).getLast? = some 300)
  have hsupply : (sampleState sampleTxs).totalSupply 400 =
      .ok 10000009512237595129375951200 := by decide +kernel
  have hfits := sampleTxs_reachable.good.fits (by decide : 300 ≤ 400) (by decide)
  exact (unclaimable_stays launchTxs_launched .nil (by decide) hrun (by decide) hsupply
    hfits.balanceOf).2 (by decide +kernel)

end CyberCash
