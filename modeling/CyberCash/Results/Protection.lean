import CyberCash.Results.BurnScore

/-!
# Nobody else can take your tokens

What an account is shown depends on global quantities that every transaction
of every user changes. Still a transaction never lowers what another account
is shown, at any later moment, nor its score. The liquidity pool is the one
exception, and its loss is capped.
-/

namespace CyberCash

open Solidity Function State TimedRun

namespace State

variable {s s' : State} {tx : Tx} {a : Address}

theorem pays_of_other (h : ∀ dst x, tx.movement ≠ some (a, dst, x)) :
    tx.pays a = 0 := by
  unfold Tx.pays
  split
  · next src dst x hmove =>
      rw [if_neg]
      rintro rfl
      exact h dst x hmove
  · rfl

theorem poolLoss_of_other (h : s.liquidityPool ≠ 0 → a ≠ s.liquidityPool) :
    s.poolLoss tx a = 0 := by
  unfold poolLoss
  split
  · next hpool =>
      -- the address is the pool's, so there is none and nothing is taxed
      rcases s.due_cases tx with ⟨-, hdue⟩ | ⟨src, dst, x, -, htaxed, -⟩
      · exact hdue
      · have hnone : s.liquidityPool = 0 := by
          by_contra hset
          exact h hset hpool
        rw [not_taxed_of_no_pool hnone] at htaxed
        exact Bool.noConfusion htaxed
  · rfl

end State

/-- What a transaction at `now` cannot do to the balance of another account,
read at any time before and any time after. -/
theorem Flows.balance_le {s s' : State} {tx : Tx} {t₁ t₂ : ℕ} {a : Address}
    (h : Flows s tx s') (h₁ : t₁ ≤ tx.now) (h₂ : tx.now ≤ t₂)
    (hpays : tx.pays a = 0) (hloss : s.poolLoss tx a = 0) :
    s.balanceAt t₁ a ≤ s'.balanceAt t₂ a := by
  have hbalance := h.balance a
  rw [hpays, hloss, Nat.add_zero] at hbalance
  calc s.balanceAt t₁ a
      ≤ s.balanceAt tx.now a := s.balanceAt_mono h₁ a
    _ ≤ s.balanceAt tx.now a + s.receives tx a := Nat.le_add_right _ _
    _ = s'.balanceAt tx.now a := hbalance.symm
    _ ≤ s'.balanceAt t₂ a := s'.balanceAt_mono h₂ a

theorem poolBurn_le_share (s : State) (x : ℕ) : s.poolBurn x ≤ 2 * x / 1000 := by
  unfold poolBurn poolShare BURN_FROM_LP BURN_PRECISION
  rw [Nat.mul_comm 2 x]
  exact Nat.min_le_left _ _

theorem reserve_le_poolBurn (s : State) (x : ℕ) :
    min (s._balances s.liquidityPool) RESERVE_BUFFER + s.poolBurn x ≤
      s._balances s.liquidityPool := by
  have hclamp : s.poolBurn x ≤ s._balances s.liquidityPool - RESERVE_BUFFER := by
    unfold poolBurn
    exact Nat.min_le_right _ _
  omega

/-- **Nobody else can take your tokens, rewards or score.** The balances are
read at any two moments around the call; at 64-bit timestamps they can be. -/
theorem others_cannot_take {evm : Evm} {t : ℕ} {s s' : State} {tx : Tx}
    (hs : Reachable evm t s) (ht : t ≤ tx.now)
    (hstep : step evm s tx = .ok s') :
    (∀ a, (s.liquidityPool ≠ 0 → a ≠ s.liquidityPool) →
      (∀ dst x, tx.movement ≠ some (a, dst, x)) →
      ∀ t₁ t₂ before after, t ≤ t₁ → t₁ ≤ tx.now → tx.now ≤ t₂ →
        s.balanceOf t₁ a = .ok before → s'.balanceOf t₂ a = .ok after →
          before ≤ after) ∧
    (∀ a, s'.burnScore a < s.burnScore a →
      tx.sender = a ∧ ∃ dst n, tx.call = .transferBurnScore dst n) ∧
    (s.liquidityPool ≠ 0 →
      (∀ dst x, tx.movement ≠ some (s.liquidityPool, dst, x)) →
      ∀ t₁ t₂ before after, t ≤ t₁ → t₁ ≤ tx.now → tx.now ≤ t₂ →
        s.balanceOf t₁ s.liquidityPool = .ok before →
        s'.balanceOf t₂ s.liquidityPool = .ok after →
        min before RESERVE_BUFFER ≤ after ∧
        (after < before → ∃ src dst x,
          tx.movement = some (src, dst, x) ∧ s.taxed src dst = true ∧
            before ≤ after + 2 * x / 1000)) ∧
    (∀ a t₁ t₂, t ≤ t₁ → tx.now ≤ t₂ → t₁ < 2 ^ 64 → t₂ < 2 ^ 64 →
      (∃ x, s.balanceOf t₁ a = .ok x) ∧ ∃ x, s'.balanceOf t₂ a = .ok x) := by
  have hg := hs.good
  have he := step_effect (hg.later ht) hstep
  have hflows := he.flows (hg.later ht)
  refine ⟨?_, ?_, ?_, ?_⟩
  · intro a hpool hother t₁ t₂ before after _ h₁ h₂ hbefore hafter
    rw [balanceOf_eq hbefore, balanceOf_eq hafter]
    exact hflows.balance_le h₁ h₂ (pays_of_other hother) (poolLoss_of_other hpool)
  · intro a hless
    have hscore := hflows.score a
    have hyields : tx.yields a ≠ 0 := by omega
    unfold Tx.yields at hyields
    split at hyields
    · next dst n hcall =>
        refine ⟨?_, dst, n, hcall⟩
        by_contra hne
        exact hyields (if_neg (Ne.symm hne))
    · exact absurd rfl hyields
  · intro hpool hother t₁ t₂ before after _ h₁ h₂ hbefore hafter
    -- the pool is the same pool afterwards, so it is shown what it holds
    have hinv' := (hg.next ht hstep).inv
    have hsame := (he.frozen (hg.inv.launched hpool)).2.1
    have hidle' : s'.burnScore s.liquidityPool = 0 := by
      rw [← hsame]
      exact hinv'.poolIdle
    have hbalance := hflows.pooled hg.inv hinv' hsame
    rw [pays_of_other hother, Nat.zero_add] at hbalance
    rw [balanceOf_eq hbefore, balanceOf_eq hafter,
      balanceAt_of_idle hg.inv.poolIdle, balanceAt_of_idle hidle']
    rcases s.due_cases tx with ⟨-, hdue⟩ | ⟨src, dst, x, hmove, htaxed, -, hburn⟩
    · rw [hdue, Nat.add_zero] at hbalance
      rw [hbalance]
      exact ⟨(Nat.min_le_left _ _).trans (Nat.le_add_right _ _), fun hless =>
        absurd hless (Nat.not_lt.mpr (Nat.le_add_right _ _))⟩
    · have hshare := poolBurn_le_share s x
      have hreserve := reserve_le_poolBurn s x
      rw [hburn] at hbalance
      exact ⟨by omega, fun _ => ⟨src, dst, x, hmove, htaxed, by omega⟩⟩
  · intro a t₁ t₂ h₁ h₂ hsmall₁ hsmall₂
    exact ⟨⟨_, (hg.fits h₁ hsmall₁).balanceOf a⟩,
      _, ((hg.next ht hstep).fits h₂ hsmall₂).balanceOf a⟩

def paymentTx : Tx := ⟨ownerMsg 400, .transfer 2 1000000#256⟩

/-- What account `3` is shown before and after a payment between two others. -/
theorem sample_bystander_keeps :
    ∃ s' before after,
      step sampleEvm (sampleState sampleTxs) paymentTx = .ok s' ∧
      (sampleState sampleTxs).balanceOf 350 3 = .ok before ∧
      s'.balanceOf 500 3 = .ok after ∧ before ≤ after := by
  obtain ⟨s', hstep⟩ := exists_of_isOk (by decide +kernel :
    (step sampleEvm (sampleState sampleTxs) paymentTx).isOk = true)
  have hs := sampleTxs_reachable
  have hclock : 300 ≤ paymentTx.now := by decide
  obtain ⟨hkeeps, -, -, hreads⟩ := others_cannot_take hs hclock hstep
  obtain ⟨⟨before, hbefore⟩, after, hafter⟩ :=
    hreads 3 350 500 (by decide) (by decide) (by decide) (by decide)
  have hpool : (sampleState sampleTxs).liquidityPool = 100 := by decide +kernel
  refine ⟨s', before, after, hstep, hbefore, hafter, ?_⟩
  refine hkeeps 3 ?_ ?_ 350 500 before after (by decide) (by decide) (by decide)
    hbefore hafter
  · intro _
    rw [hpool]
    decide
  · intro dst x hmove
    obtain ⟨hsrc, -⟩ := Prod.mk.inj (Option.some.inj hmove)
    exact absurd hsrc (by decide)

end CyberCash
