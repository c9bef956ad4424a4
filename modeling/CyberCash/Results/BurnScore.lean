import CyberCash.Semantics.Timeline
import CyberCash.Results.Solvency

/-!
# Burn score

`totalBurned` is the divisor of every reward, and the contract never adds up
the scores it stands for. It is their true sum in every reachable state: the
tax of a transfer grows both by the same amount, and a score move changes
neither, also when an account moves score to itself. A score move settles both
parties first, so no reward moves with the score.
-/

namespace CyberCash

open Solidity Function State TimedRun

theorem taxOf_eq (x : ℕ) : taxOf x = 5 * x / 1000 := by
  unfold taxOf BURN_ON_TRANSFER BURN_PRECISION
  rw [Nat.mul_comm]

namespace State

variable {s : State} {tx : Tx} {src dst a : Address} {x : ℕ}

theorem taxDue_of_taxed (hmove : tx.movement = some (src, dst, x))
    (htaxed : s.taxed src dst = true) : s.taxDue tx = taxOf x := by
  simp [taxDue, hmove, htaxed]

theorem earns_of_taxed (hmove : tx.movement = some (src, dst, x))
    (htaxed : s.taxed src dst = true) (a : Address) :
    s.earns tx a = if a = src then taxOf x else 0 := by
  simp [earns, hmove, taxDue_of_taxed hmove htaxed]

end State

/-- The equations of a taxed transfer, for the scores. -/
theorem Flows.score_of_taxed {s s' : State} {tx : Tx} {src dst : Address}
    {x : ℕ} (h : Flows s tx s') (hmove : tx.movement = some (src, dst, x))
    (htaxed : s.taxed src dst = true) (a : Address) :
    s'.burnScore a = s.burnScore a + if a = src then taxOf x else 0 := by
  have hscore := h.score a
  obtain ⟨hyields, hobtains⟩ := Tx.score_of_movement hmove a
  rwa [hyields, hobtains, earns_of_taxed hmove htaxed] at hscore

/-- **Burn-score conservation.** -/
theorem burn_score_conserved {evm : Evm} {t : ℕ} {s : State}
    (hs : Reachable evm t s) :
    s.totalBurned = 1 + ∑ a, s.burnScore a ∧
    ∀ tx s', t ≤ tx.now → step evm s tx = .ok s' →
      s.totalBurned ≤ s'.totalBurned ∧
      (s.totalBurned < s'.totalBurned → ∃ src dst x,
        tx.movement = some (src, dst, x) ∧ s.taxed src dst = true) ∧
      (∀ src dst x, tx.movement = some (src, dst, x) →
        s.taxed src dst = true →
          s'.totalBurned = s.totalBurned + 5 * x / 1000 ∧
          s'.burnScore src = s.burnScore src + 5 * x / 1000 ∧
          ∀ a, a ≠ src → s'.burnScore a = s.burnScore a) ∧
      (∀ dst n, tx.call = .transferBurnScore dst n →
        s'.totalBurned = s.totalBurned ∧
          ∑ a, s'.burnScore a = ∑ a, s.burnScore a) := by
  have hg := hs.good
  refine ⟨hg.inv.rewards.total, ?_⟩
  intro tx s' ht hstep
  have hflows := (step_effect (hg.later ht) hstep).flows (hg.later ht)
  have hburned := hflows.burned
  refine ⟨hburned ▸ Nat.le_add_right _ _, ?_, ?_, ?_⟩
  · intro hgrows
    rcases s.due_cases tx with ⟨hnone, -⟩ | ⟨src, dst, x, hmove, htaxed, -⟩
    · rw [hburned, hnone] at hgrows
      exact absurd hgrows (Nat.lt_irrefl _)
    · exact ⟨src, dst, x, hmove, htaxed⟩
  · intro src dst x hmove htaxed
    rw [hburned, taxDue_of_taxed hmove htaxed, ← taxOf_eq]
    refine ⟨rfl, ?_, ?_⟩
    · rw [hflows.score_of_taxed hmove htaxed, if_pos rfl]
    · intro a ha
      rw [hflows.score_of_taxed hmove htaxed, if_neg ha, Nat.add_zero]
  · intro dst n hcall
    have hsame : s'.totalBurned = s.totalBurned := by
      rw [hburned, (s.no_flow (Tx.movement_of_score hcall) 0).2.2.2.1, Nat.add_zero]
    have htotal : s.totalBurned = 1 + ∑ a, s.burnScore a := hg.inv.rewards.total
    have htotal' : s'.totalBurned = 1 + ∑ a, s'.burnScore a :=
      (hg.next ht hstep).inv.rewards.total
    exact ⟨hsame, by omega⟩

def selfTransferTx : Tx := ⟨traderMsg 400, .transfer 2 1000#256⟩

/-- A transfer to oneself is taxed like any other. -/
theorem sample_self_transfer_burns :
    ∃ s', step sampleEvm (sampleState sampleTxs) selfTransferTx = .ok s' ∧
      s'.totalBurned = (sampleState sampleTxs).totalBurned + 5 ∧
      s'.burnScore 2 = (sampleState sampleTxs).burnScore 2 + 5 := by
  obtain ⟨s', hstep⟩ := exists_of_isOk (by decide +kernel :
    (step sampleEvm (sampleState sampleTxs) selfTransferTx).isOk = true)
  have htaxed : (sampleState sampleTxs).taxed 2 2 = true := by decide +kernel
  obtain ⟨-, -, hgrows, -⟩ := (burn_score_conserved sampleTxs_reachable).2
    selfTransferTx s' (by decide) hstep
  obtain ⟨htotal, hscore, -⟩ := hgrows 2 2 1000 rfl htaxed
  exact ⟨s', hstep, htotal, hscore⟩

/-! ## Moving score -/

namespace State

variable {s : State} {now n : ℕ} {src dst : Address}

theorem moveScore_balance (h : Inv s) (hclock : s.lastMintTime ≤ now)
    (hn : n ≤ s.burnScore src) (dst a : Address) :
    (s.moveScore now src dst n).balanceAt now a = s.balanceAt now a := by
  have hfine := (h.moveScore_flows hclock hn dst).1 a
  have hbalance : (s.moveScore now src dst n).balanceAt now a + 0 =
      s.balanceAt now a + 0 :=
    balance_of_fine (p := a ∈ [src, dst]) (by rw [hfine])
  rwa [Nat.add_zero, Nat.add_zero] at hbalance

/-- Both parties leave with everything minted. -/
theorem moveScore_minted (s : State) (now : ℕ) (src dst : Address) (n : ℕ) :
    (s.moveScore now src dst n).rewardsAt now src = 0 ∧
      (s.moveScore now src dst n).rewardsAt now dst = 0 := by
  have hclock : (s.moveScore now src dst n).lastMintTime = now := rfl
  constructor
  · exact rewardsAt_of_settled hclock (settle_settle_settled s now src dst)
  · exact rewardsAt_of_settled hclock (settle_settled (s.settle now src) now dst)

end State

/-- **Moving burn score is zero-sum** and moves no rewards. -/
theorem moving_score_is_zero_sum {evm : Evm} {t : ℕ} {s : State} {msg : Msg}
    (hs : Reachable evm t s) (ht : t ≤ msg.timestamp)
    (hnow : msg.timestamp < 2 ^ 64) (_to : Address) (_amount : ℕ) :
    let now := msg.timestamp
    let caller := msg.sender
    ((∃ s', s.transferBurnScore msg _to _amount = .ok s') ↔
      (_to ≠ 0 ∧ s.exemptedAddresses _to = false) ∧
        0 < _amount ∧ _amount ≤ s.burnScore caller) ∧
    ∀ s', s.transferBurnScore msg _to _amount = .ok s' →
      (∀ a, ∃ x, s.balanceOf now a = .ok x ∧ s'.balanceOf now a = .ok x) ∧
      (∃ x, s.totalSupply now = .ok x ∧ s'.totalSupply now = .ok x) ∧
      (caller ≠ _to → s'.burnScore caller + _amount = s.burnScore caller ∧
        s'.burnScore _to = s.burnScore _to + _amount) ∧
      (caller = _to → s'.burnScore caller = s.burnScore caller) ∧
      (∀ a, a ≠ caller → a ≠ _to → s'.burnScore a = s.burnScore a) ∧
      s'.userRewards now caller = .ok 0 ∧ s'.userRewards now _to = .ok 0 := by
  have hg := hs.good.later ht
  dsimp only
  constructor
  · constructor
    · rintro ⟨s', h⟩
      obtain ⟨hto, hexempt, hn₀, hn, -⟩ := transferBurnScore_inv hg h
      exact ⟨⟨hto, hexempt⟩, Nat.pos_of_ne_zero hn₀, hn⟩
    · rintro ⟨⟨hto, hexempt⟩, hn₀, hn⟩
      exact ⟨_, transferBurnScore_ok hg hnow hto hexempt hn₀.ne' hn⟩
  · intro s' h
    obtain ⟨hto, hexempt, hn₀, hn, hword, rfl⟩ := transferBurnScore_inv hg h
    have hfits := hs.good.fits ht hnow
    have hfits' := (hg.moveScore hto hexempt hn₀ hn hword).fits (Nat.le_refl _) hnow
    obtain ⟨-, hscore, hsupply⟩ := hg.inv.moveScore_flows hg.clock hn _to
    obtain ⟨hcaller, hreceiver⟩ :=
      moveScore_minted s msg.timestamp msg.sender _to _amount
    refine ⟨?_, ?_, ?_, ?_, ?_, ?_, ?_⟩
    · intro a
      refine ⟨_, hfits.balanceOf a, ?_⟩
      rw [hfits'.balanceOf, moveScore_balance hg.inv hg.clock hn]
    · refine ⟨_, hfits.totalSupply, ?_⟩
      rw [hfits'.totalSupply, hsupply]
    · intro hdistinct
      have hless := hscore msg.sender
      have hmore := hscore _to
      rw [if_pos rfl, if_neg hdistinct, Nat.add_zero] at hless
      rw [if_neg hdistinct.symm, if_pos rfl, Nat.add_zero] at hmore
      exact ⟨hless, hmore⟩
    · intro hself
      have hsame := hscore msg.sender
      rw [if_pos rfl, if_pos hself] at hsame
      exact Nat.add_right_cancel hsame
    · intro a ha ha'
      have hother := hscore a
      rwa [if_neg ha, if_neg ha', Nat.add_zero, Nat.add_zero] at hother
    · rw [hfits'.userRewards, hcaller]
    · rw [hfits'.userRewards, hreceiver]

/-- Account `2` gives score to account `3`, and to itself. -/
theorem sample_score_moves :
    (∃ s', (sampleState sampleTxs).transferBurnScore (traderMsg 400) 3 7 = .ok s' ∧
      s'.burnScore 2 + 7 = (sampleState sampleTxs).burnScore 2 ∧
      s'.userRewards 400 3 = .ok 0) ∧
    ∃ s', (sampleState sampleTxs).transferBurnScore (traderMsg 400) 2 7 = .ok s' ∧
      s'.burnScore 2 = (sampleState sampleTxs).burnScore 2 := by
  have hmoves := moving_score_is_zero_sum sampleTxs_reachable
    (by decide : 300 ≤ (traderMsg 400).timestamp) (by decide)
  have hscore : 7 ≤ (sampleState sampleTxs).burnScore 2 := by decide +kernel
  constructor
  · obtain ⟨hsucceeds, heffect⟩ := hmoves 3 7
    obtain ⟨s', h⟩ := hsucceeds.mpr
      ⟨⟨by decide, by decide +kernel⟩, by decide, hscore⟩
    obtain ⟨-, -, hdistinct, -, -, -, hminted⟩ := heffect s' h
    exact ⟨s', h, (hdistinct (by decide)).1, hminted⟩
  · obtain ⟨hsucceeds, heffect⟩ := hmoves 2 7
    obtain ⟨s', h⟩ := hsucceeds.mpr
      ⟨⟨by decide, by decide +kernel⟩, by decide, hscore⟩
    obtain ⟨-, -, -, hself, -⟩ := heffect s' h
    exact ⟨s', h, hself rfl⟩

end CyberCash
