import CyberCash.Semantics.Timeline
import CyberCash.Results.LifeCycle

/-!
# Dilution

Burning by others never raises anybody's passive income. Two runs of the same
calls, the second with extra transfers from one account to another: the extra
accruals cut the index short, the extra burns slow it down, and an account that
is no party to them is never shown more than in the first run.

As for the timing of claims the runs are compared at the fine scale, for every
later moment at once: a lead at one moment alone would not survive the next
call.
-/

namespace CyberCash

open Solidity Function State TimedRun LazyIndex

/-- A transfer of either kind and of any amount from `b` to `c`. -/
def Moves (b c : Address) (tx : Tx) : Prop := ∃ x, tx.movement = some (b, c, x)

/-- More burned, slower index. -/
theorem growth_antitone {divisor divisor' : ℕ} (hpos : 0 < divisor)
    (h : divisor ≤ divisor') (d : ℕ) : growth divisor' d ≤ growth divisor d :=
  Nat.div_le_div_left h hpos

/-- The state of the second run against that of the first, at time `t`. -/
structure Diluted (b c : Address) (t : ℕ) (s₁ s₂ : State) : Prop where
  good₁ : Good t s₁
  good₂ : Good t s₂
  owner₁ : s₁.owner = 0
  owner₂ : s₂.owner = 0
  pool : s₂.liquidityPool = s₁.liquidityPool
  exempt : s₂.exemptedAddresses = s₁.exemptedAddresses
  score : ∀ a, a ≠ b → s₂.burnScore a = s₁.burnScore a
  burned : s₁.totalBurned ≤ s₂.totalBurned
  below : ∀ now, t ≤ now → ∀ a, a ≠ b → a ≠ c → a ≠ s₁.liquidityPool →
    s₂.fineAt now a ≤ s₁.fineAt now a

namespace Diluted

variable {b c a : Address} {t now : ℕ} {s₁ s₂ s₁' s₂' : State} {tx : Tx}

theorem refl {s : State} (hg : Good t s) (howner : s.owner = 0) :
    Diluted b c t s s where
  good₁ := hg
  good₂ := hg
  owner₁ := howner
  owner₂ := howner
  pool := rfl
  exempt := rfl
  score _ _ := rfl
  burned := Nat.le_refl _
  below _ _ _ _ _ _ := Nat.le_refl _

theorem taxed_eq (h : Diluted b c t s₁ s₂) : s₂.taxed = s₁.taxed :=
  taxed_congr h.pool h.exempt

/-! ## A call that both runs make -/

/-- At the timestamp of the call: both runs settle, pay and receive alike. -/
theorem fine_keep (h : Diluted b c t s₁ s₂) (ht : t ≤ tx.now)
    (hf₁ : Flows s₁ tx s₁') (hf₂ : Flows s₂ tx s₂') (hb : a ≠ b) (hc : a ≠ c)
    (hpool : a ≠ s₁.liquidityPool) :
    s₂'.fineAt tx.now a ≤ s₁'.fineAt tx.now a := by
  have hbelow := h.below tx.now ht a hb hc hpool
  have hfine₁ := hf₁.fine a
  have hfine₂ := hf₂.fine a
  have hloss₁ : s₁.poolLoss tx a = 0 := if_neg hpool
  have hloss₂ : s₂.poolLoss tx a = 0 := if_neg (h.pool ▸ hpool)
  rw [receives_congr h.taxed_eq, hloss₂] at hfine₂
  rw [hloss₁] at hfine₁
  have hsettled : (if a ∈ tx.settles then whole REWARD_PRECISION (s₂.fineAt tx.now a)
      else s₂.fineAt tx.now a) ≤
        if a ∈ tx.settles then whole REWARD_PRECISION (s₁.fineAt tx.now a)
          else s₁.fineAt tx.now a := by
    split
    · exact whole_mono hbelow
    · exact hbelow
  omega

/-- And from then on: the scores are the same, the second divisor is larger. -/
theorem fine_keep_later {evm : Evm} (h : Diluted b c t s₁ s₂) (ht : t ≤ tx.now)
    (h₁ : Next evm s₁ tx s₁') (h₂ : Next evm s₂ tx s₂')
    (hscore : s₂'.burnScore a = s₁'.burnScore a)
    (hburned : s₁'.totalBurned ≤ s₂'.totalBurned) (hnow : tx.now ≤ now)
    (hb : a ≠ b) (hc : a ≠ c) (hpool : a ≠ s₁.liquidityPool) :
    s₂'.fineAt now a ≤ s₁'.fineAt now a := by
  have hg₁ := h.good₁.later ht
  have hg₂ := h.good₂.later ht
  have he₁ := step_effect hg₁ h₁
  have he₂ := step_effect hg₂ h₂
  cases hcall : tx.call.isApproval with
  | true =>
      rw [fineAt_reapproves (he₁.of_approval hcall),
        fineAt_reapproves (he₂.of_approval hcall)]
      exact h.below now (ht.trans hnow) a hb hc hpool
  | false =>
      have hkept := h.fine_keep ht (he₁.flows hg₁) (he₂.flows hg₂) hb hc hpool
      have hinv₁ := (h.good₁.next ht h₁).inv
      have hinv₂ := (h.good₂.next ht h₂).inv
      rw [fineAt_fresh hinv₁ (he₁.frozen h.owner₁).1
          (he₁.accrues hg₁.inv h.owner₁ hcall) now,
        fineAt_fresh hinv₂ (he₂.frozen h.owner₂).1
          (he₂.accrues hg₂.inv h.owner₂ hcall) now, hscore]
      apply Nat.add_le_add hkept
      apply Nat.mul_le_mul_left
      exact growth_antitone hinv₁.totalBurned_pos hburned _

theorem keep {evm : Evm} (h : Diluted b c t s₁ s₂) (ht : t ≤ tx.now)
    (h₁ : Next evm s₁ tx s₁') (h₂ : Next evm s₂ tx s₂') :
    Diluted b c tx.now s₁' s₂' := by
  have hg₁ := h.good₁.later ht
  have hg₂ := h.good₂.later ht
  have he₁ := step_effect hg₁ h₁
  have he₂ := step_effect hg₂ h₂
  have hf₁ := he₁.flows hg₁
  have hf₂ := he₂.flows hg₂
  obtain ⟨howner₁, hpool₁, hexempt₁⟩ := he₁.frozen h.owner₁
  obtain ⟨howner₂, hpool₂, hexempt₂⟩ := he₂.frozen h.owner₂
  have hscore (a : Address) (hb : a ≠ b) : s₂'.burnScore a = s₁'.burnScore a := by
    have hscore₁ := hf₁.score a
    have hscore₂ := hf₂.score a
    rw [h.score a hb, earns_congr h.taxed_eq] at hscore₂
    omega
  have hburned : s₁'.totalBurned ≤ s₂'.totalBurned := by
    rw [hf₁.burned, hf₂.burned, taxDue_congr h.taxed_eq]
    exact Nat.add_le_add_right h.burned _
  refine ⟨h.good₁.next ht h₁, h.good₂.next ht h₂, howner₁, howner₂, ?_, ?_, hscore,
    hburned, ?_⟩
  · rw [hpool₁, hpool₂, h.pool]
  · rw [hexempt₁, hexempt₂, h.exempt]
  · intro now hnow a hb hc hpool
    rw [hpool₁] at hpool
    exact h.fine_keep_later ht h₁ h₂ (hscore a hb) hburned hnow hb hc hpool

/-! ## A transfer that only the second run makes -/

/-- The extra accrual cuts the index short, the extra burn slows it down. -/
theorem fine_extra {evm : Evm} (h : Diluted b c t s₁ s₂) (ht : t ≤ tx.now)
    (hmoves : Moves b c tx) (h₂ : Next evm s₂ tx s₂') (hnow : tx.now ≤ now)
    (hb : a ≠ b) (hc : a ≠ c) (hpool : a ≠ s₁.liquidityPool) :
    s₂'.fineAt now a ≤ s₂.fineAt now a := by
  obtain ⟨x, hmove⟩ := hmoves
  have hg₂ := h.good₂.later ht
  have he₂ := step_effect hg₂ h₂
  have hf₂ := he₂.flows hg₂
  have hinv₂ := (h.good₂.next ht h₂).inv
  -- the account is no party, so nothing happens to it at the timestamp
  have hsame : s₂'.fineAt tx.now a = s₂.fineAt tx.now a := by
    have hfine := hf₂.fine a
    have hnot : a ∉ tx.settles := by
      rw [Tx.settles_of_movement hmove, List.mem_singleton]
      exact hb
    have hloss : s₂.poolLoss tx a = 0 := if_neg (h.pool ▸ hpool)
    have hpays : tx.pays a = 0 := by simp [Tx.pays, hmove, hb]
    have hreceives : s₂.receives tx a = 0 := by simp [receives, hmove, hc]
    rw [if_neg hnot, hloss, hpays, hreceives] at hfine
    exact Nat.add_right_cancel hfine
  have hscore : s₂'.burnScore a = s₂.burnScore a := by
    have hscore := hf₂.score a
    obtain ⟨hyields, hobtains⟩ := Tx.score_of_movement hmove a
    have hearns : s₂.earns tx a = 0 := by simp [earns, hmove, hb]
    simpa only [hyields, hobtains, hearns, Nat.add_zero] using hscore
  have hburned : s₂.totalBurned ≤ s₂'.totalBurned := by
    rw [hf₂.burned]
    exact Nat.le_add_right _ _
  have hcall : tx.call.isApproval = false := by
    cases hcall : tx.call.isApproval with
    | false => rfl
    | true =>
        rw [Tx.movement_of_approval hcall] at hmove
        cases hmove
  rw [fineAt_fresh hinv₂ (he₂.frozen h.owner₂).1
    (he₂.accrues hg₂.inv h.owner₂ hcall) now, hsame, hscore]
  calc s₂.fineAt tx.now a + s₂.burnScore a * growth s₂'.totalBurned (now - tx.now)
      ≤ s₂.fineAt tx.now a +
          s₂.burnScore a * growth s₂.totalBurned (now - tx.now) :=
        Nat.add_le_add_left (Nat.mul_le_mul_left _
          (growth_antitone hg₂.inv.totalBurned_pos hburned _)) _
    _ ≤ s₂.fineAt now a := (fineAt_split hg₂.inv h.owner₂ hg₂.clock hnow a).1

theorem extra {evm : Evm} (h : Diluted b c t s₁ s₂) (ht : t ≤ tx.now)
    (hmoves : Moves b c tx) (h₂ : Next evm s₂ tx s₂') :
    Diluted b c tx.now s₁ s₂' := by
  have hg₂ := h.good₂.later ht
  have he₂ := step_effect hg₂ h₂
  have hf₂ := he₂.flows hg₂
  obtain ⟨howner₂, hpool₂, hexempt₂⟩ := he₂.frozen h.owner₂
  refine ⟨h.good₁.later ht, h.good₂.next ht h₂, h.owner₁, howner₂,
    hpool₂.trans h.pool, hexempt₂.trans h.exempt, ?_, ?_, ?_⟩
  · intro a hb
    obtain ⟨x, hmove⟩ := hmoves
    obtain ⟨hyields, hobtains⟩ := Tx.score_of_movement hmove a
    have hearns : s₂.earns tx a = 0 := by simp [earns, hmove, hb]
    have hscore := hf₂.score a
    simpa only [hyields, hobtains, hearns, h.score a hb, Nat.add_zero] using hscore
  · rw [hf₂.burned]
    exact h.burned.trans (Nat.le_add_right _ _)
  · intro now hnow a hb hc hpool
    exact (h.fine_extra ht hmoves h₂ hnow hb hc hpool).trans
      (h.below now (ht.trans hnow) a hb hc hpool)

end Diluted

/-- **Dilution is monotone.** With extra transfers from `b` to `c` inserted
anywhere, no other account but the pool is ever shown more. -/
theorem dilution_monotone {evm : Evm} {t u₁ u₂ now : ℕ} {s s₁ s₂ : State}
    {steps₁ steps₂ extras : List TokenStep} {a b c : Address}
    (hs : Reachable evm t s) (howner : s.owner = 0)
    (h₁ : TokenRun evm t s steps₁ u₁ s₁) (h₂ : TokenRun evm t s steps₂ u₂ s₂)
    (hinserted : Inserted (Moves b c) steps₁ steps₂ extras) (hnow : u₂ ≤ now)
    (hb : a ≠ b) (hc : a ≠ c) (hpool : a ≠ s.liquidityPool) :
    s₂.burnScore a = s₁.burnScore a ∧
    (∀ x₁ x₂, s₁.balanceOf now a = .ok x₁ → s₂.balanceOf now a = .ok x₂ →
      x₂ ≤ x₁) ∧
    (now < 2 ^ 64 → (∃ x, s₁.balanceOf now a = .ok x) ∧
      ∃ x, s₂.balanceOf now a = .ok x) := by
  obtain ⟨h, -⟩ := simulation
    (R := fun _ t s₁ s₂ => Diluted b c t s₁ s₂)
    (fun h ht h₁ h₂ => h.keep ht h₁ h₂)
    (fun h ht hmoves h₂ => h.extra ht hmoves h₂)
    hinserted h₁ h₂ (Nat.le_refl t) (Diluted.refl hs.good howner)
  have hpool₁ := (frozen_of_run hs.good howner h₁).2.1
  refine ⟨h.score a hb, ?_, ?_⟩
  · intro x₁ x₂ hx₁ hx₂
    rw [balanceOf_eq hx₁, balanceOf_eq hx₂, balanceAt_eq, balanceAt_eq]
    exact Nat.div_le_div_right (h.below now hnow a hb hc (hpool₁ ▸ hpool))
  · intro hsmall
    exact ⟨⟨_, (h.good₁.fits hnow hsmall).balanceOf a⟩, _,
      (h.good₂.fits hnow hsmall).balanceOf a⟩

/-- Account `1` sends account `4` a thousand tokens, and burns five. -/
def dilutingTx : Tx := ⟨ownerMsg 250, .transfer 4 1000000000000000000000#256⟩

/-- The sample history with that transfer in between: account `2`, which holds
the score, is shown less. -/
theorem sample_dilution :
    ∃ x₁ x₂, (sampleState (launchTxs ++ tradingTxs)).balanceOf 400 2 = .ok x₁ ∧
      (sampleState (launchTxs ++ [tradeTx, dilutingTx, giftTx])).balanceOf 400 2 =
        .ok x₂ ∧ x₂ ≤ x₁ := by
  have howner : (sampleState launchTxs).owner = 0 := by decide +kernel
  have hpool : (2 : Address) ≠ (sampleState launchTxs).liquidityPool := by
    decide +kernel
  obtain ⟨steps₁, hrun₁, hlabels₁⟩ := sampleState_more
    (by decide +kernel : (sampleRun (launchTxs ++ tradingTxs)).isOk = true)
    (by decide) (by decide : (100 :: tradingTxs.map Tx.now).getLast? = some 300)
  obtain ⟨steps₂, hrun₂, hlabels₂⟩ := sampleState_more
    (by decide +kernel :
      (sampleRun (launchTxs ++ [tradeTx, dilutingTx, giftTx])).isOk = true)
    (by decide)
    (by decide : (100 :: [tradeTx, dilutingTx, giftTx].map Tx.now).getLast? = some 300)
  have hmoves : Moves 1 4 dilutingTx := ⟨_, rfl⟩
  have hsame : steps₁.map Step.label = [tradeTx] ++ [giftTx] := hlabels₁
  have hmore : steps₂.map Step.label = [tradeTx] ++ dilutingTx :: [giftTx] := hlabels₂
  obtain ⟨extras, hinserted, -⟩ :=
    Inserted.of_labels (P := Moves 1 4) hmoves hsame hmore
  obtain ⟨-, hless, hviews⟩ := dilution_monotone launchTxs_launched.reachable howner
    hrun₁ hrun₂ hinserted (by decide : 300 ≤ 400) (by decide) (by decide) hpool
  obtain ⟨⟨b₁, hb₁⟩, b₂, hb₂⟩ := hviews (by decide)
  exact ⟨b₁, b₂, hb₁, hb₂, hless b₁ b₂ hb₁ hb₂⟩

end CyberCash
