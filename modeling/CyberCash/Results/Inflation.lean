import CyberCash.Semantics.History
import CyberCash.Results.Solvency

/-!
# The inflation schedule

The total supply that is shown is a function of the clock and of what was
burned: fixed before the launch, and after it growing by `MINT_PER_SECOND`
every second, whoever claims what and when.
-/

namespace CyberCash

open Solidity Function State TimedRun

/-! ## The schedule along a run -/

/-- Supply, burned tax and burned liquidity add up to what was issued by `t`. -/
structure OnSchedule (t₀ t : ℕ) (s : State) : Prop where
  good : Good t s
  owner : s.owner = 0
  since : t₀ ≤ t
  issued : s.supplyAt t + s.totalBurned + s.burnedFromLP =
    INITIAL_SUPPLY + 1 + MINT_PER_SECOND * (t - t₀)

namespace OnSchedule

variable {t₀ t now : ℕ} {s s' : State} {tx : Tx}

theorem start (h : Start t₀ s) : OnSchedule t₀ t₀ s := by
  have hfresh : s.accrued t₀ = 0 := accrued_self h.clock
  have hlp : s.burnedFromLP = 0 := tally_quiet special_amountFromLP h.quiet
  refine ⟨h.good, h.owner, Nat.le_refl _, ?_⟩
  unfold supplyAt
  rw [h.supply, h.pending, h.burned, hfresh, hlp, Nat.sub_self, Nat.mul_zero]

/-- Only the clock has moved. -/
theorem issued_later (h : OnSchedule t₀ t s) (ht : t ≤ now) :
    s.supplyAt now + s.totalBurned + s.burnedFromLP =
      INITIAL_SUPPLY + 1 + MINT_PER_SECOND * (now - t₀) := by
  have hsince := h.since
  have hissued := h.issued
  have helapsed : MINT_PER_SECOND * (now - t₀) =
      MINT_PER_SECOND * (t - t₀) + MINT_PER_SECOND * (now - t) := by
    rw [← Nat.mul_add]
    congr 1
    omega
  rw [supplyAt_split h.owner h.good.clock ht, helapsed]
  omega

theorem next {evm : Evm} (h : OnSchedule t₀ t s) (ht : t ≤ tx.now)
    (hnext : Next evm s tx s') : OnSchedule t₀ tx.now s' := by
  have hg := h.good.later ht
  have he := step_effect hg hnext
  have hflows := he.flows hg
  refine ⟨h.good.next ht hnext, (he.frozen h.owner).1, h.since.trans ht, ?_⟩
  -- what leaves the supply enters the two burned amounts
  have hissued := h.issued_later ht
  have hsupply := hflows.supply
  rw [hflows.burned, he.burnedFromLP hg]
  omega

end OnSchedule

theorem onSchedule_of_run {evm : Evm} {t₀ t : ℕ} {s₀ s : State}
    {steps : List TokenStep} (h₀ : Launched evm t₀ s₀)
    (hrun : TokenRun evm t₀ s₀ steps t s) : OnSchedule t₀ t s :=
  hrun.invariant (fun h ht hnext => h.next ht hnext) (OnSchedule.start h₀.start)

/-! ## Before the launch -/

theorem owner_of_no_launch {evm : Evm} {t t' : ℕ} {s s' : State}
    {steps : List TokenStep} (hg : Good t s) (howner : s.owner ≠ 0)
    (hrun : TokenRun evm t s steps t' s')
    (hnone : ∀ st ∈ steps, st.label.call.isInitialise = false) :
    s'.owner ≠ 0 := by
  induction hrun with
  | nil => exact howner
  | @cons t t' s s₁ s' tx steps ht hnext _ ih =>
      have hcall : tx.call.isInitialise = false :=
        hnone ⟨s, tx, s₁⟩ (List.mem_cons_self ..)
      refine ih (hg.next ht hnext) ?_ fun st hst =>
        hnone st (List.mem_cons_of_mem _ hst)
      rw [((step_effect (hg.later ht) hnext).frame hcall).1]
      exact howner

theorem totalSupply_of_untouched {s : State} (hinv : Inv s)
    (howner : s.owner ≠ 0) (h : Untouched s) (now : ℕ) :
    s.totalSupply now = .ok INITIAL_SUPPLY := by
  obtain ⟨-, hpending, -⟩ := hinv.dormant howner
  have hword : INITIAL_SUPPLY < 2 ^ 256 := by decide +kernel
  have hadded : s.totalRewards now = .ok 0 := if_neg howner
  unfold State.totalSupply ERC20.totalSupply
  rw [h.supply, hpending, checkedAdd_of_lt (by rwa [Nat.add_zero]), ok_bind,
    hadded, ok_bind, checkedAdd_of_lt (by rwa [Nat.add_zero]), Nat.add_zero]

/-- **Fixed inflation.** Before the launch the total supply is the initial
one. From a launch at `t₀` on it is the issued amount less the tax and the
liquidity burned, at every later time, and what is physically minted never
exceeds the issued amount. -/
theorem inflation_schedule (evm : Evm) :
    (∀ t₀ owner g steps t s, State.constructor t₀ owner = .ok g →
      TokenRun evm t₀ g steps t s →
      (∀ st ∈ steps, st.label.call.isInitialise = false) →
        ∀ now, s.totalSupply now = .ok INITIAL_SUPPLY) ∧
    (∀ t₀ s₀ steps t s now, Launched evm t₀ s₀ →
      TokenRun evm t₀ s₀ steps t s → t ≤ now →
        (∀ supply, s.totalSupply now = .ok supply →
          supply + (s.totalBurned - 1) + s.burnedFromLP =
            INITIAL_SUPPLY + MINT_PER_SECOND * (now - t₀)) ∧
        (now < 2 ^ 64 → ∃ supply, s.totalSupply now = .ok supply) ∧
        s._totalSupply ≤ INITIAL_SUPPLY + MINT_PER_SECOND * (now - t₀)) := by
  constructor
  · intro t₀ owner g steps t s hg hrun hnone now
    have hreach : Reachable evm t s := ⟨t₀, owner, g, steps, hg, hrun⟩
    have hset : g.owner ≠ 0 := by
      obtain ⟨howner, rfl⟩ := constructor_inv hg
      exact howner
    have howner := owner_of_no_launch (constructor_good hg) hset hrun hnone
    exact totalSupply_of_untouched hreach.good.inv howner
      (untouched_of_owner hreach howner) now
  · intro t₀ s₀ steps t s now h₀ hrun ht
    have hschedule := onSchedule_of_run h₀ hrun
    have hissued := hschedule.issued_later ht
    have hpositive := hschedule.good.inv.totalBurned_pos
    refine ⟨?_, ?_, ?_⟩
    · intro supply hsupply
      rw [totalSupply_eq hsupply]
      omega
    · intro hnow
      exact ⟨_, (hschedule.good.fits ht hnow).totalSupply⟩
    · have hminted : s._totalSupply ≤ s.supplyAt now :=
        (Nat.le_add_right _ _).trans (Nat.le_add_right _ _)
      omega

/-- Five minutes after the launch of the sample history. -/
theorem sample_schedule :
    10000009512237595129375951200 + ((sampleState sampleTxs).totalBurned - 1) +
        (sampleState sampleTxs).burnedFromLP =
      INITIAL_SUPPLY + MINT_PER_SECOND * (400 - 100) := by
  have hsupply : (sampleState sampleTxs).totalSupply 400 =
      .ok 10000009512237595129375951200 := by decide +kernel
  obtain ⟨steps, hrun, -⟩ := sampleState_more
    (by decide +kernel : (sampleRun (launchTxs ++ tradingTxs)).isOk = true)
    (by decide) (by decide : (100 :: tradingTxs.map Tx.now).getLast? = some 300)
  exact ((inflation_schedule sampleEvm).2 100 _ steps 300 _ 400 launchTxs_launched
    hrun (by decide)).1 _ hsupply

end CyberCash
