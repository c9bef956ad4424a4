import CyberCash.Semantics.History
import CyberCash.Results.BlockOrder
import CyberCash.Results.LifeCycle

/-!
# What the burns leave of the pool

Every taxed transfer burns a share from the pool, clamped so that a reserve
remains. Over a run in which nobody trades with the pool the clamps of all the
transfers act as one: the shares add up and their sum is clamped once. Whatever
else happens, the pool is only short of what was paid out of it and burned, and
the burns alone never take it below the reserve. The shares asked for stay in
proportion to the tax, two to five, up to rounding.
-/

namespace CyberCash

open Solidity Function State TimedRun Rounding

/-- The call moves no tokens to or from the pool. -/
def Tx.Bypasses (tx : Tx) (pool : Address) : Prop :=
  ∀ src dst x, tx.movement = some (src, dst, x) → src ≠ pool ∧ dst ≠ pool

/-- Both burns are due on the call. -/
def State.burnsOn (s : State) (tx : Tx) : Bool :=
  match tx.movement with
  | some (src, dst, _) => s.taxed src dst
  | none => false

theorem Tx.Bypasses.no_flow {tx : Tx} {pool : Address} (h : tx.Bypasses pool)
    (s : State) : tx.pays pool = 0 ∧ s.receives tx pool = 0 := by
  unfold Tx.pays receives
  cases hmove : tx.movement with
  | none => exact ⟨rfl, rfl⟩
  | some m =>
      obtain ⟨src, dst, x⟩ := m
      obtain ⟨hsrc, hdst⟩ := h src dst x hmove
      exact ⟨if_neg hsrc.symm, if_neg hdst.symm⟩

/-- **Proportion of the two burns.** Both are rounded down. -/
theorem burns_in_proportion (s : State) (tx : Tx) :
    5 * s.poolRequest tx ≤ 2 * s.taxDue tx + (s.burnsOn tx).toNat ∧
      2 * s.taxDue tx ≤ 5 * s.poolRequest tx + 4 * (s.burnsOn tx).toNat := by
  unfold poolRequest poolShare taxDue burnsOn taxOf
  cases tx.movement with
  | none => exact ⟨Nat.le_refl _, Nat.le_refl _⟩
  | some m =>
      obtain ⟨src, dst, x⟩ := m
      dsimp only
      cases s.taxed src dst with
      | false => exact ⟨Nat.le_refl _, Nat.le_refl _⟩
      | true =>
          rw [if_pos rfl, if_pos rfl, Bool.toNat_true]
          unfold BURN_FROM_LP BURN_ON_TRANSFER BURN_PRECISION
          omega

section Runs

variable {evm : Evm} {t t' : ℕ} {s s' : State} {tx : Tx} {steps : List TokenStep}

/-! ## One call -/

/-- What the pool pays, gets and loses to the burn. -/
theorem step_pooled (hg : Good t s) (howner : s.owner = 0) (ht : t ≤ tx.now)
    (h : step evm s tx = .ok s') :
    s'._balances s.liquidityPool + (tx.pays s.liquidityPool + s.poolDue tx) =
      s._balances s.liquidityPool + s.receives tx s.liquidityPool := by
  have hg' := hg.later ht
  have he := step_effect hg' h
  exact (he.flows hg').pooled hg.inv (hg.next ht h).inv (he.frozen howner).2.1

/-- The request is clamped so that the reserve stays. -/
theorem step_leftAbove (hg : Good t s) (howner : s.owner = 0) (ht : t ≤ tx.now)
    (h : step evm s tx = .ok s') (hbypass : tx.Bypasses s.liquidityPool) :
    s'._balances s.liquidityPool =
      leftAbove RESERVE_BUFFER (s._balances s.liquidityPool) (s.poolRequest tx) := by
  have hpooled := step_pooled hg howner ht h
  obtain ⟨hpays, hreceives⟩ := hbypass.no_flow s
  rw [hpays, hreceives, poolDue_eq_min, Nat.zero_add, Nat.add_zero] at hpooled
  exact eq_leftAbove hpooled

theorem step_reserve (hg : Good t s) (howner : s.owner = 0) (ht : t ≤ tx.now)
    (h : step evm s tx = .ok s') (hpays : tx.pays s.liquidityPool = 0) :
    min (s._balances s.liquidityPool) RESERVE_BUFFER ≤
      s'._balances s.liquidityPool := by
  have hpooled := step_pooled hg howner ht h
  have hclamp : s.poolDue tx ≤ s._balances s.liquidityPool - RESERVE_BUFFER := by
    rw [poolDue_eq_min]
    exact Nat.min_le_right _ _
  rw [hpays] at hpooled
  omega

/-! ## Whole runs -/

/-- Requests of the calls of a run. The exemptions do not change after the
launch, so they can be read in the state of each call. -/
def poolRequests (steps : List TokenStep) : ℕ :=
  (steps.map fun st => st.pre.poolRequest st.label).sum

/-- How many calls both burns were due on. -/
def burnCount (steps : List TokenStep) : ℕ :=
  (steps.map fun st => (st.pre.burnsOn st.label).toNat).sum

/-- Requests add up, however the clamp cuts them. -/
theorem TokenRun.leftAbove (hg : Good t s) (howner : s.owner = 0)
    (hrun : TokenRun evm t s steps t' s')
    (hbypass : ∀ st ∈ steps, st.label.Bypasses s.liquidityPool) :
    s'._balances s.liquidityPool =
      Rounding.leftAbove RESERVE_BUFFER (s._balances s.liquidityPool)
        (poolRequests steps) := by
  unfold poolRequests
  induction hrun with
  | nil => exact (leftAbove_zero _ _).symm
  | @cons t t' s s₁ s' tx steps ht hnext _ ih =>
      obtain ⟨howner₁, hpool₁, -⟩ := (step_effect (hg.later ht) hnext).frozen howner
      have hfirst := step_leftAbove hg howner ht hnext (hbypass _ List.mem_cons_self)
      have hrest := ih (hg.next ht hnext) howner₁
        fun st hst => hpool₁ ▸ hbypass st (List.mem_cons_of_mem _ hst)
      rw [hpool₁, hfirst, leftAbove_leftAbove] at hrest
      rw [hrest, List.map_cons, List.sum_cons]

theorem TokenRun.reserve (hg : Good t s) (howner : s.owner = 0)
    (hrun : TokenRun evm t s steps t' s')
    (hpays : ∀ st ∈ steps, st.label.pays s.liquidityPool = 0) :
    min (s._balances s.liquidityPool) RESERVE_BUFFER ≤
      s'._balances s.liquidityPool := by
  induction hrun with
  | nil => exact Nat.min_le_left _ _
  | @cons t t' s s₁ s' tx steps ht hnext _ ih =>
      obtain ⟨howner₁, hpool₁, -⟩ := (step_effect (hg.later ht) hnext).frozen howner
      have hfirst := step_reserve hg howner ht hnext (hpays _ List.mem_cons_self)
      have hrest := ih (hg.next ht hnext) howner₁
        fun st hst => hpool₁ ▸ hpays st (List.mem_cons_of_mem _ hst)
      rw [hpool₁] at hrest
      omega

/-- The pool's own account. -/
theorem TokenRun.pooled (hg : Good t s) (howner : s.owner = 0)
    (hrun : TokenRun evm t s steps t' s') :
    s'._balances s.liquidityPool + s'.burnedFromLP +
        (steps.map fun st => st.label.pays s.liquidityPool).sum =
      s._balances s.liquidityPool + s.burnedFromLP +
        (steps.map fun st => st.pre.receives st.label s.liquidityPool).sum := by
  refine hrun.account
    (I := fun t r => Good t r ∧ r.owner = 0 ∧ r.liquidityPool = s.liquidityPool)
    (fun r => r._balances s.liquidityPool + r.burnedFromLP)
    (fun st => st.label.pays s.liquidityPool)
    (fun st => st.pre.receives st.label s.liquidityPool) ?_ ⟨hg, howner, rfl⟩
  rintro t r tx r' ⟨hr, howner', hpool⟩ ht hnext
  have hg' := hr.later ht
  have he := step_effect hg' hnext
  have hpooled := step_pooled hr howner' ht hnext
  have hburned := he.burnedFromLP hg'
  obtain ⟨howner₁, hpool₁, -⟩ := he.frozen howner'
  rw [hpool] at hpooled
  refine ⟨?_, hr.next ht hnext, howner₁, hpool₁.trans hpool⟩
  dsimp only
  omega

theorem TokenRun.proportion (hg : Good t s) (hrun : TokenRun evm t s steps t' s') :
    5 * poolRequests steps + 2 * s.totalBurned ≤ 2 * s'.totalBurned + burnCount steps ∧
      2 * s'.totalBurned ≤
        5 * poolRequests steps + 4 * burnCount steps + 2 * s.totalBurned := by
  unfold poolRequests burnCount
  induction hrun with
  | nil => constructor <;> simp
  | @cons t t' s s₁ s' tx steps ht hnext _ ih =>
      have hg' := hg.later ht
      have hburned := ((step_effect hg' hnext).flows hg').burned
      obtain ⟨hlo, hhi⟩ := burns_in_proportion s tx
      obtain ⟨hlo', hhi'⟩ := ih (hg.next ht hnext)
      simp only [List.map_cons, List.sum_cons]
      omega

end Runs

/-- **What the burns leave of the pool.** In every run from the launch on the
pool is short of what it paid and of what was burned of it; if it pays nothing
it keeps the reserve; if nobody trades with it, it loses the sum of the shares
asked for, clamped once. And the shares keep their proportion to the tax. -/
theorem pool_after_burns {evm : Evm} {t t' : ℕ} {s s' : State} {steps : List TokenStep}
    (hs : Reachable evm t s) (howner : s.owner = 0)
    (hrun : TokenRun evm t s steps t' s') :
    let pool := s.liquidityPool
    (s'._balances pool + s'.burnedFromLP +
        (steps.map fun st => st.label.pays pool).sum =
      s._balances pool + s.burnedFromLP +
        (steps.map fun st => st.pre.receives st.label pool).sum) ∧
    ((∀ st ∈ steps, st.label.pays pool = 0) →
      min (s._balances pool) RESERVE_BUFFER ≤ s'._balances pool) ∧
    ((∀ st ∈ steps, st.label.Bypasses pool) →
      s'.burnedFromLP = s.burnedFromLP +
          min (poolRequests steps) (s._balances pool - RESERVE_BUFFER) ∧
        s'._balances pool = s._balances pool -
          min (poolRequests steps) (s._balances pool - RESERVE_BUFFER)) ∧
    5 * poolRequests steps ≤ 2 * (s'.totalBurned - s.totalBurned) + burnCount steps ∧
    2 * (s'.totalBurned - s.totalBurned) ≤ 5 * poolRequests steps + 4 * burnCount steps := by
  have hg := hs.good
  have hpooled := TokenRun.pooled hg howner hrun
  obtain ⟨hlo, hhi⟩ := TokenRun.proportion hg hrun
  refine ⟨hpooled, TokenRun.reserve hg howner hrun, ?_, by omega, by omega⟩
  intro hbypass
  have hleft := TokenRun.leftAbove hg howner hrun hbypass
  have hpays : (steps.map fun st => st.label.pays s.liquidityPool).sum = 0 := by
    apply List.sum_eq_zero
    intro x hx
    obtain ⟨st, hst, rfl⟩ := List.mem_map.mp hx
    exact ((hbypass st hst).no_flow st.pre).1
  have hreceives :
      (steps.map fun st => st.pre.receives st.label s.liquidityPool).sum = 0 := by
    apply List.sum_eq_zero
    intro x hx
    obtain ⟨st, hst, rfl⟩ := List.mem_map.mp hx
    exact ((hbypass st hst).no_flow st.pre).2
  rw [hpays, hreceives] at hpooled
  unfold leftAbove at hleft
  constructor <;> omega

/-- The trades of the sample history leave the pool alone. -/
theorem sample_pool_burns :
    ∃ steps : List TokenStep, steps.map Step.label = tradingTxs ∧
      (sampleState sampleTxs).burnedFromLP = (sampleState launchTxs).burnedFromLP +
        min (poolRequests steps) ((sampleState launchTxs)._balances 100 - RESERVE_BUFFER) := by
  have hpool : (sampleState launchTxs).liquidityPool = 100 := by decide +kernel
  obtain ⟨steps, hrun, hlabels⟩ := sampleState_more
    (by decide +kernel : (sampleRun (launchTxs ++ tradingTxs)).isOk = true)
    (by decide) (by decide : (100 :: tradingTxs.map Tx.now).getLast? = some 300)
  have hbypass : ∀ tx ∈ tradingTxs, tx.Bypasses 100 := by
    intro tx hmem src dst x hmove
    simp only [tradingTxs, List.mem_cons, List.not_mem_nil, or_false] at hmem
    rcases hmem with rfl | rfl
    · cases hmove
      exact ⟨by decide, by decide⟩
    · cases hmove
  have hall := pool_after_burns launchTxs_launched.reachable (by decide +kernel) hrun
  dsimp only at hall
  rw [hpool] at hall
  refine ⟨steps, hlabels, (hall.2.2.1 ?_).1⟩
  intro st hst
  exact hbypass st.label (hlabels ▸ List.mem_map_of_mem hst)

end CyberCash
