import CyberCash.Library.Rounding
import CyberCash.Semantics.Timeline
import CyberCash.Results.Solvency

/-!
# Order independence inside one block

Calls executed at one timestamp share the index, the total burned, the pending
mints and the clamped burn from the pool, and the first of them does the whole
accrual. Still the state they end in is a closed form of their sums: what every
account pays and receives, the tax, and the request to the pool, which is
clamped once for all of them. Sums do not depend on the order.
-/

namespace CyberCash

open Solidity Function State TimedRun Rounding

/-! ## The closed form -/

namespace Tx

/-- A movement of tokens or score in which the pool is no party. -/
def Avoids (tx : Tx) (pool : Address) : Prop :=
  match tx.call with
  | .transfer _to _ => tx.sender ≠ pool ∧ _to ≠ pool
  | .transferFrom _from _to _ => _from ≠ pool ∧ _to ≠ pool
  | .transferBurnScore _to _ => tx.sender ≠ pool ∧ _to ≠ pool
  | _ => False

/-- What the call takes from an allowance that is not infinite. -/
def spends (tx : Tx) (owner spender : Address) : ℕ :=
  match tx.call with
  | .transferFrom _from _ x =>
      if owner = _from ∧ spender = tx.sender then x.toNat else 0
  | _ => 0

end Tx

namespace State

/-- The pool's share of a taxed transfer before it is clamped. -/
def poolRequest (s : State) (tx : Tx) : ℕ :=
  match tx.movement with
  | some (src, dst, x) =>
      if s.taxed src dst then poolShare x else 0
  | none => 0

end State

/-- An allowance after `x` was spent of it. -/
def spentDown (allowance x : ℕ) : ℕ :=
  if allowance = uintMax then allowance else allowance - x

theorem spentDown_zero (allowance : ℕ) : spentDown allowance 0 = allowance := by
  unfold spentDown
  split <;> rfl

theorem spentDown_spentDown {allowance : ℕ} (h : allowance < 2 ^ 256) (x y : ℕ) :
    spentDown (spentDown allowance x) y = spentDown allowance (x + y) := by
  unfold spentDown
  by_cases hmax : allowance = uintMax
  · rw [if_pos hmax, if_pos hmax, if_pos hmax]
  · have hless : allowance - x ≠ uintMax := by
      unfold uintMax at hmax ⊢
      omega
    rw [if_neg hmax, if_neg hless, if_neg hmax, Nat.sub_sub]

/-! ## One call of a block -/

theorem charge_nonces (s : State) (tx : Tx) : (s.charge tx)._nonces = s._nonces := by
  unfold charge
  split <;> rfl

theorem charge_allowances {s : State} {tx : Tx} (hallow : s.Allows tx)
    (hword : ∀ owner spender, s._allowances owner spender < 2 ^ 256)
    (owner spender : Address) :
    (s.charge tx)._allowances owner spender =
      spentDown (s._allowances owner spender) (tx.spends owner spender) := by
  obtain ⟨msg, call⟩ := tx
  cases call with
  | transferFrom _from _to x =>
      show (s.toERC20.spent _from msg.sender x.toNat)._allowances owner spender = _
      by_cases hparty : owner = _from ∧ spender = msg.sender
      · obtain ⟨rfl, rfl⟩ := hparty
        have hspends : Tx.spends ⟨msg, .transferFrom owner _to x⟩ owner msg.sender =
            x.toNat := if_pos ⟨rfl, rfl⟩
        rw [hspends, spentDown]
        by_cases hmax : s._allowances owner msg.sender = uintMax
        · rw [ERC20.spent_infinite hmax, if_pos hmax]
        · have hcover : x.toNat ≤ s._allowances owner msg.sender :=
            hallow.resolve_left hmax
          rw [ERC20.spent_finite hmax hcover (hword _ _), if_neg hmax]
      · have hspends : Tx.spends ⟨msg, .transferFrom _from _to x⟩ owner spender = 0 :=
          if_neg hparty
        rw [hspends, spentDown_zero, ERC20.spent_other hparty]
  | _ => exact (spentDown_zero _).symm

theorem Effect.allowances {s s' : State} {tx : Tx} (he : Effect s tx s')
    (hword : ∀ owner spender, s._allowances owner spender < 2 ^ 256)
    (hcall : tx.call.isApproval = false) (owner spender : Address) :
    s'._allowances owner spender =
      spentDown (s._allowances owner spender) (tx.spends owner spender) := by
  cases he with
  | launch hlaunch =>
      have hnone : tx.spends owner spender = 0 := by simp [Tx.spends, hlaunch]
      rw [hnone, spentDown_zero]
      rfl
  | reapprove happroval =>
      rw [happroval] at hcall
      exact Bool.noConfusion hcall
  | send _ hallow =>
      rw [send_allowances]
      exact charge_allowances hallow hword owner spender
  | moveScore hscore =>
      have hnone : tx.spends owner spender = 0 := by simp [Tx.spends, hscore]
      rw [hnone, spentDown_zero]
      rfl

theorem Effect.nonces {s s' : State} {tx : Tx} (he : Effect s tx s')
    (hcall : tx.call.isApproval = false) : s'._nonces = s._nonces := by
  cases he with
  | launch => rfl
  | reapprove happroval =>
      rw [happroval] at hcall
      exact Bool.noConfusion hcall
  | send => rw [send_nonces, charge_nonces]
  | moveScore => rfl

namespace Tx.Avoids

variable {tx : Tx} {pool : Address}

theorem isApproval (h : tx.Avoids pool) : tx.call.isApproval = false := by
  obtain ⟨msg, call⟩ := tx
  cases call <;> first | rfl | exact h.elim

theorem pays (h : tx.Avoids pool) : tx.pays pool = 0 := by
  obtain ⟨msg, call⟩ := tx
  cases call with
  | transfer => exact if_neg h.1.symm
  | transferFrom => exact if_neg h.1.symm
  | _ => rfl

theorem receives (h : tx.Avoids pool) (s : State) : s.receives tx pool = 0 := by
  obtain ⟨msg, call⟩ := tx
  cases call with
  | transfer => exact if_neg h.2.symm
  | transferFrom => exact if_neg h.2.symm
  | _ => rfl

end Tx.Avoids

/-- What a call burns from the pool is its request, clamped. -/
theorem poolDue_eq_min (s : State) (tx : Tx) :
    s.poolDue tx =
      min (s.poolRequest tx) (s._balances s.liquidityPool - RESERVE_BUFFER) := by
  unfold poolDue poolRequest poolBurn
  cases tx.movement with
  | none => exact (Nat.zero_min _).symm
  | some m =>
      obtain ⟨src, dst, x⟩ := m
      dsimp only
      split
      · rfl
      · exact (Nat.zero_min _).symm

theorem poolRequest_congr {s r : State} (h : r.taxed = s.taxed) :
    r.poolRequest = s.poolRequest := by
  unfold poolRequest
  rw [h]

/-- **The closed form of a block.** `rules` has the pool and the exemptions in
force; `s'` is reached from `s` by executing `txs` at time `now`. -/
structure Block (rules : State) (now : ℕ) (s : State) (txs : List Tx)
    (s' : State) : Prop where
  good : Good now s'
  owner : s'.owner = s.owner
  pool : s'.liquidityPool = s.liquidityPool
  exempt : s'.exemptedAddresses = s.exemptedAddresses
  nonces : s'._nonces = s._nonces
  clock : s'.lastMintTime = if txs = [] then s.lastMintTime else now
  index : s'.indexAt now = s.indexAt now
  checkpoint : ∀ a, s'.userRewardsPerTokenBurned a =
    if ∃ tx ∈ txs, a ∈ tx.settles then s.indexAt now
      else s.userRewardsPerTokenBurned a
  balance : ∀ a, a ≠ rules.liquidityPool →
    s'.balanceAt now a + (txs.map (·.pays a)).sum =
      s.balanceAt now a + (txs.map (rules.receives · a)).sum
  pooled : s'._balances rules.liquidityPool =
    leftAbove RESERVE_BUFFER (s._balances rules.liquidityPool)
      (txs.map rules.poolRequest).sum
  score : ∀ a, s'.burnScore a + (txs.map (·.yields a)).sum =
    s.burnScore a +
      (txs.map fun tx => tx.obtains a + rules.earns tx a).sum
  burned : s'.totalBurned = s.totalBurned + (txs.map rules.taxDue).sum
  supply : s'.supplyAt now + s'.totalBurned + s._balances rules.liquidityPool =
    s.supplyAt now + s.totalBurned + s'._balances rules.liquidityPool
  allowance : ∀ owner spender, s'._allowances owner spender =
    spentDown (s._allowances owner spender)
      (txs.map (·.spends owner spender)).sum

namespace Block

variable {rules s s₁ s' : State} {now : ℕ} {tx : Tx} {txs : List Tx}

theorem refl (h : Good now s) : Block rules now s [] s where
  good := h
  owner := rfl
  pool := rfl
  exempt := rfl
  nonces := rfl
  clock := rfl
  index := rfl
  checkpoint a := by simp
  balance a _ := rfl
  pooled := (leftAbove_zero _ _).symm
  score a := rfl
  burned := rfl
  supply := rfl
  allowance owner spender := (spentDown_zero _).symm

/-- A call, and then the rest of the block. -/
theorem cons (hg : Good now s) (h₁ : Block rules now s [tx] s₁)
    (h : Block rules now s₁ txs s') :
    Block rules now s (tx :: txs) s' where
  good := h.good
  owner := h.owner.trans h₁.owner
  pool := h.pool.trans h₁.pool
  exempt := h.exempt.trans h₁.exempt
  nonces := h.nonces.trans h₁.nonces
  clock := by
    have hclock := h.clock
    have hclock₁ := h₁.clock
    rw [if_neg (List.cons_ne_nil _ _)] at hclock₁ ⊢
    rw [hclock₁, ite_self] at hclock
    exact hclock
  index := h.index.trans h₁.index
  checkpoint a := by
    rw [h.checkpoint a, h₁.checkpoint a, h₁.index]
    simp only [List.mem_cons, List.not_mem_nil, or_false, exists_eq_left,
      exists_eq_or_imp]
    by_cases hsettled : a ∈ tx.settles
    · simp [hsettled]
    · simp [hsettled]
  balance a ha := by
    have hbalance := h.balance a ha
    have hbalance₁ := h₁.balance a ha
    simp only [List.map_cons, List.map_nil, List.sum_cons, List.sum_nil] at *
    omega
  pooled := by
    have hpooled₁ := h₁.pooled
    rw [List.map_singleton, List.sum_singleton] at hpooled₁
    rw [h.pooled, hpooled₁, leftAbove_leftAbove, List.map_cons, List.sum_cons]
  score a := by
    have hscore := h.score a
    have hscore₁ := h₁.score a
    simp only [List.map_cons, List.map_nil, List.sum_cons, List.sum_nil] at *
    omega
  burned := by
    have hburned₁ := h₁.burned
    rw [List.map_singleton, List.sum_singleton] at hburned₁
    rw [h.burned, hburned₁, List.map_cons, List.sum_cons, Nat.add_assoc]
  supply := by
    have hsupply := h.supply
    have hsupply₁ := h₁.supply
    omega
  allowance owner spender := by
    have hallowance₁ := h₁.allowance owner spender
    rw [List.map_singleton, List.sum_singleton] at hallowance₁
    rw [h.allowance, hallowance₁,
      spentDown_spentDown (hg.allowance owner spender),
      List.map_cons, List.sum_cons]

theorem single {evm : Evm} (hg : Good now s) (howner : s.owner = 0)
    (hpool : s.liquidityPool = rules.liquidityPool)
    (hexempt : s.exemptedAddresses = rules.exemptedAddresses)
    (hnow : tx.now = now) (havoid : tx.Avoids rules.liquidityPool)
    (h : Next evm s tx s₁) : Block rules now s [tx] s₁ := by
  subst hnow
  have hg₁ : Good tx.now s₁ := hg.next (Nat.le_refl _) h
  have he := step_effect hg h
  have hflows := he.flows hg
  have hcall := havoid.isApproval
  have htaxed : rules.taxed = s.taxed := taxed_congr hpool.symm hexempt.symm
  obtain ⟨howner₁, hpool₁, hexempt₁⟩ := he.frozen howner
  have hclock := he.accrues hg.inv howner hcall
  -- the pool is no party, so it only loses the clamped request
  have hpooled := hflows.pooled hg.inv hg₁.inv hpool₁
  rw [hpool, havoid.pays, havoid.receives, Nat.zero_add, Nat.add_zero] at hpooled
  have hdue := poolDue_eq_min s tx
  rw [hpool, ← poolRequest_congr htaxed] at hdue
  refine
    { good := hg₁
      owner := howner₁.trans howner.symm
      pool := hpool₁
      exempt := hexempt₁
      nonces := he.nonces hcall
      clock := ?_, index := ?_, checkpoint := ?_, balance := ?_, pooled := ?_
      score := ?_, burned := ?_, supply := ?_, allowance := ?_ }
  · rw [if_neg (List.cons_ne_nil _ _), hclock]
  · rw [indexAt_self hclock, he.index hg.inv howner hcall]
  · intro a
    simp only [List.mem_singleton, exists_eq_left]
    exact he.checkpoint hg.inv howner a
  · intro a ha
    have hbalance := hflows.balance a
    have hloss : s.poolLoss tx a = 0 := by
      unfold poolLoss
      rw [hpool, if_neg ha]
    rw [hloss, Nat.add_zero] at hbalance
    rw [List.map_singleton, List.sum_singleton, List.map_singleton,
      List.sum_singleton, receives_congr htaxed]
    exact hbalance
  · rw [hdue] at hpooled
    rw [List.map_singleton, List.sum_singleton]
    exact eq_leftAbove hpooled
  · intro a
    have hscore := hflows.score a
    rw [List.map_singleton, List.sum_singleton, List.map_singleton,
      List.sum_singleton, earns_congr htaxed, ← Nat.add_assoc]
    exact hscore
  · rw [List.map_singleton, List.sum_singleton, taxDue_congr htaxed]
    exact hflows.burned
  · have hsupply := hflows.supply
    have hburned := hflows.burned
    omega
  · intro owner spender
    rw [List.map_singleton, List.sum_singleton]
    exact he.allowances hg.allowance hcall owner spender

/-- Executing the block gives its closed form, step by step. -/
theorem of_execute {evm : Evm} (hg : Good now s) (howner : s.owner = 0)
    (hpool : s.liquidityPool = rules.liquidityPool)
    (hexempt : s.exemptedAddresses = rules.exemptedAddresses)
    (htxs : ∀ tx ∈ txs, tx.now = now ∧ tx.Avoids rules.liquidityPool)
    (h : execute evm s txs = .ok s') : Block rules now s txs s' := by
  induction txs generalizing s with
  | nil =>
      obtain rfl := Except.ok.inj h
      exact refl hg
  | cons tx txs ih =>
      obtain ⟨s₁, hstep, hrest⟩ := execute_cons_eq_ok.mp h
      obtain ⟨hnow, havoid⟩ := htxs tx List.mem_cons_self
      have h₁ := single hg howner hpool hexempt hnow havoid hstep
      exact cons hg h₁ (ih h₁.good (h₁.owner.trans howner) (h₁.pool.trans hpool)
        (h₁.exempt.trans hexempt)
        (fun tx' hmem => htxs tx' (List.mem_cons_of_mem _ hmem)) hrest)

/-! ## The order does not matter -/

/-- The closed form only has sums and membership in it. -/
theorem perm {txs' : List Tx} (h : Block rules now s txs s')
    (hperm : txs.Perm txs') : Block rules now s txs' s' where
  good := h.good
  owner := h.owner
  pool := h.pool
  exempt := h.exempt
  nonces := h.nonces
  clock := by
    rw [h.clock]
    simp only [← List.length_eq_zero_iff, hperm.length_eq]
  index := h.index
  checkpoint a := by
    rw [h.checkpoint a]
    simp only [hperm.mem_iff]
  balance a ha := by
    rw [← (hperm.map (·.pays a)).sum_eq, ← (hperm.map (rules.receives · a)).sum_eq]
    exact h.balance a ha
  pooled := by
    rw [← (hperm.map rules.poolRequest).sum_eq]
    exact h.pooled
  score a := by
    rw [← (hperm.map (·.yields a)).sum_eq, ← (hperm.map fun tx =>
      tx.obtains a + rules.earns tx a).sum_eq]
    exact h.score a
  burned := by
    rw [← (hperm.map rules.taxDue).sum_eq]
    exact h.burned
  supply := h.supply
  allowance owner spender := by
    rw [← (hperm.map (·.spends owner spender)).sum_eq]
    exact h.allowance owner spender

/-- The minted supply follows from the balances, which sum to it, and the
pending mints from the supply that is shown. -/
theorem unique (hne : txs ≠ []) (h₁ : Block rules now s txs s₁)
    (h₂ : Block rules now s txs s') :
    { s₁ with logs := [] } = { s' with logs := [] } := by
  have hclock₁ : s₁.lastMintTime = now := by rw [h₁.clock, if_neg hne]
  have hclock₂ : s'.lastMintTime = now := by rw [h₂.clock, if_neg hne]
  have hscore : s₁.burnScore = s'.burnScore := by
    ext a
    have hscore₁ := h₁.score a
    have hscore₂ := h₂.score a
    omega
  have hcheckpoint : s₁.userRewardsPerTokenBurned = s'.userRewardsPerTokenBurned := by
    ext a
    rw [h₁.checkpoint a, h₂.checkpoint a]
  have hindex : s₁.indexAt now = s'.indexAt now := h₁.index.trans h₂.index.symm
  have hbalances : s₁._balances = s'._balances := by
    ext a
    by_cases ha : a = rules.liquidityPool
    · rw [ha, h₁.pooled, h₂.pooled]
    · -- equal balances are shown, and equal parts of them are pending
      have hrewards : s₁.rewardsAt now a = s'.rewardsAt now a := by
        unfold rewardsAt
        rw [hscore, hindex, hcheckpoint]
      have hbalance₁ := h₁.balance a ha
      have hbalance₂ := h₂.balance a ha
      unfold balanceAt at hbalance₁ hbalance₂
      omega
  have hburned : s₁.totalBurned = s'.totalBurned := h₁.burned.trans h₂.burned.symm
  have htotal : s₁._totalSupply = s'._totalSupply := by
    rw [← h₁.good.inv.sum, ← h₂.good.inv.sum, hbalances]
  have hpending : s₁.pendingMints = s'.pendingMints := by
    have hsupply₁ := h₁.supply
    have hsupply₂ := h₂.supply
    unfold supplyAt at hsupply₁ hsupply₂
    rw [accrued_self hclock₁] at hsupply₁
    rw [accrued_self hclock₂] at hsupply₂
    rw [hburned, hbalances, htotal] at hsupply₁
    omega
  have hallowances : s₁._allowances = s'._allowances := by
    ext owner spender
    rw [h₁.allowance, h₂.allowance]
  have hstored : s₁.rewardsPerTokenBurned = s'.rewardsPerTokenBurned := by
    rw [← indexAt_self hclock₁, ← indexAt_self hclock₂, hindex]
  have howner := h₁.owner.trans h₂.owner.symm
  have hsame := h₁.pool.trans h₂.pool.symm
  have hexempt := h₁.exempt.trans h₂.exempt.symm
  have hnonces := h₁.nonces.trans h₂.nonces.symm
  have hclock := hclock₁.trans hclock₂.symm
  rw [hbalances, hallowances, htotal, hnonces, howner, hsame, hexempt, hstored,
    hcheckpoint, hclock, hpending, hburned, hscore]

end Block

/-- **Order independence inside one block.** Any two orders of the same calls
at one timestamp, if both go through, leave the same storage: everything but
the log. -/
theorem block_order_independent {evm : Evm} {t now : ℕ} {s s₁ s₂ : State}
    {txs txs' : List Tx} (hs : Reachable evm t s) (howner : s.owner = 0)
    (ht : t ≤ now)
    (htxs : ∀ tx ∈ txs, tx.now = now ∧ tx.Avoids s.liquidityPool)
    (hperm : txs.Perm txs') (h₁ : execute evm s txs = .ok s₁)
    (h₂ : execute evm s txs' = .ok s₂) :
    { s₁ with logs := [] } = { s₂ with logs := [] } := by
  by_cases hnil : txs = []
  · subst hnil
    obtain rfl := hperm.nil_eq
    obtain rfl := Except.ok.inj (h₁.symm.trans h₂)
    rfl
  · have hg := hs.good.later ht
    have hblock₁ := Block.of_execute hg howner rfl rfl htxs h₁
    have hblock₂ := Block.of_execute hg howner rfl rfl
      (fun tx hmem => htxs tx (hperm.mem_iff.mpr hmem)) h₂
    exact hblock₁.unique hnil (hblock₂.perm hperm.symm)

def approveTx : Tx := ⟨friendMsg 350, .approve 2 1000#256⟩

/-- Account `2` pays `3`, spends from `3` and gives score to `3`. -/
def blockTxs : List Tx :=
  [ ⟨traderMsg 400, .transfer 3 100000000000000000000#256⟩
  , ⟨traderMsg 400, .transferFrom 3 2 900#256⟩
  , ⟨traderMsg 400, .transferBurnScore 3 100000000000000000#256⟩ ]

/-- The sample block, forwards and backwards. -/
theorem sample_block_order :
    ∃ s₁ s₂,
      execute sampleEvm (sampleState (sampleTxs ++ [approveTx])) blockTxs =
        .ok s₁ ∧
      execute sampleEvm (sampleState (sampleTxs ++ [approveTx])) blockTxs.reverse =
        .ok s₂ ∧
      { s₁ with logs := [] } = { s₂ with logs := [] } := by
  obtain ⟨g, steps, hg, hrun, -⟩ := sampleState_run
    (by decide +kernel : (sampleRun (sampleTxs ++ [approveTx])).isOk = true)
    (by decide) (by decide :
      (0 :: (sampleTxs ++ [approveTx]).map Tx.now).getLast? = some 350)
  obtain ⟨s₁, h₁⟩ := exists_of_isOk (by decide +kernel :
    (execute sampleEvm (sampleState (sampleTxs ++ [approveTx])) blockTxs).isOk = true)
  obtain ⟨s₂, h₂⟩ := exists_of_isOk (by decide +kernel :
    (execute sampleEvm (sampleState (sampleTxs ++ [approveTx]))
      blockTxs.reverse).isOk = true)
  have hpool : (sampleState (sampleTxs ++ [approveTx])).liquidityPool = 100 := by
    decide +kernel
  refine ⟨s₁, s₂, h₁, h₂, block_order_independent ⟨0, 1, g, steps, hg, hrun⟩
    (by decide +kernel) (by decide : 350 ≤ 400) ?_
    (List.reverse_perm blockTxs).symm h₁ h₂⟩
  rw [hpool]
  intro tx hmem
  simp only [blockTxs, List.mem_cons, List.not_mem_nil, or_false] at hmem
  rcases hmem with rfl | rfl | rfl
  · exact ⟨rfl, by decide, by decide⟩
  · exact ⟨rfl, by decide, by decide⟩
  · exact ⟨rfl, by decide, by decide⟩

end CyberCash
