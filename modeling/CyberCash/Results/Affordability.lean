import CyberCash.Results.BlockOrder
import CyberCash.Results.Spendability

/-!
# A block that everybody can afford

The calls of one block share the index, the pending mints, the minted supply
and the clamped pool, yet none of them stands in the way of another. If all
that an account pays in the block is within what it is shown at the start, all
score it gives within its score, and all that is drawn from an allowance within
the allowance, then every call succeeds, in any order. So everybody can cash
out at once, rewards included, and nobody gains or loses by being late.
-/

namespace CyberCash

open Solidity Function State TimedRun

/-! ## Budgets -/

namespace State

/-- The parties of a movement of tokens or score pass the checks. -/
def Accepts (s : State) (tx : Tx) : Prop :=
  match tx.call with
  | .transfer _to _ => _to ≠ 0
  | .transferFrom _from _to _ => _from ≠ 0 ∧ _to ≠ 0
  | .transferBurnScore _to n =>
      _to ≠ 0 ∧ s.exemptedAddresses _to = false ∧ n.toNat ≠ 0
  | _ => False

/-- The most that a call can take from an account: what it pays, and from the
pool the share that the burn asks for. -/
def outlay (s : State) (tx : Tx) (a : Address) : ℕ :=
  tx.pays a + if a = s.liquidityPool then s.poolRequest tx else 0

end State

/-- **Budgets of a block.** Every account stays within its means; one that pays
nothing, as a pool that is only burned from, needs none. -/
structure Affords (s : State) (now : ℕ) (txs : List Tx) : Prop where
  accepts : ∀ tx ∈ txs, tx.now = now ∧ s.Accepts tx
  balance : ∀ a, (∀ tx ∈ txs, tx.pays a = 0) ∨
    (txs.map (s.outlay · a)).sum ≤ s.balanceAt now a
  score : ∀ a, (txs.map (·.yields a)).sum ≤ s.burnScore a
  allowance : ∀ owner spender, s._allowances owner spender = uintMax ∨
    (txs.map (·.spends owner spender)).sum ≤ s._allowances owner spender

section OneCall

variable {evm : Evm} {s s' : State} {tx : Tx} {txs : List Tx} {now : ℕ} {a : Address}

theorem State.Accepts.isInitialise (h : s.Accepts tx) : tx.call.isInitialise = false := by
  obtain ⟨msg, call⟩ := tx
  cases call <;> first | rfl | exact h.elim

theorem State.Accepts.isApproval (h : s.Accepts tx) : tx.call.isApproval = false := by
  obtain ⟨msg, call⟩ := tx
  cases call <;> first | rfl | exact h.elim

theorem State.accepts_congr (h : s'.exemptedAddresses = s.exemptedAddresses)
    (htx : s.Accepts tx) : s'.Accepts tx := by
  obtain ⟨msg, call⟩ := tx
  cases call with
  | transferBurnScore =>
      obtain ⟨hto, hexempt, hn⟩ := htx
      exact ⟨hto, (congrFun h _).trans hexempt, hn⟩
  | _ => exact htx

theorem outlay_congr (hpool : s'.liquidityPool = s.liquidityPool)
    (hexempt : s'.exemptedAddresses = s.exemptedAddresses) : s'.outlay = s.outlay := by
  unfold outlay
  rw [hpool, poolRequest_congr (taxed_congr hpool hexempt)]

/-- The burn takes no more than its share. -/
theorem poolLoss_le_request (s : State) (tx : Tx) (a : Address) :
    s.poolLoss tx a ≤ if a = s.liquidityPool then s.poolRequest tx else 0 := by
  unfold poolLoss
  split
  · rw [poolDue_eq_min]
    exact Nat.min_le_left _ _
  · exact Nat.le_refl 0

/-- A call takes at most its outlay. -/
theorem Flows.outlay (h : Flows s tx s') (a : Address) :
    s.balanceAt tx.now a ≤ s'.balanceAt tx.now a + s.outlay tx a := by
  have hbalance := h.balance a
  have hloss := poolLoss_le_request s tx a
  unfold State.outlay
  omega

namespace Affords

theorem head_balance (h : Affords s now (tx :: txs)) (a : Address) :
    tx.pays a ≤ s.balanceAt now a := by
  rcases h.balance a with hnone | hbudget
  · rw [hnone tx List.mem_cons_self]
    exact Nat.zero_le _
  · rw [List.map_cons, List.sum_cons] at hbudget
    have hpays : tx.pays a ≤ s.outlay tx a := Nat.le_add_right _ _
    omega

theorem head_score (h : Affords s now (tx :: txs)) (a : Address) :
    tx.yields a ≤ s.burnScore a := by
  have hbudget := h.score a
  rw [List.map_cons, List.sum_cons] at hbudget
  omega

theorem head_allowance (h : Affords s now (tx :: txs)) (owner spender : Address) :
    s._allowances owner spender = uintMax ∨
      tx.spends owner spender ≤ s._allowances owner spender := by
  refine (h.allowance owner spender).imp_right fun hbudget => ?_
  rw [List.map_cons, List.sum_cons] at hbudget
  omega

/-- The first call of an affordable block succeeds. -/
theorem head (evm : Evm) (h : Affords s now (tx :: txs)) (hg : Good now s)
    (hnow : now < 2 ^ 64) : ∃ s', step evm s tx = .ok s' := by
  obtain ⟨rfl, haccepts⟩ := h.accepts tx List.mem_cons_self
  have hbalance := h.head_balance
  have hscore := h.head_score
  have hallowance := h.head_allowance
  obtain ⟨msg, call⟩ := tx
  cases call with
  | transfer _to x =>
      have hpays : Tx.pays ⟨msg, .transfer _to x⟩ msg.sender = x.toNat := if_pos rfl
      have hx := hbalance msg.sender
      rw [hpays] at hx
      show ∃ s', s.transfer msg _to x.toNat = .ok s'
      rw [transfer_eq_sendBody]
      exact (sendBody_succeeds_iff hg hnow msg.sender_ne_zero _to x.toNat).mpr
        ⟨haccepts, hx⟩
  | transferFrom _from _to x =>
      obtain ⟨hfrom, hto⟩ := haccepts
      have hpays : Tx.pays ⟨msg, .transferFrom _from _to x⟩ _from = x.toNat := if_pos rfl
      have hspends : Tx.spends ⟨msg, .transferFrom _from _to x⟩ _from msg.sender =
          x.toNat := if_pos ⟨rfl, rfl⟩
      have hx := hbalance _from
      have hcover := hallowance _from msg.sender
      rw [hpays] at hx
      rw [hspends] at hcover
      exact (transferFrom_succeeds_iff hg hnow hfrom).mpr ⟨⟨hto, hx⟩, hcover⟩
  | transferBurnScore _to n =>
      obtain ⟨hto, hexempt, hpositive⟩ := haccepts
      have hyields : Tx.yields ⟨msg, .transferBurnScore _to n⟩ msg.sender = n.toNat :=
        if_pos rfl
      have hn := hscore msg.sender
      rw [hyields] at hn
      exact ⟨_, transferBurnScore_ok hg hnow hto hexempt hpositive hn⟩
  | _ => exact haccepts.elim

/-- **Step lemma.** What is left of the block is affordable afterwards. -/
theorem tail (h : Affords s now (tx :: txs)) (hg : Good now s)
    (hnext : step evm s tx = .ok s') : Affords s' now txs := by
  obtain ⟨rfl, haccepts⟩ := h.accepts tx List.mem_cons_self
  have he := step_effect hg hnext
  have hflows := he.flows hg
  obtain ⟨-, hpool, hexempt⟩ := he.frame haccepts.isInitialise
  refine ⟨?_, ?_, ?_, ?_⟩
  · intro tx' hmem
    obtain ⟨hclock, htx⟩ := h.accepts tx' (List.mem_cons_of_mem _ hmem)
    exact ⟨hclock, accepts_congr hexempt htx⟩
  · intro a
    refine (h.balance a).imp (fun hnone tx' hmem => hnone tx' (List.mem_cons_of_mem _ hmem))
      fun hbudget => ?_
    rw [List.map_cons, List.sum_cons] at hbudget
    have hloss := hflows.outlay a
    rw [outlay_congr hpool hexempt]
    omega
  · intro a
    have hbudget := h.score a
    have hscore := hflows.score a
    rw [List.map_cons, List.sum_cons] at hbudget
    omega
  · intro owner spender
    have hleft := he.allowances hg.allowance haccepts.isApproval owner spender
    rcases h.allowance owner spender with hmax | hbudget
    · left
      rw [hleft, spentDown, if_pos hmax, hmax]
    · rw [List.map_cons, List.sum_cons] at hbudget
      unfold spentDown at hleft
      split at hleft
      · next hmax => exact .inl (hleft.trans hmax)
      · right
        omega

theorem perm {order : List Tx} (h : Affords s now txs) (hperm : order.Perm txs) :
    Affords s now order where
  accepts tx hmem := h.accepts tx (hperm.mem_iff.mp hmem)
  balance a := by
    rw [(hperm.map (s.outlay · a)).sum_eq]
    exact (h.balance a).imp_left fun hnone tx hmem => hnone tx (hperm.mem_iff.mp hmem)
  score a := by
    rw [(hperm.map (·.yields a)).sum_eq]
    exact h.score a
  allowance owner spender := by
    rw [(hperm.map (·.spends owner spender)).sum_eq]
    exact h.allowance owner spender

end Affords

end OneCall

/-! ## Whole blocks -/

section Blocks

variable {evm : Evm} {s s₁ s' : State} {tx : Tx} {txs : List Tx} {now : ℕ}

/-- What a block has done to the accounts, by the sums over its calls. -/
structure BlockEffect (s : State) (now : ℕ) (txs : List Tx) (s' : State) : Prop where
  good : Good now s'
  score : ∀ a, s'.burnScore a + (txs.map (·.yields a)).sum =
    s.burnScore a + (txs.map fun tx => tx.obtains a + s.earns tx a).sum
  balance : ∀ a, a ≠ s.liquidityPool →
    s'.balanceAt now a + (txs.map (·.pays a)).sum =
      s.balanceAt now a + (txs.map (s.receives · a)).sum

theorem BlockEffect.cons (hg : Good tx.now s) (haccepts : s.Accepts tx)
    (hnext : step evm s tx = .ok s₁) (h : BlockEffect s₁ tx.now txs s') :
    BlockEffect s tx.now (tx :: txs) s' := by
  have he := step_effect hg hnext
  have hflows := he.flows hg
  obtain ⟨-, hpool, hexempt⟩ := he.frame haccepts.isInitialise
  have htaxed : s₁.taxed = s.taxed := taxed_congr hpool hexempt
  refine ⟨h.good, ?_, ?_⟩
  · intro a
    have hfirst := hflows.score a
    have hrest := h.score a
    rw [earns_congr htaxed] at hrest
    simp only [List.map_cons, List.sum_cons]
    omega
  · intro a ha
    have hfirst := hflows.balance a
    have hrest := h.balance a (hpool.symm ▸ ha)
    rw [receives_congr htaxed] at hrest
    rw [poolLoss, if_neg ha] at hfirst
    simp only [List.map_cons, List.sum_cons]
    omega

/-- **Run lemma.** An affordable block goes through. -/
theorem Affords.execute (evm : Evm) (h : Affords s now txs) (hg : Good now s)
    (hnow : now < 2 ^ 64) : ∃ s', execute evm s txs = .ok s' ∧ BlockEffect s now txs s' := by
  induction txs generalizing s with
  | nil => exact ⟨s, rfl, hg, fun _ => rfl, fun _ _ => rfl⟩
  | cons tx txs ih =>
      obtain ⟨s₁, hnext⟩ := h.head evm hg hnow
      obtain ⟨rfl, haccepts⟩ := h.accepts tx List.mem_cons_self
      have hg₁ : Good tx.now s₁ := hg.next (Nat.le_refl _) hnext
      obtain ⟨s', hrest, hblock⟩ := ih (h.tail hg hnext) hg₁
      exact ⟨s', execute_cons_eq_ok.mpr ⟨s₁, hnext, hrest⟩,
        .cons hg haccepts hnext hblock⟩

end Blocks

/-- **A block that everybody can afford goes through in any order**, and what
every account but the pool has in the end does not depend on the order. -/
theorem affordable_block_executes {evm : Evm} {t now : ℕ} {s : State} {txs : List Tx}
    (hs : Reachable evm t s) (ht : t ≤ now) (hnow : now < 2 ^ 64)
    (haccepts : ∀ tx ∈ txs, tx.now = now ∧ s.Accepts tx)
    (hbalance : ∀ a, (∀ tx ∈ txs, tx.pays a = 0) ∨
      ∃ shown, s.balanceOf now a = .ok shown ∧ (txs.map (s.outlay · a)).sum ≤ shown)
    (hscore : ∀ a, (txs.map (·.yields a)).sum ≤ s.burnScore a)
    (hallowance : ∀ owner spender, s._allowances owner spender = 2 ^ 256 - 1 ∨
      (txs.map (·.spends owner spender)).sum ≤ s._allowances owner spender) :
    ∀ order, order.Perm txs → ∃ s', execute evm s order = .ok s' ∧
      (∀ a, s'.burnScore a + (txs.map (·.yields a)).sum =
        s.burnScore a + (txs.map fun tx => tx.obtains a + s.earns tx a).sum) ∧
      ∀ a, a ≠ s.liquidityPool → ∃ before after,
        s.balanceOf now a = .ok before ∧ s'.balanceOf now a = .ok after ∧
        after + (txs.map (·.pays a)).sum = before + (txs.map (s.receives · a)).sum := by
  intro order hperm
  have hg := hs.good.later ht
  have haffords : Affords s now txs := by
    refine ⟨haccepts, ?_, hscore, hallowance⟩
    intro a
    refine (hbalance a).imp_right ?_
    rintro ⟨shown, hshown, hbudget⟩
    rwa [balanceOf_eq hshown] at hbudget
  obtain ⟨s', hexecute, hblock⟩ := (haffords.perm hperm).execute evm hg hnow
  refine ⟨s', hexecute, ?_, ?_⟩
  · intro a
    have hsum := hblock.score a
    rwa [(hperm.map (·.yields a)).sum_eq,
      (hperm.map fun tx => tx.obtains a + s.earns tx a).sum_eq] at hsum
  · intro a ha
    have hsum := hblock.balance a ha
    rw [(hperm.map (·.pays a)).sum_eq, (hperm.map (s.receives · a)).sum_eq] at hsum
    exact ⟨_, _, (hg.fits (Nat.le_refl _) hnow).balanceOf a,
      (hblock.good.fits (Nat.le_refl _) hnow).balanceOf a, hsum⟩

/-- Account `2` sends all it is shown and gives away all its score, account `3`
sends what is left when `2` has drawn on it. -/
def cashOutTxs : List Tx :=
  [ ⟨traderMsg 400, .transfer 4 1004973566717402333830492#256⟩
  , ⟨traderMsg 400, .transferBurnScore 3 300000000000000000#256⟩
  , ⟨traderMsg 400, .transferFrom 3 4 900#256⟩
  , ⟨friendMsg 400, .transfer 4 1367891679350583456723#256⟩ ]

theorem sample_cash_out :
    ∃ s', execute sampleEvm (sampleState (sampleTxs ++ [approveTx])) cashOutTxs.reverse =
      .ok s' := by
  have hs : Reachable sampleEvm 350 (sampleState (sampleTxs ++ [approveTx])) :=
    sampleState_reachable (by decide +kernel) (by decide) (by decide)
  have hto : (4 : Address) ≠ 0 := by decide
  have haccepts : ∀ tx ∈ cashOutTxs, tx.now = 400 ∧
      (sampleState (sampleTxs ++ [approveTx])).Accepts tx := by
    intro tx hmem
    simp only [cashOutTxs, List.mem_cons, List.not_mem_nil, or_false] at hmem
    rcases hmem with rfl | rfl | rfl | rfl
    · exact ⟨rfl, hto⟩
    · exact ⟨rfl, by decide, by decide +kernel, by decide⟩
    · exact ⟨rfl, by decide, hto⟩
    · exact ⟨rfl, hto⟩
  have hbalance : ∀ a, (∀ tx ∈ cashOutTxs, tx.pays a = 0) ∨
      ∃ shown, (sampleState (sampleTxs ++ [approveTx])).balanceOf 400 a = .ok shown ∧
        (cashOutTxs.map ((sampleState (sampleTxs ++ [approveTx])).outlay · a)).sum ≤
          shown := by
    intro a
    by_cases htrader : a = 2
    · subst htrader
      exact .inr ⟨1004973566717402333830492, by decide +kernel, by decide +kernel⟩
    by_cases hfriend : a = 3
    · subst hfriend
      exact .inr ⟨1367891679350583457623, by decide +kernel, by decide +kernel⟩
    left
    intro tx hmem
    simp only [cashOutTxs, List.mem_cons, List.not_mem_nil, or_false] at hmem
    rcases hmem with rfl | rfl | rfl | rfl
    · exact if_neg htrader
    · rfl
    · exact if_neg hfriend
    · exact if_neg hfriend
  have hscore : ∀ a, (cashOutTxs.map (·.yields a)).sum ≤
      (sampleState (sampleTxs ++ [approveTx])).burnScore a := by
    intro a
    by_cases htrader : a = (traderMsg 400).sender
    · subst htrader
      decide +kernel
    · have hnone : (cashOutTxs.map (·.yields a)).sum = 0 := by
        show 0 + ((if a = (traderMsg 400).sender then _ else 0) + _) = 0
        rw [if_neg htrader]
        rfl
      rw [hnone]
      exact Nat.zero_le _
  have hallowance : ∀ owner spender,
      (cashOutTxs.map (·.spends owner spender)).sum ≤
        (sampleState (sampleTxs ++ [approveTx]))._allowances owner spender := by
    intro owner spender
    by_cases hpair : owner = 3 ∧ spender = (traderMsg 400).sender
    · obtain ⟨rfl, rfl⟩ := hpair
      decide +kernel
    · have hnone : (cashOutTxs.map (·.spends owner spender)).sum = 0 := by
        show 0 + (0 + ((if owner = 3 ∧ spender = (traderMsg 400).sender then _ else 0) +
          _)) = 0
        rw [if_neg hpair]
        rfl
      rw [hnone]
      exact Nat.zero_le _
  obtain ⟨s', hexecute, -⟩ := affordable_block_executes hs (by decide : 350 ≤ 400)
    (by decide) haccepts hbalance hscore (fun owner spender => .inr (hallowance owner spender))
    _ (List.reverse_perm cashOutTxs)
  exact ⟨s', hexecute⟩

end CyberCash
