import CyberCash.Semantics.Inversion

/-!
# Balance equations of a transaction

What a transaction does to the displayed quantities, compared at its own
timestamp. The payer pays, the receiver receives, the tax turns into score and
the pool loses its share; nobody else is touched, whatever the index, the
checkpoints and the pending mints do underneath. Self-transfers, exempt
parties and transactions that move nothing are all covered by the same
equations, `Flows`.

The equations are stated at the fine scale of the reward index, where settling
an account is the only operation that rounds.
-/

namespace CyberCash

open Solidity Function State LazyIndex

/-! ## What a transaction asks for -/

namespace Tx

/-- Accounts whose rewards the transaction mints, once the token is launched. -/
def settles (tx : Tx) : List Address :=
  match tx.call with
  | .transfer _ _ => [tx.sender]
  | .transferFrom _from _ _ => [_from]
  | .transferBurnScore _to _ => [tx.sender, _to]
  | _ => []

/-- What leaves an account as the payer of the transfer, tax included. -/
def pays (tx : Tx) (a : Address) : ℕ :=
  match tx.movement with
  | some (src, _, x) => if a = src then x else 0
  | none => 0

/-- Burn score that leaves an account. -/
def yields (tx : Tx) (a : Address) : ℕ :=
  match tx.call with
  | .transferBurnScore _ n => if a = tx.sender then n.toNat else 0
  | _ => 0

/-- Burn score moved to an account. -/
def obtains (tx : Tx) (a : Address) : ℕ :=
  match tx.call with
  | .transferBurnScore _to n => if a = _to then n.toNat else 0
  | _ => 0

end Tx

namespace State

/-- The tax on the transaction, nothing if a party is exempt. -/
def taxDue (s : State) (tx : Tx) : ℕ :=
  match tx.movement with
  | some (src, dst, x) => if s.taxed src dst then taxOf x else 0
  | none => 0

/-- What the transaction burns from the liquidity pool. -/
def poolDue (s : State) (tx : Tx) : ℕ :=
  match tx.movement with
  | some (src, dst, x) => if s.taxed src dst then s.poolBurn x else 0
  | none => 0

def receives (s : State) (tx : Tx) (a : Address) : ℕ :=
  match tx.movement with
  | some (_, dst, x) => if a = dst then x - s.taxDue tx else 0
  | none => 0

/-- The tax becomes score of the payer. -/
def earns (s : State) (tx : Tx) (a : Address) : ℕ :=
  match tx.movement with
  | some (src, _, _) => if a = src then s.taxDue tx else 0
  | none => 0

def poolLoss (s : State) (tx : Tx) (a : Address) : ℕ :=
  if a = s.liquidityPool then s.poolDue tx else 0

/-- What is due depends on the pool's address and on the exemptions only. -/
theorem taxed_congr {s r : State} (hpool : r.liquidityPool = s.liquidityPool)
    (hexempt : r.exemptedAddresses = s.exemptedAddresses) :
    r.taxed = s.taxed := by
  unfold taxed
  rw [hpool, hexempt]

theorem taxDue_congr {s r : State} (h : r.taxed = s.taxed) :
    r.taxDue = s.taxDue := by
  unfold taxDue
  rw [h]

theorem receives_congr {s r : State} (h : r.taxed = s.taxed) :
    r.receives = s.receives := by
  unfold receives
  rw [taxDue_congr h]

theorem earns_congr {s r : State} (h : r.taxed = s.taxed) :
    r.earns = s.earns := by
  unfold earns
  rw [taxDue_congr h]

/-- Only a taxed transfer owes anything. -/
theorem due_cases (s : State) (tx : Tx) :
    (s.taxDue tx = 0 ∧ s.poolDue tx = 0) ∨
    ∃ src dst x, tx.movement = some (src, dst, x) ∧ s.taxed src dst = true ∧
      s.taxDue tx = taxOf x ∧ s.poolDue tx = s.poolBurn x := by
  unfold taxDue poolDue
  cases hmove : tx.movement with
  | none => exact .inl ⟨rfl, rfl⟩
  | some m =>
      obtain ⟨src, dst, x⟩ := m
      dsimp only
      cases htaxed : s.taxed src dst with
      | false => exact .inl ⟨if_neg Bool.false_ne_true, if_neg Bool.false_ne_true⟩
      | true => exact .inr ⟨src, dst, x, rfl, htaxed, if_pos rfl, if_pos rfl⟩

/-- Unsettled rewards at the scale of the index. -/
def claimAt (s : State) (now : ℕ) (a : Address) : ℕ := (s.ledgerAt now).claim a

/-- The displayed balance at the scale of the index, before rounding. -/
def fineAt (s : State) (now : ℕ) (a : Address) : ℕ :=
  REWARD_PRECISION * s._balances a + s.claimAt now a

end State

/-- **The balance equations** of a transaction, every quantity being read at
the timestamp of the transaction. -/
structure Flows (s : State) (tx : Tx) (s' : State) : Prop where
  fine : ∀ a, s'.fineAt tx.now a +
      REWARD_PRECISION * (tx.pays a + s.poolLoss tx a) =
    (if a ∈ tx.settles then whole REWARD_PRECISION (s.fineAt tx.now a)
      else s.fineAt tx.now a) + REWARD_PRECISION * s.receives tx a
  score : ∀ a, s'.burnScore a + tx.yields a =
    s.burnScore a + tx.obtains a + s.earns tx a
  burned : s'.totalBurned = s.totalBurned + s.taxDue tx
  supply : s'.supplyAt tx.now + s.taxDue tx + s.poolDue tx = s.supplyAt tx.now

/-! ## Transactions that move nothing -/

theorem Tx.movement_of_launch {tx : Tx} {pool migrator : Address}
    (h : tx.call = .initialise pool migrator) : tx.movement = none := by
  simp [Tx.movement, h]

theorem Tx.movement_of_approval {tx : Tx} (h : tx.call.isApproval = true) :
    tx.movement = none := by
  obtain ⟨msg, call⟩ := tx
  cases call <;> simp_all [Tx.movement, Call.isApproval]

theorem Tx.movement_of_score {tx : Tx} {dst : Address} {n : Uint256}
    (h : tx.call = .transferBurnScore dst n) : tx.movement = none := by
  simp [Tx.movement, h]

theorem Tx.settles_of_movement {tx : Tx} {src dst : Address} {x : ℕ}
    (h : tx.movement = some (src, dst, x)) : tx.settles = [src] := by
  obtain ⟨msg, call⟩ := tx
  cases call <;> simp_all [Tx.movement, Tx.settles, Tx.sender]

theorem Tx.settles_of_launch {tx : Tx} {pool migrator : Address}
    (h : tx.call = .initialise pool migrator) : tx.settles = [] := by
  simp [Tx.settles, h]

theorem Tx.settles_of_approval {tx : Tx} (h : tx.call.isApproval = true) :
    tx.settles = [] := by
  obtain ⟨msg, call⟩ := tx
  cases call <;> simp_all [Tx.settles, Call.isApproval]

theorem Tx.score_of_movement {tx : Tx} {m : Address × Address × ℕ}
    (h : tx.movement = some m) (a : Address) :
    tx.yields a = 0 ∧ tx.obtains a = 0 := by
  obtain ⟨msg, call⟩ := tx
  cases call <;> simp_all [Tx.movement, Tx.yields, Tx.obtains]

theorem Tx.score_of_launch {tx : Tx} {pool migrator : Address}
    (h : tx.call = .initialise pool migrator) (a : Address) :
    tx.yields a = 0 ∧ tx.obtains a = 0 := by
  simp [Tx.yields, Tx.obtains, h]

theorem Tx.score_of_approval {tx : Tx} (h : tx.call.isApproval = true)
    (a : Address) : tx.yields a = 0 ∧ tx.obtains a = 0 := by
  obtain ⟨msg, call⟩ := tx
  cases call <;> simp_all [Tx.yields, Tx.obtains, Call.isApproval]

/-- Without a movement no token flows. -/
theorem State.no_flow {tx : Tx} (h : tx.movement = none) (s : State)
    (a : Address) :
    tx.pays a = 0 ∧ s.receives tx a = 0 ∧ s.earns tx a = 0 ∧ s.taxDue tx = 0 ∧
      s.poolDue tx = 0 ∧ s.poolLoss tx a = 0 := by
  simp [Tx.pays, receives, earns, taxDue, poolDue, poolLoss, h]

/-! ## The views under the effects -/

namespace State

variable {s s' : State} {now x n : ℕ} {a b src dst : Address}

theorem claimAt_of_idle (h : s.burnScore a = 0) (now : ℕ) :
    s.claimAt now a = 0 := by
  unfold claimAt
  rw [claim_ledgerAt, h, Nat.zero_mul]

theorem rewardsAt_eq (s : State) (now : ℕ) (a : Address) :
    s.rewardsAt now a = s.claimAt now a / REWARD_PRECISION := rfl

theorem balanceAt_eq (s : State) (now : ℕ) (a : Address) :
    s.balanceAt now a = s.fineAt now a / REWARD_PRECISION :=
  (Nat.mul_add_div rewardPrecision_pos (s._balances a) (s.claimAt now a)).symm

theorem whole_fineAt (s : State) (now : ℕ) (a : Address) :
    whole REWARD_PRECISION (s.fineAt now a) = REWARD_PRECISION * s.balanceAt now a := by
  rw [balanceAt_eq]
  rfl

theorem ledgerAt_self (h : s.lastMintTime = now) : s.ledgerAt now = s.ledger := by
  unfold ledgerAt
  rw [accrued_self h]
  simp [LazyIndex.Ledger.accrue]

/-- Settling pays one claim and leaves the others alone. -/
theorem claimAt_settle (s : State) (now : ℕ) (a : Address) :
    (s.settle now a).claimAt now = update (s.claimAt now) a 0 := by
  have hnow : (s.settle now a).lastMintTime = now := rfl
  unfold claimAt
  rw [ledgerAt_self hnow, ledger_settle]
  exact LazyIndex.Ledger.claim_settle a

theorem fineAt_settle (s : State) (now : ℕ) (a b : Address) :
    (s.settle now a).fineAt now b =
      if b = a then whole REWARD_PRECISION (s.fineAt now b) else s.fineAt now b := by
  unfold fineAt
  rw [claimAt_settle]
  by_cases hb : b = a
  · subst hb
    rw [if_pos rfl, update_self, Inv.settle_balance, Nat.add_zero]
    exact (s.whole_fineAt now b).symm
  · rw [if_neg hb, update_of_ne hb]
    congr 2
    exact update_of_ne hb _ _

theorem claimAt_levy (hclock : s.lastMintTime = now)
    (hsettled : s.userRewardsPerTokenBurned src = s.rewardsPerTokenBurned)
    (b : Address) : (s.levy src x).claimAt now b = s.claimAt now b := by
  have hnow : (s.levy src x).lastMintTime = now := hclock
  unfold claimAt
  rw [ledgerAt_self hnow, ledgerAt_self hclock, ledger_levy,
    LazyIndex.Ledger.claim_grow (l := s.ledger) _ hsettled]

/-- The pool is not the account that is settled. -/
theorem poolBurn_settle (hne : s.liquidityPool ≠ a) :
    (s.settle now a).poolBurn x = s.poolBurn x := by
  unfold poolBurn
  show min _ (update s._balances a _ s.liquidityPool - _) = _
  rw [update_of_ne hne]

theorem fineAt_levy (hclock : s.lastMintTime = now)
    (hsettled : s.userRewardsPerTokenBurned src = s.rewardsPerTokenBurned)
    (htax : taxOf x ≤ s._balances src) (hne : s.liquidityPool ≠ src)
    (b : Address) :
    (s.levy src x).fineAt now b + REWARD_PRECISION *
      ((if b = src then taxOf x else 0) +
        (if b = s.liquidityPool then s.poolBurn x else 0)) = s.fineAt now b := by
  have hheld : (s.levy src x)._balances b + ((if b = src then taxOf x else 0) +
      (if b = s.liquidityPool then s.poolBurn x else 0)) = s._balances b := by
    have hlp := s.poolBurn_le x
    show update (update s._balances src _) s.liquidityPool _ b + _ = _
    by_cases hb : b = s.liquidityPool
    · rw [hb, update_self, update_of_ne hne, if_neg hne, if_pos rfl]
      omega
    · rw [update_of_ne hb, if_neg hb]
      by_cases hbs : b = src
      · rw [hbs, update_self, if_pos rfl]
        omega
      · rw [update_of_ne hbs, if_neg hbs]
        rfl
  unfold fineAt
  rw [claimAt_levy hclock hsettled, ← hheld, Nat.add_right_comm, ← Nat.mul_add]

theorem claimAt_pay (s : State) (now : ℕ) (src dst : Address) (x : ℕ)
    (b : Address) : (s.pay src dst x).claimAt now b = s.claimAt now b := rfl

theorem fineAt_pay (hx : x ≤ s._balances src) (now : ℕ) (dst b : Address) :
    (s.pay src dst x).fineAt now b +
        REWARD_PRECISION * (if b = src then x else 0) =
      s.fineAt now b + REWARD_PRECISION * (if b = dst then x else 0) := by
  have hheld := moved_add hx dst b
  have hscaled := congrArg (REWARD_PRECISION * ·) hheld
  simp only [Nat.mul_add] at hscaled
  show REWARD_PRECISION * moved s._balances src dst x b + s.claimAt now b + _ =
    REWARD_PRECISION * s._balances b + s.claimAt now b + _
  omega

/-- Both parties of a score move are settled when it happens. -/
theorem claimAt_moveScore (s : State) (now : ℕ) (src dst : Address) (n : ℕ)
    (b : Address) :
    (s.moveScore now src dst n).claimAt now b =
      ((s.settle now src).settle now dst).claimAt now b := by
  have hnow : (s.moveScore now src dst n).lastMintTime = now := rfl
  have hnow' : ((s.settle now src).settle now dst).lastMintTime = now := rfl
  unfold claimAt
  rw [ledgerAt_self hnow, ledgerAt_self hnow', ledger_moveScore,
    LazyIndex.Ledger.claim_shift
      (l := ((s.settle now src).settle now dst).ledger) _
      (settle_settle_settled s now src dst) (settle_settled _ now dst)]

theorem claimAt_reapproves (h : s.Reapproves s') (now : ℕ) (b : Address) :
    s'.claimAt now b = s.claimAt now b := by
  obtain ⟨allowances, nonces, entries, rfl, -⟩ := h
  unfold claimAt
  rfl

theorem rewardsAt_reapproves (h : s.Reapproves s') (now : ℕ) (b : Address) :
    s'.rewardsAt now b = s.rewardsAt now b := by
  rw [rewardsAt_eq, rewardsAt_eq, claimAt_reapproves h]

theorem fineAt_reapproves (h : s.Reapproves s') (now : ℕ) (b : Address) :
    s'.fineAt now b = s.fineAt now b := by
  unfold fineAt
  rw [claimAt_reapproves h, h.balances]

theorem supplyAt_pay (s : State) (now : ℕ) (src dst : Address) (x : ℕ) :
    (s.pay src dst x).supplyAt now = s.supplyAt now := by
  unfold supplyAt accrued
  rfl

theorem supplyAt_reapproves (h : s.Reapproves s') (now : ℕ) :
    s'.supplyAt now = s.supplyAt now := by
  obtain ⟨allowances, nonces, entries, rfl, -⟩ := h
  unfold supplyAt accrued
  rfl

end State

namespace Inv

variable {s : State} {now x n : ℕ} {a b src dst : Address}

theorem supplyAt_settle (h : Inv s) (now : ℕ) (a : Address) :
    (s.settle now a).supplyAt now = s.supplyAt now := by
  have howed := h.rewardsAt_le now a
  have hfresh : (s.settle now a).accrued now = 0 := accrued_self rfl
  unfold supplyAt
  rw [hfresh]
  show s._totalSupply + s.rewardsAt now a +
    (s.pendingMints + s.accrued now - s.rewardsAt now a) + 0 = _
  omega

theorem burns_le (h : Inv s) (hne : s.liquidityPool ≠ src)
    (htax : taxOf x ≤ s._balances src) :
    taxOf x + s.poolBurn x ≤ s._totalSupply := by
  have hlp := s.poolBurn_le x
  have htwo := add_le_sum_of_ne s._balances hne
  rw [h.sum] at htwo
  omega

theorem supplyAt_levy (h : Inv s) (hne : s.liquidityPool ≠ src)
    (htax : taxOf x ≤ s._balances src) (hclock : s.lastMintTime = now) :
    (s.levy src x).supplyAt now + taxOf x + s.poolBurn x = s.supplyAt now := by
  have hburns := h.burns_le hne htax
  have hfresh : (s.levy src x).accrued now = 0 := accrued_self hclock
  unfold supplyAt
  rw [hfresh, accrued_self hclock]
  show s._totalSupply - taxOf x - s.poolBurn x + s.pendingMints + 0 + taxOf x +
    s.poolBurn x = _
  omega

/-- A transfer before the launch. -/
theorem fineAt_send_no_pool (h : Inv s) (hpool : s.liquidityPool = 0)
    (hx : x ≤ s._balances src) (b : Address) :
    (s.pay src dst x).fineAt now b +
        REWARD_PRECISION * (if b = src then x else 0) =
      (if b = src then whole REWARD_PRECISION (s.fineAt now b) else s.fineAt now b) +
        REWARD_PRECISION * (if b = dst then x else 0) := by
  have hidle : s.burnScore b = 0 := (h.dormant (h.owner_of_no_pool hpool)).2.2 b
  have hwhole : whole REWARD_PRECISION (s.fineAt now b) = s.fineAt now b := by
    rw [whole_fineAt, balanceAt_of_idle hidle]
    unfold fineAt
    rw [claimAt_of_idle hidle, Nat.add_zero]
  rw [hwhole, ite_self]
  exact fineAt_pay hx now dst b

/-- A taxed transfer. -/
theorem fineAt_send_taxed (h : Inv s) (htaxed : s.taxed src dst = true)
    (hx : x ≤ s.balanceAt now src) (b : Address) :
    (((s.settle now src).levy src x).pay src dst (x - taxOf x)).fineAt now b +
        REWARD_PRECISION * ((if b = src then x else 0) +
          (if b = s.liquidityPool then s.poolBurn x else 0)) =
      (if b = src then whole REWARD_PRECISION (s.fineAt now b) else s.fineAt now b) +
        REWARD_PRECISION * (if b = dst then x - taxOf x else 0) := by
  have htax := taxOf_le x
  have hne := (h.pool_ne_of_taxed htaxed).1
  have hheld := tax_le_settled hx
  have hpaid := fineAt_pay (h.levy_balance_src htaxed hx) now dst b
  have hlevied := fineAt_levy (settle_lastMintTime s now src)
    (settle_settled s now src) hheld hne b
  rw [poolBurn_settle hne, fineAt_settle, settle_liquidityPool] at hlevied
  have hsplit : (if b = src then x else 0) =
      (if b = src then x - taxOf x else 0) + (if b = src then taxOf x else 0) := by
    split
    · omega
    · rfl
  rw [hsplit]
  simp only [Nat.mul_add] at hpaid hlevied ⊢
  omega

/-- An exempt transfer after the launch. -/
theorem fineAt_send_exempt (hx : x ≤ s.balanceAt now src) (b : Address) :
    ((s.settle now src).pay src dst x).fineAt now b +
        REWARD_PRECISION * (if b = src then x else 0) =
      (if b = src then whole REWARD_PRECISION (s.fineAt now b) else s.fineAt now b) +
        REWARD_PRECISION * (if b = dst then x else 0) := by
  rw [← settle_balance s now src] at hx
  rw [← fineAt_settle]
  exact fineAt_pay hx now dst b

end Inv

/-! ## Every transaction satisfies its equations -/

namespace State

variable {s s' : State} {tx : Tx} {src dst : Address} {x : ℕ}

theorem taxed_reapproves (h : s.Reapproves s') (src dst : Address) :
    s'.taxed src dst = s.taxed src dst := by
  rw [taxed_congr h.liquidityPool h.exemptedAddresses]

theorem poolBurn_reapproves (h : s.Reapproves s') (x : ℕ) :
    s'.poolBurn x = s.poolBurn x := by
  unfold poolBurn
  rw [h.liquidityPool, h.balances]

end State

namespace Inv

variable {s : State} {now x n : ℕ} {a b src dst : Address}

/-- **The balance equations of a transfer.** -/
theorem send_flows (h : Inv s) (hclock : s.lastMintTime ≤ now)
    (hx : x ≤ s.balanceAt now src) (dst : Address) :
    let tax := if s.taxed src dst then taxOf x else 0
    let burn := if s.taxed src dst then s.poolBurn x else 0
    (∀ b, (s.send now src dst x).fineAt now b +
        REWARD_PRECISION * ((if b = src then x else 0) +
          (if b = s.liquidityPool then burn else 0)) =
      (if b = src then whole REWARD_PRECISION (s.fineAt now b) else s.fineAt now b) +
        REWARD_PRECISION * (if b = dst then x - tax else 0)) ∧
    (∀ b, (s.send now src dst x).burnScore b =
      s.burnScore b + (if b = src then tax else 0)) ∧
    (s.send now src dst x).totalBurned = s.totalBurned + tax ∧
    (s.send now src dst x).supplyAt now + tax + burn = s.supplyAt now := by
  dsimp only
  rcases s.send_cases now src dst x with
    ⟨hpool, hexempt, hsend⟩ | ⟨-, htaxed, hsend⟩ | ⟨-, hexempt, hsend⟩
  · rw [hsend, hexempt, if_neg Bool.false_ne_true, if_neg Bool.false_ne_true]
    rw [h.balanceAt_no_pool hpool] at hx
    refine ⟨?_, ?_, ?_, ?_⟩
    · intro b
      rw [ite_self, Nat.add_zero]
      exact h.fineAt_send_no_pool hpool hx b
    · intro b
      rw [ite_self, pay_burnScore, Nat.add_zero]
    · rw [pay_totalBurned, Nat.add_zero]
    · rw [supplyAt_pay, Nat.add_zero]
  · rw [hsend, htaxed, if_pos rfl, if_pos rfl]
    have hne := (h.pool_ne_of_taxed htaxed).1
    refine ⟨h.fineAt_send_taxed htaxed hx, ?_, ?_, ?_⟩
    · intro b
      rw [pay_burnScore, levy_burnScore, settle_burnScore]
      by_cases hb : b = src
      · rw [hb, update_self, if_pos rfl]
      · rw [update_of_ne hb, if_neg hb, Nat.add_zero]
    · rw [pay_totalBurned, levy_totalBurned, settle_totalBurned]
    · have hlevied := (h.settle hclock src).supplyAt_levy hne (tax_le_settled hx)
        (settle_lastMintTime _ _ _)
      rw [poolBurn_settle hne, h.supplyAt_settle] at hlevied
      rw [supplyAt_pay]
      exact hlevied
  · rw [hsend, hexempt, if_neg Bool.false_ne_true, if_neg Bool.false_ne_true]
    refine ⟨?_, ?_, ?_, ?_⟩
    · intro b
      rw [ite_self, Nat.add_zero]
      exact fineAt_send_exempt hx b
    · intro b
      rw [ite_self, pay_burnScore, settle_burnScore, Nat.add_zero]
    · rw [pay_totalBurned, settle_totalBurned, Nat.add_zero]
    · rw [supplyAt_pay, h.supplyAt_settle, Nat.add_zero]

/-- **The balance equations of a score move.** -/
theorem moveScore_flows (h : Inv s) (hclock : s.lastMintTime ≤ now)
    (hn : n ≤ s.burnScore src) (dst : Address) :
    (∀ b, (s.moveScore now src dst n).fineAt now b =
      if b ∈ [src, dst] then whole REWARD_PRECISION (s.fineAt now b) else s.fineAt now b) ∧
    (∀ b, (s.moveScore now src dst n).burnScore b + (if b = src then n else 0) =
      s.burnScore b + (if b = dst then n else 0)) ∧
    (s.moveScore now src dst n).supplyAt now = s.supplyAt now := by
  refine ⟨?_, moved_add hn dst, ?_⟩
  · intro b
    have hclaim := claimAt_moveScore s now src dst n b
    have hfine : (s.moveScore now src dst n).fineAt now b =
        ((s.settle now src).settle now dst).fineAt now b :=
      congrArg (REWARD_PRECISION * _ + ·) hclaim
    rw [hfine, fineAt_settle, fineAt_settle]
    -- an account that is both parties is settled twice, to the same effect
    by_cases hs : b = src
    · have hmem : b ∈ [src, dst] := by simp [hs]
      rw [if_pos hs, whole_whole rewardPrecision_pos, ite_self, if_pos hmem]
    · simp only [hs, if_false, List.mem_cons, List.not_mem_nil, or_false, false_or]
  · have hboth := (h.settle hclock src).supplyAt_settle now dst
    rw [h.supplyAt_settle] at hboth
    rw [← hboth]
    unfold supplyAt accrued
    rfl

end Inv

theorem launch_flows {s : State} {tx : Tx} {pool migrator : Address}
    (h : Inv s) (howner : s.owner ≠ 0)
    (hcall : tx.call = .initialise pool migrator) :
    Flows s tx (s.launch tx.now pool migrator) := by
  have hnone := Tx.movement_of_launch hcall
  obtain ⟨hindex, hpending, hidle⟩ := h.dormant howner
  refine ⟨?_, ?_, ?_, ?_⟩
  · intro a
    obtain ⟨hpays, hreceives, -, -, -, hloss⟩ := s.no_flow hnone a
    rw [hpays, hreceives, hloss, Tx.settles_of_launch hcall]
    have hclaim : (s.launch tx.now pool migrator).claimAt tx.now a = 0 :=
      claimAt_of_idle (s := s.launch tx.now pool migrator) (hidle a) tx.now
    unfold fineAt
    rw [hclaim, claimAt_of_idle (hidle a)]
    rfl
  · intro a
    obtain ⟨-, -, hearns, -⟩ := s.no_flow hnone a
    obtain ⟨hyields, hobtains⟩ := Tx.score_of_launch hcall a
    rw [hyields, hobtains, hearns]
    rfl
  · rw [(s.no_flow hnone 0).2.2.2.1]
    rfl
  · obtain ⟨-, -, -, htax, hburn, -⟩ := s.no_flow hnone 0
    have hfresh : (s.launch tx.now pool migrator).accrued tx.now = 0 :=
      accrued_self (s := s.launch tx.now pool migrator) rfl
    rw [htax, hburn]
    unfold supplyAt
    rw [hfresh, accrued_of_owner howner]
    rfl

theorem reapprove_flows {s s' : State} {tx : Tx}
    (hcall : tx.call.isApproval = true) (hs : s.Reapproves s') :
    Flows s tx s' := by
  have hnone := Tx.movement_of_approval hcall
  refine ⟨?_, ?_, ?_, ?_⟩
  · intro a
    obtain ⟨hpays, hreceives, -, -, -, hloss⟩ := s.no_flow hnone a
    rw [hpays, hreceives, hloss, Tx.settles_of_approval hcall,
      fineAt_reapproves hs]
    rfl
  · intro a
    obtain ⟨-, -, hearns, -⟩ := s.no_flow hnone a
    obtain ⟨hyields, hobtains⟩ := Tx.score_of_approval hcall a
    rw [hyields, hobtains, hearns, hs.burnScore]
  · rw [(s.no_flow hnone 0).2.2.2.1, hs.totalBurned, Nat.add_zero]
  · obtain ⟨-, -, -, htax, hburn, -⟩ := s.no_flow hnone 0
    rw [htax, hburn, supplyAt_reapproves hs, Nat.add_zero]

theorem transfer_flows {s : State} {tx : Tx} {src dst : Address} {x : ℕ}
    (hg : Good tx.now s) (hmove : tx.movement = some (src, dst, x))
    (hx : x ≤ s.balanceAt tx.now src) :
    Flows s tx ((s.charge tx).send tx.now src dst x) := by
  have hcharged := hg.charge tx
  have hsame := s.charge_reapproves tx
  rw [← balanceAt_charge s tx] at hx
  obtain ⟨hfine, hscore, hburned, hsupply⟩ :=
    hcharged.inv.send_flows hcharged.clock hx dst
  simp only [taxed_reapproves hsame, poolBurn_reapproves hsame,
    fineAt_reapproves hsame, supplyAt_reapproves hsame, hsame.burnScore,
    hsame.totalBurned, hsame.liquidityPool] at hfine hscore hburned hsupply
  refine ⟨?_, ?_, ?_, ?_⟩
  · intro a
    simp only [Tx.pays, poolLoss, poolDue, receives, taxDue, hmove,
      Tx.settles_of_movement hmove, List.mem_singleton]
    exact hfine a
  · intro a
    obtain ⟨hyields, hobtains⟩ := Tx.score_of_movement hmove a
    rw [hyields, hobtains]
    simp only [earns, taxDue, hmove]
    exact hscore a
  · simp only [taxDue, hmove]
    exact hburned
  · simp only [taxDue, poolDue, hmove]
    exact hsupply

theorem score_flows {s : State} {tx : Tx} {dst : Address} {n : Uint256}
    (hg : Good tx.now s) (hcall : tx.call = .transferBurnScore dst n)
    (hn : n.toNat ≤ s.burnScore tx.sender) :
    Flows s tx (s.moveScore tx.now tx.sender dst n.toNat) := by
  have hnone := Tx.movement_of_score hcall
  obtain ⟨hfine, hscore, hsupply⟩ :=
    hg.inv.moveScore_flows hg.clock hn dst
  refine ⟨?_, ?_, ?_, ?_⟩
  · intro a
    obtain ⟨hpays, hreceives, -, -, -, hloss⟩ := s.no_flow hnone a
    rw [hpays, hreceives, hloss, hfine]
    simp only [Tx.settles, hcall]
  · intro a
    rw [(s.no_flow hnone a).2.2.1]
    simp only [Tx.yields, Tx.obtains, hcall]
    exact hscore a
  · rw [(s.no_flow hnone 0).2.2.2.1]
    rfl
  · obtain ⟨-, -, -, htax, hburn, -⟩ := s.no_flow hnone 0
    rw [htax, hburn, hsupply]
    rfl

/-- **Every successful transaction satisfies its balance equations.** -/
theorem Effect.flows {s s' : State} {tx : Tx} (hg : Good tx.now s)
    (he : Effect s tx s') : Flows s tx s' := by
  cases he with
  | launch hcall hsender hpool hmigrator =>
      exact launch_flows hg.inv (hsender ▸ tx.msg.sender_ne_zero) hcall
  | reapprove hcall hs => exact reapprove_flows hcall hs
  | send hmove hallow hsrc hdst hx hword => exact transfer_flows hg hmove hx
  | moveScore hcall hdst hexempt hn₀ hn hword => exact score_flows hg hcall hn

/-- A balance equation as displayed: the rounding of a settlement is not
visible in a balance. -/
theorem balance_of_fine {s s' : State} {now d u : ℕ} {a : Address} {p : Prop}
    [Decidable p]
    (h : s'.fineAt now a + REWARD_PRECISION * d =
      (if p then whole REWARD_PRECISION (s.fineAt now a) else s.fineAt now a) +
        REWARD_PRECISION * u) :
    s'.balanceAt now a + d = s.balanceAt now a + u := by
  have hfine := congrArg (· / REWARD_PRECISION) h
  simp only [Nat.add_mul_div_left _ _ rewardPrecision_pos] at hfine
  rw [balanceAt_eq, balanceAt_eq, hfine]
  split
  · rw [whole_div rewardPrecision_pos]
  · rfl

theorem Flows.balance {s s' : State} {tx : Tx} (h : Flows s tx s')
    (a : Address) :
    s'.balanceAt tx.now a + (tx.pays a + s.poolLoss tx a) =
      s.balanceAt tx.now a + s.receives tx a := balance_of_fine (h.fine a)

/-- The equation of the pool, which is shown what it holds. -/
theorem Flows.pooled {s s' : State} {tx : Tx} (h : Flows s tx s') (hinv : Inv s)
    (hinv' : Inv s') (hpool : s'.liquidityPool = s.liquidityPool) :
    s'._balances s.liquidityPool +
        (tx.pays s.liquidityPool + s.poolDue tx) =
      s._balances s.liquidityPool + s.receives tx s.liquidityPool := by
  have hidle' : s'.burnScore s.liquidityPool = 0 := by
    rw [← hpool]
    exact hinv'.poolIdle
  have hbalance := h.balance s.liquidityPool
  rwa [balanceAt_of_idle hinv.poolIdle, balanceAt_of_idle hidle', poolLoss,
    if_pos rfl] at hbalance

end CyberCash
