import CyberCash.Library.EagerPot
import CyberCash.Semantics.Approvals
import CyberCash.Semantics.Totality
import CyberCash.Semantics.Flows

/-!
# The token as it would be with eager rewards

The abstract token: at every accrual the inflation of the elapsed seconds is
credited to all accounts in proportion to their scores. It has no reward index,
no checkpoints, no pending mints and no count of burned tokens; a balance is
the wealth of the account in whole tokens, and a supply is a number that grows
with the clock.

`State.eager` reads a state of the contract as a state of this token. Each
effect of the contract is, through that reading, the plain operation of the
abstract token.
-/

namespace CyberCash

open Solidity Function LazyIndex

/-- Wealth is counted in units of `1 / REWARD_PRECISION` tokens. `clock` is the
last accrual. -/
@[ext]
structure EagerToken where
  pot : Pot Address
  supply : ℕ
  clock : ℕ
  owner : Address
  liquidityPool : Address
  exempt : Address → Bool
  allowance : Address → Address → ℕ
  nonce : Address → ℕ

noncomputable section

namespace EagerToken

/-! ## Operations -/

def onPot (e : EagerToken) (f : Pot Address → Pot Address) : EagerToken :=
  { e with pot := f e.pot }

/-- What the elapsed seconds mint. There is no inflation before the launch. -/
def inflation (e : EagerToken) (now : ℕ) : ℕ := MINT_PER_SECOND * (now - e.clock)

/-- The clock moves, and everybody is credited. -/
def advance (e : EagerToken) (now : ℕ) : EagerToken :=
  if e.owner = 0 then
    { e with
      pot := e.pot.accrue REWARD_PRECISION (e.inflation now)
      supply := e.supply + e.inflation now
      clock := now }
  else e

def balance (e : EagerToken) (now : ℕ) (a : Address) : ℕ :=
  (e.advance now).pot.wealth a / REWARD_PRECISION

def totalSupply (e : EagerToken) (now : ℕ) : ℕ := (e.advance now).supply

def round (e : EagerToken) (a : Address) : EagerToken :=
  e.onPot (·.round REWARD_PRECISION a)

def pay (e : EagerToken) (src dst : Address) (x : ℕ) : EagerToken :=
  e.onPot fun p => (p.take REWARD_PRECISION src x).give REWARD_PRECISION dst x

/-- The share of a taxed transfer burned from the pool, which keeps its
reserve. -/
def poolBurn (e : EagerToken) (x : ℕ) : ℕ :=
  min (State.poolShare x)
    (e.pot.wealth e.liquidityPool / REWARD_PRECISION - RESERVE_BUFFER)

/-- The tax leaves the sender and the share leaves the pool; the tax is the
sender's weight from now on. -/
def levy (e : EagerToken) (src : Address) (x : ℕ) : EagerToken :=
  { e with
    pot := ((e.pot.take REWARD_PRECISION src (State.taxOf x)).take
      REWARD_PRECISION e.liquidityPool (e.poolBurn x)).grow src (State.taxOf x)
    supply := e.supply - State.taxOf x - e.poolBurn x }

def taxed (e : EagerToken) (src dst : Address) : Bool :=
  !e.exempt src && !e.exempt dst

def send (e : EagerToken) (now : ℕ) (src dst : Address) (x : ℕ) : EagerToken :=
  if e.liquidityPool = 0 then e.pay src dst x
  else if e.taxed src dst then
    (((e.advance now).round src).levy src x).pay src dst (x - State.taxOf x)
  else ((e.advance now).round src).pay src dst x

def moveScore (e : EagerToken) (now : ℕ) (src dst : Address) (n : ℕ) :
    EagerToken :=
  (((e.advance now).round src).round dst).onPot (·.shift src dst n)

def launch (e : EagerToken) (now : ℕ) (pool migrator : Address) : EagerToken :=
  { e with
    exempt := update (update e.exempt pool true) migrator true
    liquidityPool := pool
    clock := now
    owner := 0 }

def allow (e : EagerToken) (owner spender : Address) (x : ℕ) : EagerToken :=
  { e with
    allowance := update e.allowance owner (update (e.allowance owner) spender x) }

/-- An allowance of `type(uint256).max` is never used up. -/
def spend (e : EagerToken) (owner spender : Address) (x : ℕ) : EagerToken :=
  if e.allowance owner spender = uintMax then e
  else e.allow owner spender (e.allowance owner spender - x)

def useNonce (e : EagerToken) (owner : Address) : EagerToken :=
  { e with nonce := update e.nonce owner (uncheckedAdd (e.nonce owner) 1) }

/-! ## Transactions -/

/-- A permit is signed by the owner over the owner's nonce. -/
def signed (evm : Evm) (e : EagerToken) (owner spender : Address)
    (value deadline : ℕ) (v : Byte) (r sig : BitVec 256) : Bool :=
  (ECDSA.recover evm (ECDSA.toTypedDataHash evm
    (ERC20Permit.permitHash evm owner spender value (e.nonce owner) deadline))
    v r sig).toOption == some owner

/-- The transition of a transaction, none if it reverts. -/
def step (evm : Evm) (e : EagerToken) (tx : Tx) : Option EagerToken :=
  match tx.call with
  | .initialise pool migrator =>
      if tx.sender = e.owner ∧ pool ≠ 0 ∧ migrator ≠ 0 then
        some (e.launch tx.now pool migrator)
      else none
  | .transfer dst x =>
      if dst ≠ 0 ∧ x.toNat ≤ e.balance tx.now tx.sender then
        some (e.send tx.now tx.sender dst x.toNat)
      else none
  | .transferFrom src dst x =>
      if (e.allowance src tx.sender = uintMax ∨
            x.toNat ≤ e.allowance src tx.sender) ∧
          src ≠ 0 ∧ dst ≠ 0 ∧ x.toNat ≤ e.balance tx.now src then
        some ((e.spend src tx.sender x.toNat).send tx.now src dst x.toNat)
      else none
  | .transferBurnScore dst n =>
      if dst ≠ 0 ∧ e.exempt dst = false ∧ n.toNat ≠ 0 ∧
          n.toNat ≤ e.pot.weight tx.sender then
        some (e.moveScore tx.now tx.sender dst n.toNat)
      else none
  | .approve spender x =>
      if spender ≠ 0 then some (e.allow tx.sender spender x.toNat) else none
  | .increaseAllowance spender x =>
      if spender ≠ 0 ∧ e.allowance tx.sender spender + x.toNat < 2 ^ 256 then
        some (e.allow tx.sender spender
          (e.allowance tx.sender spender + x.toNat))
      else none
  | .decreaseAllowance spender x =>
      if spender ≠ 0 ∧ x.toNat ≤ e.allowance tx.sender spender then
        some (e.allow tx.sender spender
          (e.allowance tx.sender spender - x.toNat))
      else none
  | .permit owner spender value deadline v r sig =>
      if tx.now ≤ deadline.toNat ∧ owner ≠ 0 ∧ spender ≠ 0 ∧
          e.signed evm owner spender value.toNat deadline.toNat v r sig then
        some ((e.useNonce owner).allow owner spender value.toNat)
      else none

/-- All transactions in order, none at the first revert. -/
def execute (evm : Evm) : EagerToken → List Tx → Option EagerToken
  | e, [] => some e
  | e, tx :: txs => (e.step evm tx).bind fun e => execute evm e txs

/-- The deployed token: everything belongs to the owner. -/
def deploy (now : ℕ) (owner : Address) : Option EagerToken :=
  if owner ≠ 0 then
    some {
      pot := ⟨update (fun _ => 0) owner (REWARD_PRECISION * INITIAL_SUPPLY),
        fun _ => 0⟩
      supply := INITIAL_SUPPLY
      clock := now
      owner := owner
      liquidityPool := 0
      exempt := dexRouters.contains
      allowance := fun _ _ => 0
      nonce := fun _ => 0 }
  else none

end EagerToken

end

/-! ## Reading the contract eagerly -/

namespace State

/-- The abstraction function: wealth is what an account holds and is owed, the
supply counts what is minted and what is pending. -/
def eager (s : State) : EagerToken where
  pot := s.ledger.pot REWARD_PRECISION s._balances
  supply := s._totalSupply + s.pendingMints
  clock := s.lastMintTime
  owner := s.owner
  liquidityPool := s.liquidityPool
  exempt := s.exemptedAddresses
  allowance := s._allowances
  nonce := s._nonces

variable {s : State} {now x n : ℕ} {a src dst : Address}

theorem eager_advance_launched (h : Inv s) (howner : s.owner = 0) (now : ℕ) :
    s.eager.advance now = { s.eager with
      pot := (s.ledgerAt now).pot REWARD_PRECISION s._balances
      supply := s.supplyAt now
      clock := now } := by
  have hset : s.eager.owner = 0 := howner
  have hminted : s.eager.inflation now = s.accrued now :=
    (accrued_of_launched howner now).symm
  unfold EagerToken.advance
  rw [if_pos hset, hminted]
  unfold ledgerAt
  rw [Ledger.pot_accrue h.rewards]
  rfl

theorem eager_advance_dormant (howner : s.owner ≠ 0) (now : ℕ) :
    s.eager.advance now = s.eager := if_neg howner

/-- The views of the contract are those of the abstract token. -/
theorem eager_balance (h : Inv s) (now : ℕ) (a : Address) :
    s.eager.balance now a = s.balanceAt now a := by
  unfold EagerToken.balance
  by_cases howner : s.owner = 0
  · rw [eager_advance_launched h howner, balanceAt_eq]
    rfl
  · have hidle := (h.dormant howner).2.2 a
    rw [eager_advance_dormant howner, balanceAt_of_idle hidle]
    show (REWARD_PRECISION * s._balances a + s.ledger.claim a) / REWARD_PRECISION = _
    rw [Nat.mul_add_div rewardPrecision_pos]
    unfold Ledger.claim
    rw [show s.ledger.weight a = 0 from hidle, Nat.zero_mul, Nat.zero_div,
      Nat.add_zero]

theorem eager_totalSupply (h : Inv s) (now : ℕ) :
    s.eager.totalSupply now = s.supplyAt now := by
  unfold EagerToken.totalSupply
  by_cases howner : s.owner = 0
  · rw [eager_advance_launched h howner]
  · rw [eager_advance_dormant howner]
    unfold supplyAt
    rw [accrued_of_owner howner]
    rfl

/-! ## Effects are operations -/

theorem eager_launch (s : State) (now : ℕ) (pool migrator : Address) :
    (s.launch now pool migrator).eager = s.eager.launch now pool migrator := rfl

theorem eager_settle (h : Inv s) (howner : s.owner = 0) (now : ℕ) (a : Address) :
    (s.settle now a).eager = (s.eager.advance now).round a := by
  have howed := h.rewardsAt_le now a
  rw [eager_advance_launched h howner]
  ext1
  · exact Ledger.pot_settle (l := s.ledgerAt now) rewardPrecision_pos a
  · show s._totalSupply + s.rewardsAt now a +
      (s.pendingMints + s.accrued now - s.rewardsAt now a) = s.supplyAt now
    unfold supplyAt
    omega
  all_goals rfl

theorem eager_pay (hx : x ≤ s._balances src) (dst : Address) :
    (s.pay src dst x).eager = s.eager.pay src dst x := by
  ext1
  · exact Ledger.pot_moved (l := s.ledger) hx dst
  all_goals rfl

theorem eager_poolBurn (hidle : s.burnScore s.liquidityPool = 0) (x : ℕ) :
    s.eager.poolBurn x = s.poolBurn x := by
  have hwealth : s.eager.pot.wealth s.liquidityPool / REWARD_PRECISION =
      s._balances s.liquidityPool := by
    show (REWARD_PRECISION * s._balances s.liquidityPool +
      s.ledger.claim s.liquidityPool) / REWARD_PRECISION = _
    rw [Nat.mul_add_div rewardPrecision_pos]
    unfold Ledger.claim
    rw [show s.ledger.weight s.liquidityPool = 0 from hidle, Nat.zero_mul,
      Nat.zero_div, Nat.add_zero]
  unfold EagerToken.poolBurn poolBurn
  rw [show s.eager.liquidityPool = s.liquidityPool from rfl, hwealth]

theorem eager_levy (h : Inv s)
    (hsettled : s.userRewardsPerTokenBurned src = s.rewardsPerTokenBurned)
    (hne : s.liquidityPool ≠ src) (htax : taxOf x ≤ s._balances src) :
    (s.levy src x).eager = s.eager.levy src x := by
  have hburn : s.poolBurn x ≤
      update s._balances src (s._balances src - taxOf x) s.liquidityPool := by
    rw [update_of_ne hne]
    exact s.poolBurn_le x
  have hburns := h.burns_le hne htax
  unfold EagerToken.levy
  rw [eager_poolBurn h.poolIdle]
  ext1
  · show (s.levy src x).ledger.pot REWARD_PRECISION (s.levy src x)._balances = _
    rw [ledger_levy, Ledger.pot_grow (l := s.ledger) _ hsettled]
    congr 1
    show s.ledger.pot REWARD_PRECISION (update _ s.liquidityPool _) = _
    rw [Ledger.pot_take hburn, Ledger.pot_take htax]
    rfl
  · show s._totalSupply - taxOf x - s.poolBurn x + s.pendingMints =
      s._totalSupply + s.pendingMints - taxOf x - s.poolBurn x
    omega
  all_goals rfl

/-- Nothing is minted twice for the same second. -/
theorem eager_advance_self (h : Inv s) (hclock : s.lastMintTime = now) :
    s.eager.advance now = s.eager := by
  by_cases howner : s.owner = 0
  · have hpending : s.supplyAt now = s._totalSupply + s.pendingMints := by
      unfold supplyAt
      rw [accrued_self hclock, Nat.add_zero]
    rw [eager_advance_launched h howner, ledgerAt_self hclock, hpending]
    subst hclock
    rfl
  · exact eager_advance_dormant howner now

/-- The common body of the two transfers. -/
theorem eager_send (h : Inv s) (hclock : s.lastMintTime ≤ now)
    (hx : x ≤ s.balanceAt now src) (dst : Address) :
    (s.send now src dst x).eager = s.eager.send now src dst x := by
  have htaxed (hpool : s.liquidityPool ≠ 0) :
      s.eager.taxed src dst = s.taxed src dst := by
    unfold EagerToken.taxed taxed
    rw [decide_eq_true hpool, Bool.true_and]
    rfl
  unfold EagerToken.send
  rcases s.send_cases now src dst x with
    ⟨hpool, -, hsend⟩ | ⟨hpool, htax, hsend⟩ | ⟨hpool, hexempt, hsend⟩
  · have hpool' : s.eager.liquidityPool = 0 := hpool
    rw [h.balanceAt_no_pool hpool] at hx
    rw [hsend, if_pos hpool', eager_pay hx]
  · have hpool' : s.eager.liquidityPool ≠ 0 := hpool
    have hsettled := h.settle hclock src
    have hne := (h.pool_ne_of_taxed htax).1
    rw [hsend, if_neg hpool', htaxed hpool, htax, if_pos rfl,
      eager_pay (h.levy_balance_src htax hx),
      eager_levy hsettled (settle_settled s now src) hne (Inv.tax_le_settled hx),
      eager_settle h (h.launched hpool)]
  · have hpool' : s.eager.liquidityPool ≠ 0 := hpool
    rw [← Inv.settle_balance s now src] at hx
    rw [hsend, if_neg hpool', htaxed hpool, hexempt, if_neg Bool.false_ne_true,
      eager_pay hx, eager_settle h (h.launched hpool)]

theorem eager_shift (hsrc : s.userRewardsPerTokenBurned src = s.rewardsPerTokenBurned)
    (hdst : s.userRewardsPerTokenBurned dst = s.rewardsPerTokenBurned) (n : ℕ) :
    eager { s with burnScore := moved s.burnScore src dst n } =
      s.eager.onPot (·.shift src dst n) := by
  ext1
  · exact Ledger.pot_shift (l := s.ledger) n hsrc hdst
  all_goals rfl

theorem eager_moveScore (h : Inv s) (howner : s.owner = 0)
    (hclock : s.lastMintTime ≤ now) (src dst : Address) (n : ℕ) :
    (s.moveScore now src dst n).eager = s.eager.moveScore now src dst n := by
  have hsettled := h.settle hclock src
  have hboth : ((s.settle now src).settle now dst).eager =
      ((s.eager.advance now).round src).round dst := by
    rw [eager_settle hsettled howner,
      eager_advance_self hsettled (settle_lastMintTime s now src),
      eager_settle h howner]
  unfold EagerToken.moveScore
  rw [← hboth]
  exact eager_shift (settle_settle_settled s now src dst) (settle_settled _ now dst) n

/-- What an allowance covers is charged without wrapping. -/
theorem eager_spend (hword : s._allowances a dst < 2 ^ 256)
    (hallow : s._allowances a dst = uintMax ∨ x ≤ s._allowances a dst) :
    (s.spend a dst x).eager = s.eager.spend a dst x := by
  unfold spend ERC20.spent EagerToken.spend
  by_cases hmax : s._allowances a dst = uintMax
  · have hmax' : s.eager.allowance a dst = uintMax := hmax
    rw [if_pos hmax, if_pos hmax']
  · have hmax' : s.eager.allowance a dst ≠ uintMax := hmax
    rw [if_neg hmax, if_neg hmax',
      uncheckedSub_of_le (hallow.resolve_left hmax) hword]
    rfl

theorem eager_constructor {t : ℕ} {owner : Address} {g : State}
    (h : State.constructor t owner = .ok g) :
    EagerToken.deploy t owner = some g.eager := by
  obtain ⟨howner, rfl⟩ := constructor_inv h
  unfold EagerToken.deploy
  rw [if_pos howner]
  congr 1
  ext1
  · ext a
    · show update (fun _ => 0) owner _ a =
        REWARD_PRECISION * update (fun _ => 0) owner INITIAL_SUPPLY a + 0 * _
      by_cases ha : a = owner
      · subst ha
        rw [update_self, update_self, Nat.zero_mul, Nat.add_zero]
      · rw [update_of_ne ha, update_of_ne ha, Nat.zero_mul, Nat.mul_zero]
    · rfl
  case exempt =>
    funext a
    exact List.contains_eq_mem a dexRouters
  all_goals rfl

end State

end CyberCash
