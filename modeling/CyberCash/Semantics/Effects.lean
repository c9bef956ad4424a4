import CyberCash.Semantics.Views

/-!
# Plain effects of the calls

What each storage-writing function does when it succeeds, with the checks and
the machine arithmetic gone: `settle` for `mintRewards`, `levy` for
`burnOnTransfer`, `send` for the body that `transfer` and `transferFrom` share,
`moveScore` for the score move, `launch` for `initialize`. The two halves of the
correspondence with the contract are `Semantics/Inversion` (a call that
succeeds has its plain effect) and `Semantics/Totality` (when it succeeds).
-/

namespace CyberCash

open Solidity Function

namespace State

/-! ## The effects -/

/-- `initialize`. -/
def launch (s : State) (now : ℕ) (pool migrator : Address) : State :=
  { s with
    exemptedAddresses :=
      update (update s.exemptedAddresses pool true) migrator true
    liquidityPool := pool
    lastMintTime := now
    owner := 0 }

/-- `mintRewards`. -/
def settle (s : State) (now : ℕ) (a : Address) : State :=
  { s with
    _balances := update s._balances a (s._balances a + s.rewardsAt now a)
    _totalSupply := s._totalSupply + s.rewardsAt now a
    rewardsPerTokenBurned := s.indexAt now
    userRewardsPerTokenBurned :=
      update s.userRewardsPerTokenBurned a (s.indexAt now)
    pendingMints := s.pendingMints + s.accrued now - s.rewardsAt now a
    lastMintTime := now
    logs := s.logs ++ [.transfer 0 a (s.rewardsAt now a)] ++
      [.rewardsClaimed a (s.rewardsAt now a)] }

/-- The tax on an amount sent. -/
def taxOf (x : ℕ) : ℕ := x * BURN_ON_TRANSFER / BURN_PRECISION

/-- The share of the pool that a taxed transfer asks for. -/
def poolShare (x : ℕ) : ℕ := x * BURN_FROM_LP / BURN_PRECISION

/-- What a taxed transfer burns from the pool: its share, or what is there
above the reserve. -/
def poolBurn (s : State) (x : ℕ) : ℕ :=
  min (poolShare x) (s._balances s.liquidityPool - RESERVE_BUFFER)

/-- `burnOnTransfer`. -/
def levy (s : State) (sender : Address) (x : ℕ) : State :=
  let taxed := update s._balances sender (s._balances sender - taxOf x)
  { s with
    _balances := update taxed s.liquidityPool
      (taxed s.liquidityPool - s.poolBurn x)
    _totalSupply := s._totalSupply - taxOf x - s.poolBurn x
    totalBurned := s.totalBurned + taxOf x
    burnScore := update s.burnScore sender (s.burnScore sender + taxOf x)
    logs := s.logs ++ [.transfer sender 0 (taxOf x)] ++
      [.transfer s.liquidityPool 0 (s.poolBurn x)] ++
      [.burnedTokensFromLP (s.poolBurn x)] }

/-- `_transfer`. -/
def pay (s : State) (src dst : Address) (x : ℕ) : State :=
  { s with toERC20 := s.toERC20.paid src dst x }

/-- A transfer on which the burns are due. -/
def taxed (s : State) (src dst : Address) : Bool :=
  decide (s.liquidityPool ≠ 0) && !s.exemptedAddresses src &&
    !s.exemptedAddresses dst

/-- The common body of `transfer` and `transferFrom`. -/
def send (s : State) (now : ℕ) (src dst : Address) (x : ℕ) : State :=
  if s.liquidityPool = 0 then s.pay src dst x
  else if s.taxed src dst then
    ((s.settle now src).levy src x).pay src dst (x - taxOf x)
  else (s.settle now src).pay src dst x

theorem not_taxed_of_no_pool {s : State} (h : s.liquidityPool = 0)
    (src dst : Address) : s.taxed src dst = false := by
  unfold taxed
  simp [h]

/-- A transfer before the launch, a taxed one, and an exempt one. -/
theorem send_cases (s : State) (now : ℕ) (src dst : Address) (x : ℕ) :
    (s.liquidityPool = 0 ∧ s.taxed src dst = false ∧
      s.send now src dst x = s.pay src dst x) ∨
    (s.liquidityPool ≠ 0 ∧ s.taxed src dst = true ∧
      s.send now src dst x =
        ((s.settle now src).levy src x).pay src dst (x - taxOf x)) ∨
    (s.liquidityPool ≠ 0 ∧ s.taxed src dst = false ∧
      s.send now src dst x = (s.settle now src).pay src dst x) := by
  unfold send
  by_cases hpool : s.liquidityPool = 0
  · have hexempt := not_taxed_of_no_pool hpool src dst
    exact .inl ⟨hpool, hexempt, if_pos hpool⟩
  · rw [if_neg hpool]
    cases htaxed : s.taxed src dst with
    | true => exact .inr (.inl ⟨hpool, rfl, if_pos rfl⟩)
    | false => exact .inr (.inr ⟨hpool, rfl, if_neg Bool.false_ne_true⟩)

/-- Both parties are settled before the score moves. -/
def moveScore (s : State) (now : ℕ) (src dst : Address) (n : ℕ) : State :=
  let settled := (s.settle now src).settle now dst
  { settled with burnScore := moved s.burnScore src dst n }

/-- `_spendAllowance`. -/
def spend (s : State) (owner spender : Address) (x : ℕ) : State :=
  { s with toERC20 := s.toERC20.spent owner spender x }

/-- The state in which the body of a transfer starts. -/
def charge (s : State) (tx : Tx) : State :=
  match tx.call with
  | .transferFrom _from _ _amount => s.spend _from tx.sender _amount.toNat
  | _ => s

/-- The allowance, where the call needs one, covers the amount. -/
def Allows (s : State) (tx : Tx) : Prop :=
  match tx.call with
  | .transferFrom _from _ _amount =>
      s._allowances _from tx.sender = uintMax ∨
        _amount.toNat ≤ s._allowances _from tx.sender
  | _ => True

/-- Only allowances, nonces and the log differ. What was written to an
allowance is a word. -/
def Reapproves (s s' : State) : Prop :=
  ∃ allowances nonces entries,
    s' = { s with
      _allowances := allowances
      _nonces := nonces
      logs := s.logs ++ entries } ∧
    (∀ e ∈ entries, ∃ owner spender x, e = .approval owner spender x) ∧
    ∀ owner spender, allowances owner spender = s._allowances owner spender ∨
      allowances owner spender < 2 ^ 256

theorem reapproves_refl (s : State) : s.Reapproves s :=
  ⟨s._allowances, s._nonces, [], by simp, by simp, fun _ _ => .inl rfl⟩

/-- One allowance written, and its entry in the log. -/
theorem approved_reapproves (s : State) (nonces : Address → ℕ)
    (owner spender : Address) {x : ℕ} (hx : x < 2 ^ 256) :
    s.Reapproves { s with
      toERC20 := s.toERC20.approved owner spender x, _nonces := nonces } := by
  refine ⟨_, _, [.approval owner spender x], rfl, ?_, ?_⟩
  · intro e he
    rw [List.mem_singleton] at he
    exact ⟨owner, spender, x, he⟩
  · intro o p
    by_cases ho : o = owner
    · subst ho
      by_cases hp : p = spender
      · subst hp
        right
        simpa using hx
      · left
        simp [hp]
    · left
      simp [ho]

theorem spend_reapproves (s : State) (owner spender : Address) (x : ℕ) :
    s.Reapproves (s.spend owner spender x) := by
  unfold spend ERC20.spent
  split
  · exact s.reapproves_refl
  · exact s.approved_reapproves s._nonces owner spender (uncheckedSub_lt _ _)

theorem charge_reapproves (s : State) (tx : Tx) : s.Reapproves (s.charge tx) := by
  unfold charge
  split
  · exact s.spend_reapproves _ _ _
  · exact s.reapproves_refl

/-! ## Fields under the effects -/

namespace Reapproves

variable {s s' : State}

theorem balances (h : s.Reapproves s') : s'._balances = s._balances := by
  obtain ⟨_, _, _, rfl, -⟩ := h
  rfl

theorem owner (h : s.Reapproves s') : s'.owner = s.owner := by
  obtain ⟨_, _, _, rfl, -⟩ := h
  rfl

theorem liquidityPool (h : s.Reapproves s') :
    s'.liquidityPool = s.liquidityPool := by
  obtain ⟨_, _, _, rfl, -⟩ := h
  rfl

theorem exemptedAddresses (h : s.Reapproves s') :
    s'.exemptedAddresses = s.exemptedAddresses := by
  obtain ⟨_, _, _, rfl, -⟩ := h
  rfl

theorem userRewardsPerTokenBurned (h : s.Reapproves s') :
    s'.userRewardsPerTokenBurned = s.userRewardsPerTokenBurned := by
  obtain ⟨_, _, _, rfl, -⟩ := h
  rfl

theorem totalBurned (h : s.Reapproves s') : s'.totalBurned = s.totalBurned := by
  obtain ⟨_, _, _, rfl, -⟩ := h
  rfl

theorem burnScore (h : s.Reapproves s') : s'.burnScore = s.burnScore := by
  obtain ⟨_, _, _, rfl, -⟩ := h
  rfl

end Reapproves

section Fields

variable (s : State) (now x n : ℕ) (a src dst : Address)

@[simp] theorem pay_owner : (s.pay src dst x).owner = s.owner := rfl

@[simp] theorem pay_liquidityPool :
    (s.pay src dst x).liquidityPool = s.liquidityPool := rfl

@[simp] theorem pay_exemptedAddresses :
    (s.pay src dst x).exemptedAddresses = s.exemptedAddresses := rfl

@[simp] theorem pay_allowances :
    (s.pay src dst x)._allowances = s._allowances := rfl

@[simp] theorem pay_nonces : (s.pay src dst x)._nonces = s._nonces := rfl

@[simp] theorem pay_totalSupply :
    (s.pay src dst x)._totalSupply = s._totalSupply := rfl

@[simp] theorem pay_rewardsPerTokenBurned :
    (s.pay src dst x).rewardsPerTokenBurned = s.rewardsPerTokenBurned := rfl

@[simp] theorem pay_userRewardsPerTokenBurned :
    (s.pay src dst x).userRewardsPerTokenBurned = s.userRewardsPerTokenBurned := rfl

@[simp] theorem pay_lastMintTime :
    (s.pay src dst x).lastMintTime = s.lastMintTime := rfl

@[simp] theorem pay_pendingMints :
    (s.pay src dst x).pendingMints = s.pendingMints := rfl

@[simp] theorem pay_totalBurned :
    (s.pay src dst x).totalBurned = s.totalBurned := rfl

@[simp] theorem pay_burnScore : (s.pay src dst x).burnScore = s.burnScore := rfl

@[simp] theorem settle_owner : (s.settle now a).owner = s.owner := rfl

@[simp] theorem settle_liquidityPool :
    (s.settle now a).liquidityPool = s.liquidityPool := rfl

@[simp] theorem settle_exemptedAddresses :
    (s.settle now a).exemptedAddresses = s.exemptedAddresses := rfl

@[simp] theorem settle_allowances :
    (s.settle now a)._allowances = s._allowances := rfl

@[simp] theorem settle_nonces : (s.settle now a)._nonces = s._nonces := rfl

@[simp] theorem settle_totalBurned :
    (s.settle now a).totalBurned = s.totalBurned := rfl

@[simp] theorem settle_burnScore : (s.settle now a).burnScore = s.burnScore := rfl

@[simp] theorem settle_lastMintTime : (s.settle now a).lastMintTime = now := rfl

@[simp] theorem settle_rewardsPerTokenBurned :
    (s.settle now a).rewardsPerTokenBurned = s.indexAt now := rfl

@[simp] theorem levy_owner : (s.levy a x).owner = s.owner := rfl

@[simp] theorem levy_liquidityPool :
    (s.levy a x).liquidityPool = s.liquidityPool := rfl

@[simp] theorem levy_exemptedAddresses :
    (s.levy a x).exemptedAddresses = s.exemptedAddresses := rfl

@[simp] theorem levy_allowances : (s.levy a x)._allowances = s._allowances := rfl

@[simp] theorem levy_nonces : (s.levy a x)._nonces = s._nonces := rfl

@[simp] theorem levy_rewardsPerTokenBurned :
    (s.levy a x).rewardsPerTokenBurned = s.rewardsPerTokenBurned := rfl

@[simp] theorem levy_userRewardsPerTokenBurned :
    (s.levy a x).userRewardsPerTokenBurned = s.userRewardsPerTokenBurned := rfl

@[simp] theorem levy_lastMintTime :
    (s.levy a x).lastMintTime = s.lastMintTime := rfl

@[simp] theorem levy_pendingMints :
    (s.levy a x).pendingMints = s.pendingMints := rfl

@[simp] theorem levy_totalBurned :
    (s.levy a x).totalBurned = s.totalBurned + taxOf x := rfl

@[simp] theorem levy_burnScore :
    (s.levy a x).burnScore =
      update s.burnScore a (s.burnScore a + taxOf x) := rfl

@[simp] theorem send_owner : (s.send now src dst x).owner = s.owner := by
  unfold send
  split
  · simp
  · split <;> simp

@[simp] theorem send_liquidityPool :
    (s.send now src dst x).liquidityPool = s.liquidityPool := by
  unfold send
  split
  · simp
  · split <;> simp

@[simp] theorem send_exemptedAddresses :
    (s.send now src dst x).exemptedAddresses = s.exemptedAddresses := by
  unfold send
  split
  · simp
  · split <;> simp

@[simp] theorem send_allowances :
    (s.send now src dst x)._allowances = s._allowances := by
  unfold send
  split
  · simp
  · split <;> simp

@[simp] theorem send_nonces : (s.send now src dst x)._nonces = s._nonces := by
  unfold send
  split
  · simp
  · split <;> simp

end Fields

end State

/-! ## The effect of a transaction -/

/-- **What a successful call can do**: the four kinds of effect, each with the
conditions under which it happens. Every invariant of the token is a case
analysis of this. -/
inductive Effect (s : State) (tx : Tx) : State → Prop where
  | launch {pool migrator : Address} :
      tx.call = .initialise pool migrator → tx.sender = s.owner →
      pool ≠ 0 → migrator ≠ 0 →
      Effect s tx (s.launch tx.now pool migrator)
  | reapprove {s' : State} :
      tx.call.isApproval = true → s.Reapproves s' → Effect s tx s'
  | send {src dst : Address} {x : ℕ} :
      tx.movement = some (src, dst, x) → s.Allows tx →
      src ≠ 0 → dst ≠ 0 → x ≤ s.balanceAt tx.now src →
      ((s.charge tx).send tx.now src dst x)._totalSupply < 2 ^ 256 →
      Effect s tx ((s.charge tx).send tx.now src dst x)
  | moveScore {dst : Address} {n : Uint256} :
      tx.call = .transferBurnScore dst n → dst ≠ 0 →
      s.exemptedAddresses dst = false → n.toNat ≠ 0 →
      n.toNat ≤ s.burnScore tx.sender →
      (s.moveScore tx.now tx.sender dst n.toNat)._totalSupply < 2 ^ 256 →
      Effect s tx (s.moveScore tx.now tx.sender dst n.toNat)

/-- Only `initialize` touches the owner, the pool and the exemptions. -/
theorem Effect.frame {s s' : State} {tx : Tx} (he : Effect s tx s')
    (hcall : tx.call.isInitialise = false) :
    s'.owner = s.owner ∧ s'.liquidityPool = s.liquidityPool ∧
      s'.exemptedAddresses = s.exemptedAddresses := by
  cases he with
  | launch hlaunch =>
      rw [hlaunch] at hcall
      exact Bool.noConfusion hcall
  | reapprove _ hs => exact ⟨hs.owner, hs.liquidityPool, hs.exemptedAddresses⟩
  | send =>
      have hs := s.charge_reapproves tx
      rw [State.send_owner, State.send_liquidityPool, State.send_exemptedAddresses]
      exact ⟨hs.owner, hs.liquidityPool, hs.exemptedAddresses⟩
  | moveScore => exact ⟨rfl, rfl, rfl⟩

/-- `initialize` succeeds only while the owner is set. -/
theorem Effect.of_launch {s s' : State} {tx : Tx} {pool migrator : Address}
    (he : Effect s tx s') (hcall : tx.call = .initialise pool migrator) :
    s.owner ≠ 0 ∧ s' = s.launch tx.now pool migrator := by
  cases he with
  | launch hlaunch hsender =>
      obtain ⟨rfl, rfl⟩ := Call.initialise.inj (hlaunch.symm.trans hcall)
      exact ⟨hsender ▸ tx.msg.sender_ne_zero, rfl⟩
  | reapprove happroval =>
      rw [hcall] at happroval
      exact Bool.noConfusion happroval
  | send hmove =>
      simp [Tx.movement, hcall] at hmove
  | moveScore hscore =>
      rw [hcall] at hscore
      cases hscore

theorem Call.eq_initialise {c : Call} (h : c.isInitialise = true) :
    ∃ pool migrator, c = .initialise pool migrator := by
  cases c with
  | initialise pool migrator => exact ⟨pool, migrator, rfl⟩
  | _ => exact Bool.noConfusion h

/-- Once the owner is revoked nothing about the phase changes. -/
theorem Effect.frozen {s s' : State} {tx : Tx} (he : Effect s tx s')
    (howner : s.owner = 0) :
    s'.owner = 0 ∧ s'.liquidityPool = s.liquidityPool ∧
      s'.exemptedAddresses = s.exemptedAddresses := by
  cases hcall : tx.call.isInitialise with
  | false =>
      obtain ⟨hsame, hpool, hexempt⟩ := he.frame hcall
      exact ⟨hsame.trans howner, hpool, hexempt⟩
  | true =>
      obtain ⟨pool, migrator, hlaunch⟩ := Call.eq_initialise hcall
      exact absurd howner (he.of_launch hlaunch).1

end CyberCash
