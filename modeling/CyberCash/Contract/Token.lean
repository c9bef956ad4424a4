import CyberCash.Contract.ERC20Permit

/-!
# The CyberCash contract

`CyberCash.sol`, function by function. A function that writes storage takes the
state and returns the next one or a revert; a `view` returns its value or a
revert. `now` is `block.timestamp`.
-/

namespace CyberCash

open Solidity Function

/-! ## Constants -/

/-- Ten billion tokens, `1e28` in the source. -/
@[irreducible] def INITIAL_SUPPLY : ℕ := 10000000000000000000000000000

/-- Token reserve in the liquidity pool that cannot be burned, `1e9`. -/
@[irreducible] def RESERVE_BUFFER : ℕ := 1000000000

/-- Scale of the reward index, `1e18`. -/
@[irreducible] def REWARD_PRECISION : ℕ := 1000000000000000000

/-- One billion tokens per year of 365 days. -/
@[irreducible] def MINT_PER_SECOND : ℕ := 31709791983764586504

/-- 0.5% of a transfer, over `BURN_PRECISION`. -/
def BURN_ON_TRANSFER : ℕ := 5

/-- 0.2% of a transfer, taken from the liquidity pool. -/
def BURN_FROM_LP : ℕ := 2

def BURN_PRECISION : ℕ := 1000

/-- The router contracts the constructor exempts. -/
def dexRouters : List Address :=
  [ 0x4C60051384bd2d3C01bfc845Cf5F4b44bcbE9de5#160
  , 0xeC8B0F7Ffe3ae75d7FfAb09429e3675bb63503e4#160
  , 0x5E325eDA8064b456f4781070C0738d849c824258#160
  , 0x360E68faCcca8cA495c1B759Fd9EEe466db9FB32#160
  , 0xd88F38F930b7952f2DB2432Cb002E7abbF3dD869#160
  , 0xa669e7A0d4b3e4Fa48af2dE86BD4CD7126Be4e13#160
  , 0x7432657cDda02226ac2aAc9d8f552Ee9613B064e#160
  , 0x6A000F20005980200259B80c5102003040001068#160
  , 0x6131B5fae19EA4f9D964eAc0408E4408b66337b5#160
  , 0xcab2FA2eeab7065B45CBcF6E3936dDE2506b4f6C#160
  , 0x227B0c196eA8db17A665EA6824D972A64202E936#160
  , 0xDef1C0ded9bec7F1a1670819833240f027b25EfF#160
  , 0xdB6f1920A889355780aF7570773609Bd8Cb1f498#160
  , 0x1111111254EEB25477B68fb85Ed929f73A960582#160
  , 0x9008D19f58AAbD9eD0D60971565AA8510560ab41#160
  , 0x6352a56caadC4F1E25CD6c75970Fa768A3304e64#160 ]

/-! ## Storage -/

structure State extends ERC20Permit where
  owner : Address
  liquidityPool : Address
  exemptedAddresses : Address → Bool
  rewardsPerTokenBurned : ℕ
  userRewardsPerTokenBurned : Address → ℕ
  lastMintTime : ℕ
  pendingMints : ℕ
  totalBurned : ℕ
  burnScore : Address → ℕ

namespace State

/-- Run a function of the inherited token. -/
def onERC20 (s : State) (f : ERC20 → Result ERC20) : Result State := do
  let e ← f s.toERC20
  return { s with toERC20 := e }

def onPermit (s : State) (f : ERC20Permit → Result ERC20Permit) :
    Result State := do
  let e ← f s.toERC20Permit
  return { s with toERC20Permit := e }

/-- Storage before the constructor's body: everything is zero, but
`totalBurned` has its initial value. -/
def blank : State where
  _balances _ := 0
  _allowances _ _ := 0
  _totalSupply := 0
  logs := []
  _nonces _ := 0
  owner := 0
  liquidityPool := 0
  exemptedAddresses _ := false
  rewardsPerTokenBurned := 0
  userRewardsPerTokenBurned _ := 0
  lastMintTime := 0
  pendingMints := 0
  totalBurned := 1
  burnScore _ := 0

def constructor (now : ℕ) (_owner : Address) : Result State := do
  require (_owner ≠ 0) (.custom .zeroAddress)
  let s := { blank with owner := _owner, lastMintTime := now }
  let s ← s.onERC20 (·._mint s.owner INITIAL_SUPPLY)
  return { s with exemptedAddresses := fun a => decide (a ∈ dexRouters) }

/-! ## New functions -/

/-- `initialize` in the source, a word Lean reserves. Sets the addresses of the
liquidity pool and the migrator, starts the inflation and revokes the owner. -/
def initialise (s : State) (msg : Msg) (_poolAddress _migratorAddress : Address) :
    Result State := do
  require (msg.sender = s.owner) (.custom .notOwner)
  require (_poolAddress ≠ 0) (.custom .zeroAddress)
  require (_migratorAddress ≠ 0) (.custom .zeroAddress)
  return { s with
    exemptedAddresses :=
      update (update s.exemptedAddresses _poolAddress true) _migratorAddress true
    liquidityPool := _poolAddress
    lastMintTime := msg.timestamp
    owner := 0 }

/-- The mintable rewards of the system since the last claim. -/
def totalRewards (s : State) (now : ℕ) : Result ℕ :=
  if s.owner = 0 then do
    let elapsed ← checkedSub now s.lastMintTime
    checkedMul MINT_PER_SECOND elapsed
  else
    return 0

/-- The pending rewards of a user. -/
def userRewards (s : State) (now : ℕ) (_user : Address) : Result ℕ := do
  let addedRewards ← s.totalRewards now
  let scaled ← checkedMul addedRewards REWARD_PRECISION
  let perToken ← checkedDiv scaled s.totalBurned
  let simulatedRewardsPerTokenBurned ← checkedAdd s.rewardsPerTokenBurned perToken
  let gap ← checkedSub simulatedRewardsPerTokenBurned
    (s.userRewardsPerTokenBurned _user)
  let claim ← checkedMul (s.burnScore _user) gap
  checkedDiv claim REWARD_PRECISION

/-- The balance shown by the standard interface: minted tokens and pending
rewards. -/
def balanceOf (s : State) (now : ℕ) (account : Address) : Result ℕ := do
  let rewards ← s.userRewards now account
  checkedAdd (s.toERC20.balanceOf account) rewards

def totalSupply (s : State) (now : ℕ) : Result ℕ := do
  let minted ← checkedAdd s.toERC20.totalSupply s.pendingMints
  let added ← s.totalRewards now
  checkedAdd minted added

/-- Mints the pending rewards of an account and updates the individual and the
global trackers. -/
def mintRewards (s : State) (now : ℕ) (_account : Address) : Result State := do
  let rewards ← s.userRewards now _account
  let s ← s.onERC20 (·._mint _account rewards)
  let addedRewards ← s.totalRewards now
  let scaled ← checkedMul addedRewards REWARD_PRECISION
  let perToken ← checkedDiv scaled s.totalBurned
  let rewardsPerTokenBurned ← checkedAdd s.rewardsPerTokenBurned perToken
  let pending ← checkedAdd s.pendingMints addedRewards
  let pendingMints ← checkedSub pending rewards
  return { s with
    rewardsPerTokenBurned := rewardsPerTokenBurned
    userRewardsPerTokenBurned :=
      update s.userRewardsPerTokenBurned _account rewardsPerTokenBurned
    pendingMints := pendingMints
    lastMintTime := now
    logs := s.logs ++ [.rewardsClaimed _account rewards] }

/-- Moves burn score. The two writes read storage one after the other, so a
move onto oneself changes nothing. -/
def transferBurnScore (s : State) (msg : Msg) (_to : Address) (_amount : ℕ) :
    Result State := do
  let sender := msg.sender
  let balance := s.burnScore sender
  require (_to ≠ 0) (.custom .zeroAddress)
  require (s.exemptedAddresses _to = false) (.custom .prohibitedAddress)
  require (_amount ≠ 0) (.custom .zeroAmount)
  require (_amount ≤ balance) (.custom .insufficientBurnScore)
  let s ← s.mintRewards msg.timestamp sender
  let s ← s.mintRewards msg.timestamp _to
  let reduced ← checkedSub (s.burnScore sender) _amount
  let burnScore := update s.burnScore sender reduced
  let increased ← checkedAdd (burnScore _to) _amount
  return { s with burnScore := update burnScore _to increased }

/-- Burns the transfer tax and a share of the liquidity pool. Returns what is
left to send. -/
def burnOnTransfer (s : State) (now : ℕ) (_sender : Address) (_amount : ℕ) :
    Result (State × ℕ) := do
  let pooledAmount ← s.balanceOf now s.liquidityPool
  let canBurnFromLP ←
    (if RESERVE_BUFFER < pooledAmount then checkedSub pooledAmount RESERVE_BUFFER
     else .ok 0)
  let scaledTx ← checkedMul _amount BURN_ON_TRANSFER
  let burnedFromTx ← checkedDiv scaledTx BURN_PRECISION
  let scaledLP ← checkedMul _amount BURN_FROM_LP
  let requestedFromLP ← checkedDiv scaledLP BURN_PRECISION
  let burnedFromLP :=
    if requestedFromLP < canBurnFromLP then requestedFromLP else canBurnFromLP
  let sendAmount ← checkedSub _amount burnedFromTx
  let s ← s.onERC20 (·._burn _sender burnedFromTx)
  let s ← s.onERC20 (·._burn s.liquidityPool burnedFromLP)
  let totalBurned ← checkedAdd s.totalBurned burnedFromTx
  let score ← checkedAdd (s.burnScore _sender) burnedFromTx
  return ({ s with
    totalBurned := totalBurned
    burnScore := update s.burnScore _sender score
    logs := s.logs ++ [.burnedTokensFromLP burnedFromLP] }, sendAmount)

/-! ## Overridden ERC20 functions -/

def transfer (s : State) (msg : Msg) (_to : Address) (_amount : ℕ) :
    Result State := do
  let sender := msg.sender
  if s.liquidityPool ≠ 0 then
    let s ← s.mintRewards msg.timestamp sender
    if s.exemptedAddresses sender = false ∧ s.exemptedAddresses _to = false then
      let (s, _amount) ← s.burnOnTransfer msg.timestamp sender _amount
      s.onERC20 (·._transfer sender _to _amount)
    else
      s.onERC20 (·._transfer sender _to _amount)
  else
    s.onERC20 (·._transfer sender _to _amount)

def transferFrom (s : State) (msg : Msg) (_from _to : Address) (_amount : ℕ) :
    Result State := do
  let spender := msg.sender
  let s ← s.onERC20 (·._spendAllowance _from spender _amount)
  if s.liquidityPool ≠ 0 then
    let s ← s.mintRewards msg.timestamp _from
    if s.exemptedAddresses _from = false ∧ s.exemptedAddresses _to = false then
      let (s, _amount) ← s.burnOnTransfer msg.timestamp _from _amount
      s.onERC20 (·._transfer _from _to _amount)
    else
      s.onERC20 (·._transfer _from _to _amount)
  else
    s.onERC20 (·._transfer _from _to _amount)

end State

end CyberCash
