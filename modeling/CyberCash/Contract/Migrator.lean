import CyberCash.Contract.SafeERC20
import CyberCash.Library.TimedRun

/-!
# The Migrator contract

`Migrator.sol`, function by function, over the chain it is deployed on. A
function that calls other contracts takes the chain and its state `w`, and the
contract's own address `this`.

A system run interleaves the calls of the contract with what else happens on
the chain, a relation `env` that each group of results chooses for itself.
-/

namespace CyberCash

open Solidity Function TimedRun

inductive MigratorEvent : Type where
  | tokenMigrationAdded (token : Address) (cashPerWholeToken tokenDecimals : ℕ)
  | tokenMigrated (user token : Address) (amountIn cashOut : ℕ)
deriving DecidableEq, Repr

/-- Storage of the contract, and its log. -/
structure Migrator where
  owner : Address
  cyberCash : Address
  allowedTokens : Address → Bool
  cashPerWholeTokens : Address → ℕ
  tokenDecimals : Address → ℕ
  logs : List MigratorEvent

namespace Migrator

def constructor (_owner : Address) : Migrator where
  owner := _owner
  cyberCash := 0
  allowedTokens _ := false
  cashPerWholeTokens _ := 0
  tokenDecimals _ := 0
  logs := []

def setCashAddress (m : Migrator) (sender : Caller) (_cash : Address) :
    Result Migrator := do
  require (sender.1 = m.owner) (.custom .notOwner)
  require (_cash ≠ 0) (.custom .zeroAddress)
  require (m.cyberCash = 0) (.custom .alreadySet)
  return { m with cyberCash := _cash }

def addTokenMigration (m : Migrator) (sender : Caller) (_token : Address)
    (_cashPerWholeToken _wholeTokenDecimals : ℕ) : Result Migrator := do
  require (sender.1 = m.owner) (.custom .notOwner)
  require (_token ≠ 0) (.custom .zeroAddress)
  require (_cashPerWholeToken ≠ 0) (.custom .invalidRatio)
  require (m.allowedTokens _token = false) (.custom .isAllowed)
  require (_wholeTokenDecimals ≠ 0 ∧ _wholeTokenDecimals ≤ 50)
    (.custom .invalidDecimals)
  return { m with
    allowedTokens := update m.allowedTokens _token true
    cashPerWholeTokens := update m.cashPerWholeTokens _token _cashPerWholeToken
    tokenDecimals := update m.tokenDecimals _token _wholeTokenDecimals
    logs := m.logs ++
      [.tokenMigrationAdded _token _cashPerWholeToken _wholeTokenDecimals] }

def canMigrate (m : Migrator) (_token : Address) : Bool := m.allowedTokens _token

variable {ω : Type}

/-- What a migration would take and pay, `(0, 0)` for a token that is not
listed. The source writes two conditional expressions: only the branch taken is
evaluated, so only the capped one multiplies by the balance and divides. -/
def migrationResult (chain : Chain ω) (this : Caller) (m : Migrator) (w : ω)
    (_token : Address) (_amountIn : ℕ) : Result (ℕ × ℕ) :=
  if m.allowedTokens _token = true then do
    let balanceCASH ← IERC20.balanceOf chain w m.cyberCash this.1
    let ratio := m.cashPerWholeTokens _token
    let tokenDecimalAdjustment ← checkedPow 10 (m.tokenDecimals _token)
    let scaled ← checkedMul _amountIn ratio
    let requestedCash ← checkedDiv scaled tokenDecimalAdjustment
    let receivedAmount :=
      if requestedCash < balanceCASH then requestedCash else balanceCASH
    let spendAmount ←
      (if requestedCash < balanceCASH then .ok _amountIn
       else do
        let part ← checkedMul _amountIn balanceCASH
        checkedDiv part requestedCash)
    return (spendAmount, receivedAmount)
  else
    return (0, 0)

/-- The flag that the transfer of CASH returns is not looked at. -/
def migrate (chain : Chain ω) (this : Caller) (m : Migrator) (w : ω)
    (sender : Caller) (_token : Address) (_amount : ℕ) :
    Result (ω × Migrator) := do
  require (m.allowedTokens _token = true) (.custom .tokenNotAllowed)
  require (_amount ≠ 0) (.custom .zeroAmount)
  let balanceCASH ← IERC20.balanceOf chain w m.cyberCash this.1
  require (balanceCASH ≠ 0) (.custom .noBalanceAvailable)
  let (spendToken, receivedCash) ← m.migrationResult chain this w _token _amount
  let w ← SafeERC20.safeTransferFrom chain w _token this sender.1 this.1 spendToken
  let (w, _) ← IERC20.transfer chain w m.cyberCash this sender.1 receivedCash
  return (w, { m with
    logs := m.logs ++ [.tokenMigrated sender.1 _token spendToken receivedCash] })

end Migrator

/-! ## Calls, steps and runs -/

/-- The state-changing external functions of the deployed contract. -/
inductive MigratorCall : Type where
  | setCashAddress (_cash : Address)
  | addTokenMigration (_token : Address)
      (_cashPerWholeToken _wholeTokenDecimals : Uint256)
  | migrate (_token : Address) (_amount : Uint256)
deriving DecidableEq

variable {ω ε : Type}

def migratorStep (chain : Chain ω) (this sender : Caller) (call : MigratorCall)
    (s : ω × Migrator) : Result (ω × Migrator) :=
  match call with
  | .setCashAddress _cash => do
      let m ← s.2.setCashAddress sender _cash
      return (s.1, m)
  | .addTokenMigration _token _cashPerWholeToken _wholeTokenDecimals => do
      let m ← s.2.addTokenMigration sender _token _cashPerWholeToken.toNat
        _wholeTokenDecimals.toNat
      return (s.1, m)
  | .migrate _token _amount =>
      s.2.migrate chain this s.1 sender _token _amount.toNat

/-- A call of the contract, or an event of kind `ε` outside it. -/
inductive Action (ε : Type) : Type where
  | call (sender : Caller) (call : MigratorCall)
  | outside (e : ε)

/-- A successful call, of anybody but the contract itself, which has no code
that calls it, or an event outside, which leaves its storage alone. -/
def MigratorNext (chain : Chain ω) (this : Caller) (env : ω → ε → ω → Prop)
    (s : ω × Migrator) (a : Action ε) (s' : ω × Migrator) : Prop :=
  match a with
  | .call sender call =>
      sender ≠ this ∧ migratorStep chain this sender call s = .ok s'
  | .outside e => env s.1 e s'.1 ∧ s'.2 = s.2

abbrev MigratorStep (ω ε : Type) : Type := Step (ω × Migrator) (Action ε)

/-- What the contract sees of time is part of the chain, so the clock of a run
stands still. -/
abbrev MigratorRun (chain : Chain ω) (this : Caller) (env : ω → ε → ω → Prop)
    (s : ω × Migrator) (steps : List (MigratorStep ω ε)) (s' : ω × Migrator) :
    Prop :=
  Run (MigratorNext chain this env) (fun _ => 0) 0 s steps 0 s'

/-- Reached from the constructor, whatever happens on the chain. -/
def MigratorReachable (chain : Chain ω) (this : Caller) (w : ω) (m : Migrator) :
    Prop :=
  ∃ _owner w₀ steps,
    MigratorRun chain this (fun _ (_ : Unit) _ => True)
      (w₀, Migrator.constructor _owner) steps (w, m)

end CyberCash
