import CyberCash.Contract.Site
import CyberCash.Library.Reentrancy

/-!
# The Migrator among contracts that call back

`migrate` takes the tokens before it pays, and nothing in `Migrator.sol` locks
it while the token runs. Here the contracts at the addresses `isOpen` are
arbitrary code: what they do in the middle of a migration, calls of the Migrator
included, is an activity, and only the data they return is looked at. The
contracts elsewhere, and all the views, are those of the chain.

A view is called by `STATICCALL`, so it cannot change anything and is not waited
for.
-/

namespace CyberCash

open Solidity Reentrancy

variable {ω ε : Type}

/-- A function of the Migrator where other contracts may run in between. -/
abbrev MigratorProgram (ω : Type) : Type :=
  Program (ω × Migrator) (Revert CustomError) (List Byte)

/-- `safeTransferFrom`, and then the rest. -/
def SafeERC20.safeTransferFromThen (chain : Chain ω) (isOpen : Address → Bool)
    (s : ω × Migrator) (token : Address) (this : Caller) (_from _to : Address)
    (value : ℕ) (next : ω × Migrator → MigratorProgram ω) : MigratorProgram ω :=
  if isOpen token = true then
    .callOut s fun s returndata =>
      .check (SafeERC20._callOptionalReturn chain token (.returned s.1 returndata))
        fun w => next (w, s.2)
  else
    .check (SafeERC20.safeTransferFrom chain s.1 token this _from _to value)
      fun w => next (w, s.2)

/-- `transfer` of the standard interface, and then the rest. The compiler checks
that there is code and that a `bool` came back. -/
def IERC20.transferThen (chain : Chain ω) (isOpen : Address → Bool)
    (s : ω × Migrator) (token : Address) (this : Caller) (_to : Address)
    (amount : ℕ) (next : ω × Migrator → MigratorProgram ω) : MigratorProgram ω :=
  if isOpen token = true then
    .check (require (chain.isContract s.1 token = true) (.error ""))
      fun _ => .callOut s fun s returndata =>
        .check (SafeERC20.decodeBool returndata) fun _ => next s
  else
    .check (IERC20.transfer chain s.1 token this _to amount)
      fun r => next (r.1, s.2)

namespace Migrator

/-- `migrate` up to its first transfer: the checks and the two amounts. -/
def quote (chain : Chain ω) (this : Caller) (m : Migrator) (w : ω)
    (_token : Address) (_amount : ℕ) : Result (ℕ × ℕ) := do
  require (m.allowedTokens _token = true) (.custom .tokenNotAllowed)
  require (_amount ≠ 0) (.custom .zeroAmount)
  let balanceCASH ← IERC20.balanceOf chain w m.cyberCash this.1
  require (balanceCASH ≠ 0) (.custom .noBalanceAvailable)
  m.migrationResult chain this w _token _amount

/-- `migrate`. The address of CASH is read again after the tokens are taken. -/
def migrateProgram (chain : Chain ω) (isOpen : Address → Bool) (this : Caller)
    (sender : Caller) (_token : Address) (_amount : ℕ) (s : ω × Migrator) :
    MigratorProgram ω :=
  .check (s.2.quote chain this s.1 _token _amount) fun amounts =>
    SafeERC20.safeTransferFromThen chain isOpen s _token this sender.1 this.1
      amounts.1 fun s =>
        IERC20.transferThen chain isOpen s s.2.cyberCash this sender.1 amounts.2
          fun s => .finish (.ok (s.1, { s.2 with
            logs := s.2.logs ++
              [.tokenMigrated sender.1 _token amounts.1 amounts.2] }))

end Migrator

/-- Anybody but the Migrator, which has no code that calls itself. -/
abbrev Outsider (this : Caller) : Type := {sender : Caller // sender ≠ this}

/-- The Migrator with the events `act` around it, which leave its storage
alone. -/
def reentrantMigrator (chain : Chain ω) (isOpen : Address → Bool) (this : Caller)
    (act : ω → ε → Result ω) :
    Contract (ω × Migrator) (Revert CustomError) (List Byte)
      (Outsider this × MigratorCall) ε where
  code entry s :=
    match entry.2 with
    | .migrate _token _amount =>
        Migrator.migrateProgram chain isOpen this entry.1 _token _amount.toNat s
    | call => .finish (migratorStep chain this entry.1 call s)
  event e s := do
    let w ← act s.1 e
    return (w, s.2)

/-- What happens on a chain with the Migrator. -/
abbrev MigratorActivity (this : Caller) (ε : Type) : Type :=
  Activity (Outsider this × MigratorCall) ε (Revert CustomError) (List Byte)

/-! ## Beside CyberCash -/

section Joint

variable {τ : Type}

/-- The events of `SiteNext`, executed. -/
def siteAct (evm : Evm) (site : Site τ) (e : SiteEvent τ) : Result (Site τ) :=
  match e with
  | .deploy _owner => do
      require (site.token.isNone = true) (.error "")
      let s ← State.constructor site.timestamp _owner
      return { site with token := some s }
  | .cash sender call =>
      match site.token with
      | some s => do
          let s ← step evm s ⟨site.msg sender, call⟩
          return { site with token := some s }
      | none => .error (.error "")
  | .others o => .ok { site with others := o }
  | .wait seconds => .ok { site with timestamp := site.timestamp + seconds }

/-- CyberCash is called by others than the Migrator, and initialised, if at all,
with this Migrator and a pool apart from it. -/
def SiteEvent.Allowed (this : Caller) : SiteEvent τ → Prop
  | .cash sender call => sender ≠ this ∧ call.Names this ∧
      ∀ pool migrator, call = .initialise pool migrator → pool ≠ this.1
  | _ => True

abbrev JointEvent (τ : Type) (this : Caller) : Type :=
  {e : SiteEvent τ // e.Allowed this}

/-- Both contracts among others that call back. CyberCash itself calls
nobody. -/
def jointContract (evm : Evm) (cash this : Caller) (others : ℕ → Chain τ) :
    Contract (Site τ × Migrator) (Revert CustomError) (List Byte)
      (Outsider this × MigratorCall) (JointEvent τ this) :=
  reentrantMigrator (siteChain cash others) (fun a => decide (a ≠ cash.1)) this
    fun site e => siteAct evm site e.1

end Joint

end CyberCash
