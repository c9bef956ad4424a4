import CyberCash.Contract.Calls
import CyberCash.Contract.Migrator

/-!
# Both contracts on one chain

The chain as the Migrator finds it: CyberCash at its address, once it is
deployed, and other contracts, a parameter, everywhere else. A joint run
interleaves calls of the two contracts with deployment, the passage of time and
whatever the other contracts do.
-/

namespace CyberCash

open Solidity TimedRun

/-- The block, the storage of CyberCash and that of the other contracts. -/
structure Site (τ : Type) where
  timestamp : ℕ
  token : Option State
  others : τ

variable {τ : Type}

def Site.msg (site : Site τ) (sender : Caller) : Msg :=
  Caller.msg sender site.timestamp

/-- Calls to the address `cash` go to CyberCash, the rest to the contracts that
`others` gives for the timestamp of the block. A low-level call succeeds,
without data, where there is no code. -/
def siteChain (cash : Caller) (others : ℕ → Chain τ) : Chain (Site τ) where
  isContract site a :=
    if a = cash.1 then site.token.isSome
    else (others site.timestamp).isContract site.others a
  isContract_zero site :=
    (if_neg cash.2.symm).trans ((others site.timestamp).isContract_zero site.others)
  balanceOf site token account :=
    if token = cash.1 then
      match site.token with
      | some s => s.balanceOf site.timestamp account
      | none => .error (.error "")
    else (others site.timestamp).balanceOf site.others token account
  transfer site token sender _to amount :=
    if token = cash.1 then
      match site.token with
      | some s => do
          let s ← s.transfer (site.msg sender) _to amount
          return ({ site with token := some s }, true)
      | none => .error (.error "")
    else do
      let (o, flag) ←
        (others site.timestamp).transfer site.others token sender _to amount
      return ({ site with others := o }, flag)
  transferFrom site token sender _from _to amount :=
    if token = cash.1 then
      match site.token with
      | some s =>
          match s.transferFrom (site.msg sender) _from _to amount with
          | .ok s => .returned { site with token := some s } (wordBytes 1)
          | .error reason => .reverted (some reason)
      | none => .returned site []
    else
      match (others site.timestamp).transferFrom site.others token sender _from _to
        amount with
      | .returned o data => .returned { site with others := o } data
      | .reverted reason => .reverted reason

/-! ## Joint runs -/

/-- What happens besides the calls of the Migrator. -/
inductive SiteEvent (τ : Type) : Type where
  | deploy (_owner : Address)
  | cash (sender : Caller) (call : Call)
  | others (o : τ)
  | wait (seconds : ℕ)

/-- CyberCash is initialised, if at all, with this Migrator. -/
def Call.Names (this : Caller) (call : Call) : Prop :=
  ∀ pool migrator, call = .initialise pool migrator → migrator = this.1

def SiteNext (evm : Evm) (this : Caller) (site : Site τ) (e : SiteEvent τ)
    (site' : Site τ) : Prop :=
  match e with
  | .deploy _owner => site.token = none ∧
      ∃ s, State.constructor site.timestamp _owner = .ok s ∧
        site' = { site with token := some s }
  | .cash sender call => sender ≠ this ∧ call.Names this ∧
      ∃ s s', site.token = some s ∧ step evm s ⟨site.msg sender, call⟩ = .ok s' ∧
        site' = { site with token := some s' }
  | .others o => site' = { site with others := o }
  | .wait seconds => site' = { site with timestamp := site.timestamp + seconds }

/-- A state reached from before the deployment of CyberCash and from the
constructor of the Migrator. -/
def JointReachable (evm : Evm) (cash this : Caller) (others : ℕ → Chain τ)
    (site : Site τ) (m : Migrator) : Prop :=
  ∃ site₀ _owner steps, site₀.token = none ∧
    MigratorRun (siteChain cash others) this (SiteNext evm this)
      (site₀, Migrator.constructor _owner) steps (site, m)

end CyberCash
