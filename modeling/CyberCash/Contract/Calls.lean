import CyberCash.Contract.Token
import CyberCash.Library.TimedRun

/-!
# Calls, steps and runs of the token

A transaction is a message with one external call. `step` dispatches it;
a reverted call leaves no trace, so runs consist of the successful ones.
-/

namespace CyberCash

open Solidity Function TimedRun

/-- The state-changing external functions of the deployed contract. -/
inductive Call : Type where
  | initialise (_poolAddress _migratorAddress : Address)
  | transfer (_to : Address) (_amount : Uint256)
  | transferFrom (_from _to : Address) (_amount : Uint256)
  | transferBurnScore (_to : Address) (_amount : Uint256)
  | approve (spender : Address) (amount : Uint256)
  | increaseAllowance (spender : Address) (addedValue : Uint256)
  | decreaseAllowance (spender : Address) (subtractedValue : Uint256)
  | permit (owner spender : Address) (value deadline : Uint256) (v : Byte)
      (r s : BitVec 256)
deriving DecidableEq

structure Tx where
  msg : Msg
  call : Call

namespace Tx

def now (tx : Tx) : ℕ := tx.msg.timestamp

def sender (tx : Tx) : Address := tx.msg.sender

/-- Sender, receiver and amount of a token transfer of either kind. -/
def movement (tx : Tx) : Option (Address × Address × ℕ) :=
  match tx.call with
  | .transfer _to _amount => some (tx.sender, _to, _amount.toNat)
  | .transferFrom _from _to _amount => some (_from, _to, _amount.toNat)
  | _ => none

end Tx

def Call.isInitialise : Call → Bool
  | .initialise _ _ => true
  | _ => false

/-- The four calls that only write allowances and nonces. -/
def Call.isApproval : Call → Bool
  | .approve _ _ => true
  | .increaseAllowance _ _ => true
  | .decreaseAllowance _ _ => true
  | .permit _ _ _ _ _ _ _ => true
  | _ => false

def step (evm : Evm) (s : State) (tx : Tx) : Result State :=
  match tx.call with
  | .initialise pool migrator => s.initialise tx.msg pool migrator
  | .transfer _to _amount => s.transfer tx.msg _to _amount.toNat
  | .transferFrom _from _to _amount =>
      s.transferFrom tx.msg _from _to _amount.toNat
  | .transferBurnScore _to _amount =>
      s.transferBurnScore tx.msg _to _amount.toNat
  | .approve spender amount =>
      s.onERC20 (·.approve tx.msg spender amount.toNat)
  | .increaseAllowance spender addedValue =>
      s.onERC20 (·.increaseAllowance tx.msg spender addedValue.toNat)
  | .decreaseAllowance spender subtractedValue =>
      s.onERC20 (·.decreaseAllowance tx.msg spender subtractedValue.toNat)
  | .permit owner spender value deadline v r sig =>
      s.onPermit (·.permit evm tx.msg owner spender value.toNat deadline.toNat v r sig)

/-! ## Runs -/

/-- A successful call. -/
def Next (evm : Evm) (s : State) (tx : Tx) (s' : State) : Prop :=
  step evm s tx = .ok s'

abbrev TokenStep : Type := Step State Tx

/-- Successful calls at non-decreasing block timestamps. -/
abbrev TokenRun (evm : Evm) : ℕ → State → List TokenStep → ℕ → State → Prop :=
  Run (Next evm) Tx.now

/-- `s` is reached from the constructor by successful calls, the last of them
(or the constructor itself) at time `t`. -/
def Reachable (evm : Evm) (t : ℕ) (s : State) : Prop :=
  ∃ t₀ owner g steps, State.constructor t₀ owner = .ok g ∧
    TokenRun evm t₀ g steps t s

/-- `s₀` is the state an `initialize` executed at `t₀` left behind. -/
def Launched (evm : Evm) (t₀ : ℕ) (s₀ : State) : Prop :=
  ∃ t s tx, Reachable evm t s ∧ t ≤ tx.now ∧ tx.call.isInitialise = true ∧
    step evm s tx = .ok s₀ ∧ t₀ = tx.now

theorem Reachable.run {evm : Evm} {t t' : ℕ} {s s' : State}
    {steps : List TokenStep} (h : Reachable evm t s)
    (hrun : TokenRun evm t s steps t' s') : Reachable evm t' s' := by
  obtain ⟨t₀, owner, g, past, hg, hpast⟩ := h
  exact ⟨t₀, owner, g, past ++ steps, hg, hpast.append hrun⟩

theorem Reachable.step {evm : Evm} {t : ℕ} {s s' : State} {tx : Tx}
    (h : Reachable evm t s) (ht : t ≤ tx.now)
    (hstep : step evm s tx = .ok s') : Reachable evm tx.now s' :=
  h.run (.cons ht hstep .nil)

theorem Launched.reachable {evm : Evm} {t₀ : ℕ} {s₀ : State}
    (h : Launched evm t₀ s₀) : Reachable evm t₀ s₀ := by
  obtain ⟨t, s, tx, hs, ht, -, hstep, rfl⟩ := h
  exact hs.step ht hstep

/-! ## Executing a list of calls -/

/-- All calls in order, or the first revert. -/
def execute (evm : Evm) : State → List Tx → Result State
  | s, [] => .ok s
  | s, tx :: txs => do
      let s ← step evm s tx
      execute evm s txs

theorem execute_cons_eq_ok {evm : Evm} {s s' : State} {tx : Tx}
    {txs : List Tx} :
    execute evm s (tx :: txs) = .ok s' ↔
      ∃ s₁, step evm s tx = .ok s₁ ∧ execute evm s₁ txs = .ok s' := by
  rw [execute, bind_eq_ok]

theorem execute_append_eq_ok {evm : Evm} {s s' : State} {txs txs' : List Tx} :
    execute evm s (txs ++ txs') = .ok s' ↔
      ∃ s₁, execute evm s txs = .ok s₁ ∧ execute evm s₁ txs' = .ok s' := by
  induction txs generalizing s with
  | nil => simp [execute]
  | cons tx txs ih =>
      simp only [List.cons_append, execute_cons_eq_ok, ih]
      constructor
      · rintro ⟨s₁, h₁, s₂, h₂, h⟩
        exact ⟨s₂, ⟨s₁, h₁, h₂⟩, h⟩
      · rintro ⟨s₂, ⟨s₁, h₁, h₂⟩, h⟩
        exact ⟨s₁, h₁, s₂, h₂, h⟩

/-- A list that executes at non-decreasing timestamps is a run. -/
theorem exists_run_of_execute {evm : Evm} {t : ℕ} {s s' : State}
    {txs : List Tx} (h : execute evm s txs = .ok s')
    (hclock : (t :: txs.map Tx.now).IsChain (· ≤ ·)) :
    ∃ steps t', TokenRun evm t s steps t' s' ∧ steps.map Step.label = txs ∧
      (t :: txs.map Tx.now).getLast? = some t' := by
  induction txs generalizing t s with
  | nil =>
      simp only [execute, Except.ok.injEq] at h
      subst h
      exact ⟨[], t, .nil, rfl, rfl⟩
  | cons tx txs ih =>
      obtain ⟨s₁, hstep, hrest⟩ := execute_cons_eq_ok.mp h
      simp only [List.map_cons, List.isChain_cons_cons] at hclock
      obtain ⟨steps, t', hrun, hlabels, hlast⟩ := ih hrest hclock.2
      refine ⟨⟨s, tx, s₁⟩ :: steps, t', .cons hclock.1 hstep hrun, ?_, ?_⟩
      · simp [hlabels]
      · simpa using hlast

end CyberCash
