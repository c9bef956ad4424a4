import CyberCash.Contract.ERC20Permit

/-!
# Calls to other tokens

What a contract sees of the tokens it calls: the functions of `IERC20`, called
with the compiler's checks, and `safeTransferFrom` of the OpenZeppelin
`SafeERC20` with the part of `Address` it goes through. The tokens themselves
are a parameter, `Chain`, over a type `ω` for their storage and the block.

A call with wrong or missing code behind it reverts without data, for which
`.error ""` stands.
-/

namespace CyberCash

open Solidity

/-- An account that can send a message. -/
abbrev Caller : Type := {a : Address // a ≠ 0}

def Caller.msg (sender : Caller) (timestamp : ℕ) : Msg :=
  ⟨sender.1, sender.2, timestamp⟩

/-- How a low-level call ended: with the reason of a revert, if it gave one, or
with the next state and the data returned. -/
inductive Outcome (ω : Type) : Type where
  | reverted (reason : Option (Revert CustomError))
  | returned (after : ω) (data : List Byte)

/-- The other contracts. `transferFrom` is called at low level, so what it
returns is still bytes. Nothing can be deployed at the zero address. -/
structure Chain (ω : Type) where
  isContract : ω → Address → Bool
  isContract_zero : ∀ w, isContract w 0 = false
  balanceOf : ω → (token account : Address) → Result ℕ
  transfer : ω → (token : Address) → (sender : Caller) → (_to : Address) →
    (amount : ℕ) → Result (ω × Bool)
  transferFrom : ω → (token : Address) → (sender : Caller) →
    (_from _to : Address) → (amount : ℕ) → Outcome ω

variable {ω : Type}

namespace IERC20

/-! The compiler checks that there is code at the address before it calls. -/

def balanceOf (chain : Chain ω) (w : ω) (token account : Address) : Result ℕ := do
  require (chain.isContract w token = true) (.error "")
  chain.balanceOf w token account

def transfer (chain : Chain ω) (w : ω) (token : Address) (sender : Caller)
    (_to : Address) (amount : ℕ) : Result (ω × Bool) := do
  require (chain.isContract w token = true) (.error "")
  chain.transfer w token sender _to amount

end IERC20

namespace SafeERC20

/-- `Address.verifyCallResultFromTarget`. Data that came back shows that there
was code, so the address is only looked at when there is none. -/
def verifyCallResultFromTarget (chain : Chain ω) (target : Address)
    (outcome : Outcome ω) (errorMessage : String) : Result (ω × List Byte) :=
  match outcome with
  | .returned w returndata => do
      (if returndata.length = 0 then
        require (chain.isContract w target = true)
          (.error "Address: call to non-contract")
      else .ok ())
      return (w, returndata)
  | .reverted (some reason) => .error reason
  | .reverted none => .error (.error errorMessage)

/-- The first word of the data. -/
def firstWord (data : List Byte) : ℕ :=
  (data.take 32).foldl (fun n b => 256 * n + b.toNat) 0

/-- `abi.decode` of a `bool`. Data that is too short, or another word, reverts. -/
def decodeBool (data : List Byte) : Result Bool := do
  require (32 ≤ data.length) (.error "")
  require (firstWord data ≤ 1) (.error "")
  return decide (firstWord data = 1)

def _callOptionalReturn (chain : Chain ω) (token : Address)
    (outcome : Outcome ω) : Result ω := do
  let (w, returndata) ← verifyCallResultFromTarget chain token outcome
    "SafeERC20: low-level call failed"
  let success ← (if returndata.length = 0 then .ok true else decodeBool returndata)
  require (success = true) (.error "SafeERC20: ERC20 operation did not succeed")
  return w

def safeTransferFrom (chain : Chain ω) (w : ω) (token : Address)
    (this : Caller) (_from _to : Address) (value : ℕ) : Result ω :=
  _callOptionalReturn chain token
    (chain.transferFrom w token this _from _to value)

/-- Data that counts as success: none, from a contract, or `true`. -/
def Accepted (chain : Chain ω) (w : ω) (token : Address) (data : List Byte) :
    Prop :=
  if data.length = 0 then chain.isContract w token = true
  else decodeBool data = .ok true

variable {chain : Chain ω} {w w' : ω} {token src dst : Address} {this : Caller}
  {x : ℕ}

theorem verifyCallResultFromTarget_eq_ok {outcome : Outcome ω}
    {errorMessage : String} {data : List Byte} :
    verifyCallResultFromTarget chain token outcome errorMessage = .ok (w', data) ↔
      outcome = .returned w' data ∧
        (data.length = 0 → chain.isContract w' token = true) := by
  cases outcome with
  | reverted reason =>
      cases reason <;> simp [verifyCallResultFromTarget]
  | returned w d =>
      simp only [verifyCallResultFromTarget, bind_eq_ok, pure_eq_ok,
        Except.ok.injEq, Prod.mk.injEq, Outcome.returned.injEq]
      constructor
      · rintro ⟨_, hcode, rfl, rfl⟩
        refine ⟨⟨rfl, rfl⟩, fun hnone => ?_⟩
        rw [if_pos hnone] at hcode
        exact require_eq_ok.mp hcode
      · rintro ⟨⟨rfl, rfl⟩, hcode⟩
        refine ⟨(), ?_, rfl, rfl⟩
        split
        · exact require_eq_ok.mpr (hcode ‹_›)
        · rfl

theorem _callOptionalReturn_eq_ok {outcome : Outcome ω} :
    _callOptionalReturn chain token outcome = .ok w' ↔
      ∃ data, outcome = .returned w' data ∧ Accepted chain w' token data := by
  simp only [_callOptionalReturn, bind_eq_ok, Prod.exists, require_eq_ok,
    pure_eq_ok, Except.ok.injEq, verifyCallResultFromTarget_eq_ok]
  constructor
  · rintro ⟨_, data, ⟨houtcome, hcode⟩, _, hdecoded, _, rfl, rfl⟩
    refine ⟨data, houtcome, ?_⟩
    unfold Accepted
    split
    · exact hcode ‹_›
    · rwa [if_neg ‹_›] at hdecoded
  · rintro ⟨data, houtcome, haccepted⟩
    unfold Accepted at haccepted
    refine ⟨w', data, ⟨houtcome, fun hnone => ?_⟩, true, ?_, (), rfl, rfl⟩
    · rwa [if_pos hnone] at haccepted
    · split
      · rfl
      · rwa [if_neg ‹_›] at haccepted

theorem safeTransferFrom_eq_ok :
    safeTransferFrom chain w token this src dst x = .ok w' ↔
      ∃ data, chain.transferFrom w token this src dst x = .returned w' data ∧
        Accepted chain w' token data := _callOptionalReturn_eq_ok

/-- The encoding of `true`. -/
theorem decodeBool_true : decodeBool (wordBytes 1) = .ok true := by decide

end SafeERC20

theorem IERC20.balanceOf_eq_ok {chain : Chain ω} {w : ω}
    {token account : Address} {x : ℕ} :
    IERC20.balanceOf chain w token account = .ok x ↔
      chain.isContract w token = true ∧ chain.balanceOf w token account = .ok x := by
  simp only [IERC20.balanceOf, bind_eq_ok, require_eq_ok, exists_const]

/-- Only a token that has an address can be read. -/
theorem IERC20.token_ne_zero {chain : Chain ω} {w : ω} {token account : Address}
    {x : ℕ} (h : IERC20.balanceOf chain w token account = .ok x) : token ≠ 0 := by
  rintro rfl
  obtain ⟨hcode, -⟩ := IERC20.balanceOf_eq_ok.mp h
  rw [chain.isContract_zero] at hcode
  exact Bool.noConfusion hcode

theorem IERC20.transfer_eq_ok {chain : Chain ω} {w w' : ω} {token dst : Address}
    {sender : Caller} {x : ℕ} {b : Bool} :
    IERC20.transfer chain w token sender dst x = .ok (w', b) ↔
      chain.isContract w token = true ∧
        chain.transfer w token sender dst x = .ok (w', b) := by
  simp only [IERC20.transfer, bind_eq_ok, require_eq_ok, exists_const]

end CyberCash
