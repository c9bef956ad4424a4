import CyberCash.Semantics.Inversion

/-!
# What the approval calls write

`Effect.reapprove` only says that an approval call leaves the ledger alone.
Here is the rest: the one allowance it sets, the nonce a permit uses up, and
the signature a permit has to carry. A transfer charges the allowance it spends
through the same storage write.
-/

namespace CyberCash

open Solidity Function State

/-- The permits of an owner among the calls. -/
def Tx.permits (tx : Tx) (owner : Address) : ℕ :=
  match tx.call with
  | .permit _owner _ _ _ _ _ _ => if owner = _owner then 1 else 0
  | _ => 0

namespace State

/-- Whose allowance an approval call sets, for whom, and to what. -/
def approves (s : State) (tx : Tx) : Option (Address × Address × ℕ) :=
  match tx.call with
  | .approve spender amount => some (tx.sender, spender, amount.toNat)
  | .increaseAllowance spender addedValue =>
      some (tx.sender, spender, s._allowances tx.sender spender + addedValue.toNat)
  | .decreaseAllowance spender subtractedValue =>
      some (tx.sender, spender,
        s._allowances tx.sender spender - subtractedValue.toNat)
  | .permit owner spender value _ _ _ _ => some (owner, spender, value.toNat)
  | _ => none

/-- The nonces after a call. -/
def noncesAfter (s : State) (tx : Tx) : Address → ℕ :=
  match tx.call with
  | .permit owner _ _ _ _ _ _ =>
      update s._nonces owner (uncheckedAdd (s._nonces owner) 1)
  | _ => s._nonces

/-- The state an approval call leaves behind. -/
def reapproved (s : State) (tx : Tx) (owner spender : Address) (x : ℕ) : State :=
  { s with
    toERC20 := s.toERC20.approved owner spender x
    _nonces := s.noncesAfter tx }

variable {evm : Evm} {s s' : State} {tx : Tx}

/-- A permit that went through: within its deadline, signed by the owner over
the owner's current nonce. -/
structure Permitted (evm : Evm) (s : State) (now : ℕ) (owner spender : Address)
    (value deadline : ℕ) (v : Byte) (r sig : BitVec 256) : Prop where
  inTime : now ≤ deadline
  signer : ECDSA.recover evm (ECDSA.toTypedDataHash evm
    (ERC20Permit.permitHash evm owner spender value (s._nonces owner) deadline))
    v r sig = .ok owner
  owner : owner ≠ 0
  spender : spender ≠ 0

theorem permit_inv {msg : Msg} {owner spender : Address} {value deadline : ℕ}
    {v : Byte} {r sig : BitVec 256}
    (h : s.onPermit (·.permit evm msg owner spender value deadline v r sig) =
      .ok s') :
    s.Permitted evm msg.timestamp owner spender value deadline v r sig ∧
      s' = { s with
        toERC20 := s.toERC20.approved owner spender value
        _nonces := update s._nonces owner (uncheckedAdd (s._nonces owner) 1) } := by
  obtain ⟨e, he, rfl⟩ := onPermit_eq_ok.mp h
  simp only [ERC20Permit.permit, ERC20Permit._useNonce, bind_eq_ok, require_eq_ok,
    ERC20._approve_eq_ok, pure_eq_ok, Except.ok.injEq] at he
  obtain ⟨_, hdeadline, _, hrecover, _, rfl, _, ⟨howner, hspender, rfl⟩, rfl⟩ := he
  exact ⟨⟨hdeadline, hrecover, howner, hspender⟩, rfl⟩

theorem onERC20_approve {f : ERC20 → Result ERC20} {owner spender : Address}
    {x : ℕ} (hf : ∀ {e'}, f s.toERC20 = .ok e' →
      s.toERC20._approve owner spender x = .ok e')
    (h : s.onERC20 f = .ok s') :
    owner ≠ 0 ∧ spender ≠ 0 ∧
      s' = { s with toERC20 := s.toERC20.approved owner spender x } := by
  obtain ⟨e, he, rfl⟩ := onERC20_eq_ok.mp h
  obtain ⟨howner, hspender, rfl⟩ := ERC20._approve_eq_ok.mp (hf he)
  exact ⟨howner, hspender, rfl⟩

/-- **Approval inversion.** An approval call that succeeds sets one allowance,
to a word. -/
theorem step_approval (h : step evm s tx = .ok s')
    (hcall : tx.call.isApproval = true)
    (hword : ∀ owner spender, s._allowances owner spender < 2 ^ 256) :
    ∃ owner spender x, s.approves tx = some (owner, spender, x) ∧
      owner ≠ 0 ∧ spender ≠ 0 ∧ x < 2 ^ 256 ∧
      s' = s.reapproved tx owner spender x := by
  obtain ⟨msg, call⟩ := tx
  cases call with
  | approve spender amount =>
      change s.onERC20 (·.approve msg spender amount.toNat) = _ at h
      obtain ⟨howner, hspender, rfl⟩ := onERC20_approve (fun he => he) h
      exact ⟨_, _, _, rfl, howner, hspender, amount.isLt, rfl⟩
  | increaseAllowance spender addedValue =>
      change s.onERC20 (·.increaseAllowance msg spender addedValue.toNat) = _ at h
      obtain ⟨e, he, -⟩ := onERC20_eq_ok.mp h
      simp only [ERC20.increaseAllowance, bind_eq_ok, checkedAdd_eq_ok] at he
      obtain ⟨_, ⟨hsum, rfl⟩, -⟩ := he
      have hset {e' : ERC20}
          (he : s.toERC20.increaseAllowance msg spender addedValue.toNat = .ok e') :
          s.toERC20._approve msg.sender spender
            (s._allowances msg.sender spender + addedValue.toNat) = .ok e' := by
        simp only [ERC20.increaseAllowance, bind_eq_ok, checkedAdd_eq_ok] at he
        obtain ⟨_, ⟨-, rfl⟩, he⟩ := he
        exact he
      obtain ⟨howner, hspender, rfl⟩ := onERC20_approve hset h
      exact ⟨_, _, _, rfl, howner, hspender, hsum, rfl⟩
  | decreaseAllowance spender subtractedValue =>
      change s.onERC20 (·.decreaseAllowance msg spender subtractedValue.toNat) = _
        at h
      have hcurrent := hword msg.sender spender
      have hset {e' : ERC20}
          (he : s.toERC20.decreaseAllowance msg spender subtractedValue.toNat =
            .ok e') :
          s.toERC20._approve msg.sender spender
            (s._allowances msg.sender spender - subtractedValue.toNat) = .ok e' := by
        simp only [ERC20.decreaseAllowance, bind_eq_ok, require_eq_ok] at he
        obtain ⟨_, hle, he⟩ := he
        rwa [uncheckedSub_of_le hle hcurrent] at he
      obtain ⟨howner, hspender, rfl⟩ := onERC20_approve hset h
      exact ⟨_, _, _, rfl, howner, hspender, (Nat.sub_le _ _).trans_lt hcurrent, rfl⟩
  | permit owner spender value deadline v r sig =>
      obtain ⟨hpermitted, rfl⟩ := permit_inv h
      exact ⟨_, _, _, rfl, hpermitted.owner, hpermitted.spender, value.isLt, rfl⟩
  | _ => exact Bool.noConfusion hcall

/-! ## Allowances and nonces after any call -/

@[simp] theorem reapproved_allowances (owner spender : Address) (x : ℕ) :
    (s.reapproved tx owner spender x)._allowances =
      update s._allowances owner (update (s._allowances owner) spender x) := rfl

@[simp] theorem reapproved_nonces (owner spender : Address) (x : ℕ) :
    (s.reapproved tx owner spender x)._nonces = s.noncesAfter tx := rfl

/-- The one allowance an approval call sets, and the others. -/
theorem reapproved_allowance (owner spender o p : Address) (x : ℕ) :
    (s.reapproved tx owner spender x)._allowances o p =
      if o = owner ∧ p = spender then x else s._allowances o p := by
  rw [reapproved_allowances]
  by_cases ho : o = owner
  · subst ho
    by_cases hp : p = spender
    · simp [hp]
    · simp [hp]
  · simp [ho]

end State

end CyberCash
