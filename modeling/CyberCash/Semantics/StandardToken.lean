import CyberCash.Contract.SafeERC20

/-!
# Standard tokens

What the Migrator is meant to be used with: a token whose `transferFrom` moves
exactly the amount or does not go through, and a CASH that pays exactly what it
is asked to. A chain of unmodified OpenZeppelin tokens has both properties.
-/

namespace CyberCash

open Solidity Function SafeERC20

variable {ω : Type}

/-- A call of `transferFrom` that returns reports success and moves exactly the
amount, here and nowhere else. -/
structure Standard (chain : Chain ω) (token : Address) : Prop where
  accepted : ∀ {w sender src dst x w' data},
    chain.transferFrom w token sender src dst x = .returned w' data →
      Accepted chain w' token data
  moves : ∀ {w sender src dst x w' data},
    chain.transferFrom w token sender src dst x = .returned w' data → src ≠ dst →
      ∃ a b, chain.balanceOf w token src = .ok (a + x) ∧
        chain.balanceOf w token dst = .ok b ∧
        chain.balanceOf w' token src = .ok a ∧
        chain.balanceOf w' token dst = .ok (b + x)
  others : ∀ {w sender src dst x w' data},
    chain.transferFrom w token sender src dst x = .returned w' data →
      ∀ account, account ≠ src → account ≠ dst →
        chain.balanceOf w' token account = chain.balanceOf w token account
  apart : ∀ {w sender src dst x w' data},
    chain.transferFrom w token sender src dst x = .returned w' data →
      ∀ other account, other ≠ token →
        chain.balanceOf w' other account = chain.balanceOf w other account

/-- A transfer by `this` lowers its balance by exactly the amount and moves no
other token. -/
structure PaysExactly (chain : Chain ω) (cash : Address) (this : Caller) :
    Prop where
  pays : ∀ {w dst x w' flag b},
    chain.transfer w cash this dst x = .ok (w', flag) → dst ≠ this.1 →
      chain.balanceOf w cash this.1 = .ok b →
      ∃ b', b' + x = b ∧ chain.balanceOf w' cash this.1 = .ok b'
  apart : ∀ {w dst x w' flag},
    chain.transfer w cash this dst x = .ok (w', flag) →
      ∀ other account, other ≠ cash →
        chain.balanceOf w' other account = chain.balanceOf w other account

/-! ## A chain of OpenZeppelin tokens -/

namespace ERC20

variable {e e' : ERC20} {sender src dst : Address} {x : ℕ}

theorem Books.spent (h : e.Books) : (e.spent src sender x).Books := by
  unfold ERC20.spent
  split
  · exact h
  · exact ⟨h.sum, h.word⟩

theorem spent_balances (e : ERC20) (src sender : Address) (x : ℕ) :
    (e.spent src sender x)._balances = e._balances := by
  unfold ERC20.spent
  split <;> rfl

/-- Both external transfers, seen from the balances. -/
structure Moved (e : ERC20) (src dst : Address) (x : ℕ) (e' : ERC20) : Prop where
  books : e'.Books
  enough : x ≤ e._balances src
  balances : e'._balances = Solidity.moved e._balances src dst x

theorem transfer_moved {msg : Msg} (h : e.Books)
    (hok : e.transfer msg dst x = .ok e') : e.Moved msg.sender dst x e' := by
  obtain ⟨-, -, hx, rfl⟩ := (_transfer_eq_ok h).mp hok
  exact ⟨h.paid hx, hx, rfl⟩

theorem transferFrom_moved {msg : Msg} (h : e.Books)
    (hok : e.transferFrom msg src dst x = .ok e') : e.Moved src dst x e' := by
  obtain ⟨e₁, hspend, hpay⟩ := bind_eq_ok.mp hok
  obtain ⟨-, rfl⟩ := _spendAllowance_eq_ok.mp hspend
  obtain ⟨-, -, hx, rfl⟩ := (_transfer_eq_ok h.spent).mp hpay
  have hbalances := e.spent_balances src msg.sender x
  refine ⟨h.spent.paid hx, hbalances ▸ hx, ?_⟩
  show Solidity.moved (e.spent src msg.sender x)._balances src dst x = _
  rw [hbalances]

theorem Moved.payer (h : e.Moved src dst x e') (hne : src ≠ dst) :
    e'._balances src + x = e._balances src := by
  have hmoved := moved_add h.enough dst src
  rwa [if_pos rfl, if_neg hne, ← h.balances] at hmoved

theorem Moved.payee (h : e.Moved src dst x e') (hne : src ≠ dst) :
    e'._balances dst = e._balances dst + x := by
  have hmoved := moved_add h.enough dst dst
  rwa [if_pos rfl, if_neg hne.symm, ← h.balances] at hmoved

end ERC20

/-- One token at each address. -/
abbrev Tokens : Type := Address → {e : ERC20 // e.Books}

/-- A function of one token, which keeps its books. -/
abbrev TokenCall : Type :=
  {f : ERC20 → Result ERC20 // ∀ e e', e.Books → f e = .ok e' → e'.Books}

def transferCall (sender : Caller) (dst : Address) (x : ℕ) : TokenCall :=
  ⟨(·.transfer (Caller.msg sender 0) dst x),
    fun _ _ h hok => (ERC20.transfer_moved h hok).books⟩

def transferFromCall (sender : Caller) (src dst : Address) (x : ℕ) : TokenCall :=
  ⟨(·.transferFrom (Caller.msg sender 0) src dst x),
    fun _ _ h hok => (ERC20.transferFrom_moved h hok).books⟩

namespace Tokens

def run (w : Tokens) (token : Address) (call : TokenCall) : Result Tokens :=
  match h : call.1 (w token).1 with
  | .ok e => .ok (update w token ⟨e, call.2 _ _ (w token).2 h⟩)
  | .error reason => .error reason

theorem run_eq_ok {w w' : Tokens} {token : Address} {call : TokenCall}
    (h : run w token call = .ok w') :
    call.1 (w token).1 = .ok (w' token).1 ∧
      ∀ other, other ≠ token → w' other = w other := by
  unfold run at h
  split at h
  · cases h
    refine ⟨?_, fun other hother => update_of_ne hother _ _⟩
    rwa [update_self]
  · cases h

end Tokens

/-- Every address but zero is a token. -/
def tokenChain : Chain Tokens where
  isContract _ a := decide (a ≠ 0)
  isContract_zero _ := decide_eq_false (not_not_intro rfl)
  balanceOf w token account := .ok ((w token).1.balanceOf account)
  transfer w token sender _to amount := do
    let w ← Tokens.run w token (transferCall sender _to amount)
    return (w, true)
  transferFrom w token sender _from _to amount :=
    match Tokens.run w token (transferFromCall sender _from _to amount) with
    | .ok w => .returned w (wordBytes 1)
    | .error reason => .reverted (some reason)

/-- A balance of the chain is read from one token. -/
theorem tokenChain_balanceOf {w w' : Tokens} {token : Address}
    (h : w' token = w token) (account : Address) :
    tokenChain.balanceOf w' token account = tokenChain.balanceOf w token account := by
  unfold tokenChain
  dsimp only
  rw [h]

theorem tokenChain_transfer {w w' : Tokens} {token dst : Address}
    {sender : Caller} {x : ℕ} {flag : Bool}
    (h : tokenChain.transfer w token sender dst x = .ok (w', flag)) :
    (w token).1.Moved sender.1 dst x (w' token).1 ∧
      ∀ other, other ≠ token → w' other = w other := by
  obtain ⟨w₁, hrun, heq⟩ := bind_eq_ok.mp h
  cases heq
  obtain ⟨hok, hother⟩ := Tokens.run_eq_ok hrun
  exact ⟨ERC20.transfer_moved (w token).2 hok, hother⟩

theorem tokenChain_transferFrom {w w' : Tokens} {token src dst : Address}
    {sender : Caller} {x : ℕ} {data : List Byte}
    (h : tokenChain.transferFrom w token sender src dst x = .returned w' data) :
    data = wordBytes 1 ∧ (w token).1.Moved src dst x (w' token).1 ∧
      ∀ other, other ≠ token → w' other = w other := by
  unfold tokenChain at h
  dsimp only at h
  split at h
  · cases h
    obtain ⟨hok, hother⟩ := Tokens.run_eq_ok ‹_›
    exact ⟨rfl, ERC20.transferFrom_moved (w token).2 hok, hother⟩
  · cases h

theorem tokenChain_returns {w w' : Tokens} {token src dst : Address}
    {sender : Caller} {x : ℕ}
    (h : Tokens.run w token (transferFromCall sender src dst x) = .ok w') :
    tokenChain.transferFrom w token sender src dst x = .returned w' (wordBytes 1) := by
  unfold tokenChain
  dsimp only
  rw [h]

theorem tokenChain_standard (token : Address) : Standard tokenChain token where
  accepted h := by
    obtain ⟨rfl, -⟩ := tokenChain_transferFrom h
    exact decodeBool_true
  moves {w sender src dst x w' data} h hne := by
    obtain ⟨-, hmoved, -⟩ := tokenChain_transferFrom h
    refine ⟨(w' token).1._balances src, (w token).1._balances dst, ?_, rfl, rfl, ?_⟩
    · rw [hmoved.payer hne]
      rfl
    · rw [← hmoved.payee hne]
      rfl
  others {w sender src dst x w' data} h account hsrc hdst := by
    obtain ⟨-, hmoved, -⟩ := tokenChain_transferFrom h
    have hsame : (w' token).1._balances account = (w token).1._balances account := by
      rw [hmoved.balances, moved_other hsrc hdst]
    exact congrArg Except.ok hsame
  apart {w sender src dst x w' data} h other account hother := by
    obtain ⟨-, -, hsame⟩ := tokenChain_transferFrom h
    exact tokenChain_balanceOf (hsame other hother) account

theorem tokenChain_pays (cash : Address) (this : Caller) :
    PaysExactly tokenChain cash this where
  pays {w dst x w' flag b} h hne hb := by
    obtain ⟨hmoved, -⟩ := tokenChain_transfer h
    refine ⟨(w' cash).1._balances this.1, ?_, rfl⟩
    rw [hmoved.payer hne.symm]
    exact Except.ok.inj hb
  apart {w dst x w' flag} h other account hother := by
    obtain ⟨-, hsame⟩ := tokenChain_transfer h
    exact tokenChain_balanceOf (hsame other hother) account

end CyberCash
