import CyberCash.Library.Solidity

/-!
# The inherited ERC20

The storage and functions of the OpenZeppelin `ERC20` that CyberCash inherits,
as the library computes them: the balances are updated in `unchecked` blocks,
only the growth of the supply is checked. The transfer hooks are empty and are
left out, and so is the constant `true` that the external functions return.

`Books` (the balances sum to the supply, and the supply is a word) is what
makes the unchecked arithmetic exact. Under it each internal function has one
lemma that says when it succeeds and that its effect is the plain one
(`minted`, `burned`, `paid`).
-/

namespace CyberCash

open Solidity Function

/-- The custom errors of both contracts. `CyberCash.sol` declares
`NotInitialized` without raising it. -/
inductive CustomError : Type where
  | insufficientBurnScore
  | notInitialized
  | notOwner
  | prohibitedAddress
  | zeroAddress
  | zeroAmount
  | tokenNotAllowed
  | isAllowed
  | alreadySet
  | invalidRatio
  | invalidDecimals
  | noBalanceAvailable
deriving DecidableEq, Repr

abbrev Result : Type → Type := Except (Revert CustomError)

/-- What the token contract writes to the log. -/
inductive Event : Type where
  | transfer (src dst : Address) (value : ℕ)
  | approval (owner spender : Address) (value : ℕ)
  | rewardsClaimed (user : Address) (amount : ℕ)
  | burnedTokensFromLP (amount : ℕ)
deriving DecidableEq, Repr

/-- Storage of `ERC20`, and the log of the contract that inherits it. -/
structure ERC20 where
  _balances : Address → ℕ
  _allowances : Address → Address → ℕ
  _totalSupply : ℕ
  logs : List Event

namespace ERC20

/-! ## The functions -/

def totalSupply (e : ERC20) : ℕ := e._totalSupply

def balanceOf (e : ERC20) (account : Address) : ℕ := e._balances account

def allowance (e : ERC20) (owner spender : Address) : ℕ :=
  e._allowances owner spender

def _transfer (e : ERC20) (_from _to : Address) (amount : ℕ) : Result ERC20 := do
  require (_from ≠ 0) (.error "ERC20: transfer from the zero address")
  require (_to ≠ 0) (.error "ERC20: transfer to the zero address")
  let fromBalance := e._balances _from
  require (amount ≤ fromBalance) (.error "ERC20: transfer amount exceeds balance")
  let balances := update e._balances _from (uncheckedSub fromBalance amount)
  return { e with
    _balances := update balances _to (uncheckedAdd (balances _to) amount)
    logs := e.logs ++ [.transfer _from _to amount] }

def _mint (e : ERC20) (account : Address) (amount : ℕ) : Result ERC20 := do
  require (account ≠ 0) (.error "ERC20: mint to the zero address")
  let supply ← checkedAdd e._totalSupply amount
  return { e with
    _totalSupply := supply
    _balances := update e._balances account
      (uncheckedAdd (e._balances account) amount)
    logs := e.logs ++ [.transfer 0 account amount] }

def _burn (e : ERC20) (account : Address) (amount : ℕ) : Result ERC20 := do
  require (account ≠ 0) (.error "ERC20: burn from the zero address")
  let accountBalance := e._balances account
  require (amount ≤ accountBalance) (.error "ERC20: burn amount exceeds balance")
  return { e with
    _balances := update e._balances account (uncheckedSub accountBalance amount)
    _totalSupply := uncheckedSub e._totalSupply amount
    logs := e.logs ++ [.transfer account 0 amount] }

def _approve (e : ERC20) (owner spender : Address) (amount : ℕ) :
    Result ERC20 := do
  require (owner ≠ 0) (.error "ERC20: approve from the zero address")
  require (spender ≠ 0) (.error "ERC20: approve to the zero address")
  return { e with
    _allowances := update e._allowances owner
      (update (e._allowances owner) spender amount)
    logs := e.logs ++ [.approval owner spender amount] }

/-- An allowance of `type(uint256).max` is infinite and is not charged. -/
def _spendAllowance (e : ERC20) (owner spender : Address) (amount : ℕ) :
    Result ERC20 := do
  let currentAllowance := e.allowance owner spender
  if currentAllowance ≠ uintMax then
    require (amount ≤ currentAllowance) (.error "ERC20: insufficient allowance")
    e._approve owner spender (uncheckedSub currentAllowance amount)
  else
    return e

def transfer (e : ERC20) (msg : Msg) (_to : Address) (amount : ℕ) :
    Result ERC20 :=
  e._transfer msg.sender _to amount

def transferFrom (e : ERC20) (msg : Msg) (_from _to : Address) (amount : ℕ) :
    Result ERC20 := do
  let e ← e._spendAllowance _from msg.sender amount
  e._transfer _from _to amount

def approve (e : ERC20) (msg : Msg) (spender : Address) (amount : ℕ) :
    Result ERC20 :=
  e._approve msg.sender spender amount

def increaseAllowance (e : ERC20) (msg : Msg) (spender : Address)
    (addedValue : ℕ) : Result ERC20 := do
  let amount ← checkedAdd (e.allowance msg.sender spender) addedValue
  e._approve msg.sender spender amount

def decreaseAllowance (e : ERC20) (msg : Msg) (spender : Address)
    (subtractedValue : ℕ) : Result ERC20 := do
  let currentAllowance := e.allowance msg.sender spender
  require (subtractedValue ≤ currentAllowance)
    (.error "ERC20: decreased allowance below zero")
  e._approve msg.sender spender (uncheckedSub currentAllowance subtractedValue)

/-! ## Plain effects -/

def paid (e : ERC20) (_from _to : Address) (amount : ℕ) : ERC20 :=
  { e with
    _balances := moved e._balances _from _to amount
    logs := e.logs ++ [.transfer _from _to amount] }

def minted (e : ERC20) (account : Address) (amount : ℕ) : ERC20 :=
  { e with
    _totalSupply := e._totalSupply + amount
    _balances := update e._balances account (e._balances account + amount)
    logs := e.logs ++ [.transfer 0 account amount] }

def burned (e : ERC20) (account : Address) (amount : ℕ) : ERC20 :=
  { e with
    _balances := update e._balances account (e._balances account - amount)
    _totalSupply := e._totalSupply - amount
    logs := e.logs ++ [.transfer account 0 amount] }

def approved (e : ERC20) (owner spender : Address) (amount : ℕ) : ERC20 :=
  { e with
    _allowances := update e._allowances owner
      (update (e._allowances owner) spender amount)
    logs := e.logs ++ [.approval owner spender amount] }

/-- What `_spendAllowance` does when it succeeds. -/
def spent (e : ERC20) (owner spender : Address) (amount : ℕ) : ERC20 :=
  if e._allowances owner spender = uintMax then e
  else e.approved owner spender (uncheckedSub (e._allowances owner spender) amount)

/-! ## Balanced books -/

/-- The balances sum to the supply, and the supply is a word. -/
structure Books (e : ERC20) : Prop where
  sum : ∑ a, e._balances a = e._totalSupply
  word : e._totalSupply < 2 ^ 256

variable {e e' : ERC20} {a b : Address} {x : ℕ}

theorem Books.balance_le (h : e.Books) (a : Address) :
    e._balances a ≤ e._totalSupply :=
  h.sum ▸ le_sum_of_key e._balances a

theorem Books.two_balances_le (h : e.Books) (hne : a ≠ b) :
    e._balances a + e._balances b ≤ e._totalSupply :=
  h.sum ▸ add_le_sum_of_ne e._balances hne

theorem Books.minted (h : e.Books) (hx : e._totalSupply + x < 2 ^ 256) :
    (e.minted a x).Books where
  sum := by
    show ∑ c, update e._balances a (e._balances a + x) c = e._totalSupply + x
    rw [sum_credit, h.sum]
  word := hx

theorem Books.burned (h : e.Books) (hx : x ≤ e._balances a) :
    (e.burned a x).Books where
  sum := by
    have hsum := sum_debit hx
    rw [h.sum] at hsum
    show ∑ c, update e._balances a (e._balances a - x) c = e._totalSupply - x
    omega
  word := (Nat.sub_le _ _).trans_lt h.word

theorem Books.paid (h : e.Books) (hx : x ≤ e._balances a) :
    (e.paid a b x).Books where
  sum := (sum_moved hx).trans h.sum
  word := h.word

/-! ## When the internal functions succeed -/

theorem _mint_eq_ok (h : e.Books) :
    e._mint a x = .ok e' ↔
      a ≠ 0 ∧ e._totalSupply + x < 2 ^ 256 ∧ e' = e.minted a x := by
  have hbal := h.balance_le a
  simp only [_mint, bind_eq_ok, require_eq_ok, checkedAdd_eq_ok, pure_eq_ok,
    Except.ok.injEq]
  constructor
  · rintro ⟨_, ha, _, ⟨hx, rfl⟩, rfl⟩
    refine ⟨ha, hx, ?_⟩
    rw [uncheckedAdd_of_lt (by omega)]
    rfl
  · rintro ⟨ha, hx, rfl⟩
    refine ⟨(), ha, _, ⟨hx, rfl⟩, ?_⟩
    rw [uncheckedAdd_of_lt (by omega)]
    rfl

theorem _burn_eq_ok (h : e.Books) :
    e._burn a x = .ok e' ↔
      a ≠ 0 ∧ x ≤ e._balances a ∧ e' = e.burned a x := by
  have hbal := h.balance_le a
  have hword := h.word
  simp only [_burn, bind_eq_ok, require_eq_ok, pure_eq_ok, Except.ok.injEq]
  constructor
  · rintro ⟨_, ha, _, hx, rfl⟩
    refine ⟨ha, hx, ?_⟩
    rw [uncheckedSub_of_le hx (by omega), uncheckedSub_of_le (by omega) hword]
    rfl
  · rintro ⟨ha, hx, rfl⟩
    refine ⟨(), ha, (), hx, ?_⟩
    rw [uncheckedSub_of_le hx (by omega), uncheckedSub_of_le (by omega) hword]
    rfl

/-- The credited balance stays a word also when an account pays itself: the
debit comes first. -/
theorem _transfer_eq_ok (h : e.Books) :
    e._transfer a b x = .ok e' ↔
      a ≠ 0 ∧ b ≠ 0 ∧ x ≤ e._balances a ∧ e' = e.paid a b x := by
  have hword := h.word
  have hbal := h.balance_le a
  have hcredit (hx : x ≤ e._balances a) :
      update e._balances a (e._balances a - x) b + x < 2 ^ 256 := by
    by_cases hba : b = a
    · subst hba
      simp only [update_self]
      omega
    · have htwo := h.two_balances_le (a := a) (b := b) (Ne.symm hba)
      simp only [update_of_ne hba]
      omega
  simp only [_transfer, bind_eq_ok, require_eq_ok, pure_eq_ok, Except.ok.injEq]
  constructor
  · rintro ⟨_, ha, _, hb, _, hx, rfl⟩
    refine ⟨ha, hb, hx, ?_⟩
    rw [uncheckedSub_of_le hx (by omega), uncheckedAdd_of_lt (hcredit hx)]
    rfl
  · rintro ⟨ha, hb, hx, rfl⟩
    refine ⟨(), ha, (), hb, (), hx, ?_⟩
    rw [uncheckedSub_of_le hx (by omega), uncheckedAdd_of_lt (hcredit hx)]
    rfl

theorem _approve_eq_ok :
    e._approve a b x = .ok e' ↔ a ≠ 0 ∧ b ≠ 0 ∧ e' = e.approved a b x := by
  simp only [_approve, bind_eq_ok, require_eq_ok, pure_eq_ok, Except.ok.injEq]
  constructor
  · rintro ⟨_, ha, _, hb, rfl⟩
    exact ⟨ha, hb, rfl⟩
  · rintro ⟨ha, hb, rfl⟩
    exact ⟨(), ha, (), hb, rfl⟩

/-- An infinite allowance is not even checked for the zero address. -/
theorem _spendAllowance_eq_ok :
    e._spendAllowance a b x = .ok e' ↔
      (e._allowances a b = uintMax ∨
        (x ≤ e._allowances a b ∧ a ≠ 0 ∧ b ≠ 0)) ∧ e' = e.spent a b x := by
  unfold _spendAllowance spent allowance
  by_cases hmax : e._allowances a b = uintMax
  · rw [if_neg (not_not_intro hmax), if_pos hmax]
    simp only [pure_eq_ok, Except.ok.injEq, hmax, true_or, true_and]
    exact eq_comm
  · rw [if_pos hmax, if_neg hmax]
    simp only [bind_eq_ok, require_eq_ok, _approve_eq_ok, hmax, false_or]
    constructor
    · rintro ⟨_, hx, ha, hb, rfl⟩
      exact ⟨⟨hx, ha, hb⟩, rfl⟩
    · rintro ⟨⟨hx, ha, hb⟩, rfl⟩
      exact ⟨(), hx, ha, hb, rfl⟩

/-! ## The charged allowance -/

theorem spent_infinite (h : e._allowances a b = uintMax) (x : ℕ) :
    e.spent a b x = e := if_pos h

theorem spent_finite (h : e._allowances a b ≠ uintMax)
    (hx : x ≤ e._allowances a b) (hword : e._allowances a b < 2 ^ 256) :
    (e.spent a b x)._allowances a b = e._allowances a b - x := by
  unfold spent
  rw [if_neg h]
  show update e._allowances a (update (e._allowances a) b _) a b = _
  rw [update_self, update_self, uncheckedSub_of_le hx hword]

theorem spent_other {owner spender : Address} (h : ¬(owner = a ∧ spender = b)) :
    (e.spent a b x)._allowances owner spender = e._allowances owner spender := by
  unfold spent
  split
  · rfl
  · show update e._allowances a (update (e._allowances a) b _) owner spender = _
    by_cases ho : owner = a
    · subst ho
      rw [update_self, update_of_ne fun hp => h ⟨rfl, hp⟩]
    · rw [update_of_ne ho]

end ERC20

end CyberCash
