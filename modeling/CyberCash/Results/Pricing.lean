import CyberCash.Semantics.Migration
import CyberCash.Semantics.StandardToken

/-!
# The price of a migration

A migration that the CASH balance covers is settled at the listed ratio. One
that it does not cover is cut down by a second division, and then the CASH paid
can be worth more than the tokens taken, even with no token taken at all. With
no CASH left the preview itself divides by zero, for requests that round to
zero.
-/

namespace CyberCash

open Solidity Function TimedRun CappedExchange

variable {ω : Type} {chain : Chain ω} {this : Caller} {w : ω} {m : Migrator}
  {_token : Address} {balance : ℕ}

/-! ## The listed ratio -/

/-- **The ratio is met exactly when** the request stays below the balance, or the
price of the balance is a whole number of units of the token, or rounding that
price up costs the tokens offered no more than rounding their worth down drops. -/
theorem settled_at_ratio_iff {_amount spend received : ℕ}
    (hlisted : m.allowedTokens _token = true)
    (hratio : 0 < m.cashPerWholeTokens _token)
    (hdecimals : m.tokenDecimals _token ≤ 50)
    (hbalance : IERC20.balanceOf chain w m.cyberCash this.1 = .ok balance)
    (hstock : balance ≠ 0)
    (h : m.migrationResult chain this w _token _amount = .ok (spend, received)) :
    let r := m.cashPerWholeTokens _token
    let whole := 10 ^ m.tokenDecimals _token
    (received = spend * r / whole ∧ (spend = 0 → received = 0) ∧
        m.migrationResult chain this w _token spend = .ok (spend, received)) ↔
      _amount * r < balance * whole ∨ r ∣ balance * whole ∨
        _amount * (r - balance * whole % r) ≤
          (balance * whole / r + 1) * (_amount * r % whole) := by
  have hpos := Nat.pos_of_ne_zero hstock
  rw [Migrator.migrationResult_eq_ok hlisted hratio hdecimals hbalance] at h
  obtain ⟨hscaled, hcapped, rfl, rfl⟩ := h
  have hexact := (m.price _token hratio).payout_eq_worth_iff (x := _amount) hpos
  have hle := (m.price _token hratio).charge_le balance _amount
  dsimp only
  constructor
  · rintro ⟨hworth, -⟩
    exact hexact.mp hworth
  · intro hcondition
    have hworth := hexact.mpr hcondition
    obtain ⟨hcharge, hpayout⟩ := (m.price _token hratio).again hpos hworth
    refine ⟨hworth, ?_, ?_⟩
    · intro hnone
      rw [hworth, hnone, Price.worth_zero]
    · rw [Migrator.migrationResult_eq_ok hlisted hratio hdecimals hbalance]
      refine ⟨(Nat.mul_le_mul_right _ hle).trans_lt hscaled, ?_, hcharge.symm,
        hpayout.symm⟩
      -- the second offer is capped only if the first one was
      intro hfull
      have hpart := (hcapped (hfull.trans (Price.worth_mono _ hle))).1
      exact ⟨(Nat.mul_le_mul_right _ hle).trans_lt hpart,
        (hpos.trans_le hfull).ne'⟩

/-! ## A sample chain -/

/-- A token all of whose supply is held by one account. -/
def heldBy (account : Address) (x : Uint256) : {e : ERC20 // e.Books} :=
  ⟨{ _balances := update (fun _ => 0) account x.toNat
     _allowances := fun _ _ => uintMax
     _totalSupply := x.toNat
     logs := [] }, ⟨sum_only_key account x.toNat, x.isLt⟩⟩

def sampleMigrator : Caller := ⟨9, by decide⟩

def sampleOwner : Caller := ⟨11, by decide⟩

def sampleUser : Caller := ⟨12, by decide⟩

/-- CASH at address `20`, held by the Migrator, and another token at address
`30`, held by account `12`. -/
def sampleTokens (cash : Uint256) : Tokens :=
  fun a => if a = 20 then heldBy 9 cash else heldBy 12 1000000

/-- Account `12` holds all of every token. -/
def sampleSupply : Tokens := fun _ => heldBy 12 1000000000000000000

/-- The CASH address is set. -/
def sampleOpened : Migrator :=
  { Migrator.constructor sampleOwner.1 with cyberCash := 20 }

/-- A whole token of six decimals is worth one CASH of 18. -/
def sampleListed : Migrator := sampleOpened.listing 30 1000000000000000000 6

/-- The owner may set both on any chain. -/
theorem sampleListed_run {ω ε : Type} (chain : Chain ω) (env : ω → ε → ω → Prop)
    (w : ω) :
    ∃ steps, MigratorRun chain sampleMigrator env
      (w, Migrator.constructor sampleOwner.1) steps (w, sampleListed) := by
  have hset : MigratorNext chain sampleMigrator env
      (w, Migrator.constructor sampleOwner.1)
      (.call sampleOwner (.setCashAddress 20)) (w, sampleOpened) := ⟨by decide, rfl⟩
  have hlist : MigratorNext chain sampleMigrator env (w, sampleOpened)
      (.call sampleOwner (.addTokenMigration 30 1000000000000000000 6))
      (w, sampleListed) := ⟨by decide, rfl⟩
  exact ⟨_, .cons (Nat.le_refl 0) hset (.cons (Nat.le_refl 0) hlist .nil)⟩

theorem sampleListed_reachable (w : Tokens) :
    MigratorReachable tokenChain sampleMigrator w sampleListed := by
  obtain ⟨steps, hrun⟩ := sampleListed_run tokenChain
    (fun _ (_ : Unit) _ => True) w
  exact ⟨sampleOwner.1, w, steps, hrun⟩

/-! ## Migrations off the ratio -/

/-- With five units of CASH left, one unit of the token is worth more than all
of them; none is taken and all of them are paid. -/
theorem cash_for_no_tokens :
    MigratorReachable tokenChain sampleMigrator (sampleTokens 5) sampleListed ∧
    sampleListed.allowedTokens 30 = true ∧
    sampleListed.cashPerWholeTokens 30 = 1000000000000000000 ∧
    sampleListed.tokenDecimals 30 = 6 ∧
    IERC20.balanceOf tokenChain (sampleTokens 5) sampleListed.cyberCash
      sampleMigrator.1 = .ok 5 ∧
    sampleListed.migrationResult tokenChain sampleMigrator (sampleTokens 5) 30 1 =
      .ok (0, 5) ∧
    5 ≠ 0 * 1000000000000000000 / 10 ^ 6 := by
  refine ⟨sampleListed_reachable _, ?_, ?_, ?_, ?_, ?_, ?_⟩ <;> decide +kernel

/-- Five units of the token, for a stock worth as many, are settled at the
ratio. -/
theorem sample_settled_at_ratio :
    (5000000000000 : ℕ) = 5 * 1000000000000000000 / 10 ^ 6 ∧
    sampleListed.migrationResult tokenChain sampleMigrator
      (sampleTokens 5000000000000) 30 5 = .ok (5, 5000000000000) := by
  have hbalance : IERC20.balanceOf tokenChain (sampleTokens 5000000000000)
      sampleListed.cyberCash sampleMigrator.1 = .ok 5000000000000 := by decide +kernel
  have hresult : sampleListed.migrationResult tokenChain sampleMigrator
      (sampleTokens 5000000000000) 30 70 = .ok (5, 5000000000000) := by
    decide +kernel
  have hsettled := (settled_at_ratio_iff (by decide +kernel) (by decide +kernel)
    (by decide +kernel) hbalance (by decide) hresult).mpr (by decide +kernel)
  exact ⟨hsettled.1, hsettled.2.2⟩

/-! ## The preview -/

/-- **The preview returns exactly when** there is CASH left or the request does
not round to zero. -/
theorem preview_returns_iff {_amountIn : ℕ}
    (hm : MigratorReachable chain this w m)
    (hlisted : m.allowedTokens _token = true)
    (hbalance : IERC20.balanceOf chain w m.cyberCash this.1 = .ok balance)
    (hscaled : _amountIn * m.cashPerWholeTokens _token < 2 ^ 256)
    (hpart : _amountIn * balance < 2 ^ 256) :
    (∃ spend received,
        m.migrationResult chain this w _token _amountIn = .ok (spend, received) ∧
        spend ≤ _amountIn ∧ received ≤ balance) ↔
      balance ≠ 0 ∨
        10 ^ m.tokenDecimals _token ≤ _amountIn * m.cashPerWholeTokens _token := by
  have hratio := hm.checked.ratio _token hlisted
  have hdecimals := (hm.checked.decimals _token hlisted).2
  have hone := (m.price _token hratio).le_worth_iff (n := 1) (x := _amountIn)
  rw [Nat.one_mul, Nat.one_le_iff_ne_zero] at hone
  constructor
  · rintro ⟨spend, received, hresult, -⟩
    rw [Migrator.migrationResult_eq_ok hlisted hratio hdecimals hbalance] at hresult
    obtain ⟨-, hcapped, -⟩ := hresult
    rcases Nat.eq_zero_or_pos balance with rfl | hpos
    · exact .inr (hone.mp (hcapped (Nat.zero_le _)).2)
    · exact .inl hpos.ne'
  · intro hcondition
    refine ⟨(m.price _token hratio).charge balance _amountIn,
      (m.price _token hratio).payout balance _amountIn, ?_,
      Price.charge_le _ _ _, Price.payout_le_stock _ _ _⟩
    rw [Migrator.migrationResult_eq_ok hlisted hratio hdecimals hbalance]
    refine ⟨hscaled, fun hcapped => ⟨hpart, ?_⟩, rfl, rfl⟩
    rcases hcondition with hstock | hrequest
    · exact ((Nat.pos_of_ne_zero hstock).trans_le hcapped).ne'
    · exact hone.mpr hrequest

/-- Without CASH, the preview of nothing panics. -/
theorem empty_preview_panics :
    MigratorReachable tokenChain sampleMigrator (sampleTokens 0) sampleListed ∧
    sampleListed.cyberCash ≠ 0 ∧ sampleListed.allowedTokens 30 = true ∧
    IERC20.balanceOf tokenChain (sampleTokens 0) sampleListed.cyberCash
      sampleMigrator.1 = .ok 0 ∧
    0 * sampleListed.cashPerWholeTokens 30 < 2 ^ 256 ∧ 0 * 0 < 2 ^ 256 ∧
    sampleListed.migrationResult tokenChain sampleMigrator (sampleTokens 0) 30 0 =
      .error (.panic divisionPanic) := by
  refine ⟨sampleListed_reachable _, ?_, ?_, ?_, ?_, ?_, ?_⟩ <;> decide +kernel

/-- With five units of CASH the preview of a thousand tokens returns. -/
theorem sample_preview_returns :
    ∃ spend received,
      sampleListed.migrationResult tokenChain sampleMigrator (sampleTokens 5) 30
        1000 = .ok (spend, received) ∧ spend ≤ 1000 ∧ received ≤ 5 :=
  (preview_returns_iff (sampleListed_reachable _) (by decide +kernel)
    (by decide +kernel) (by decide +kernel) (by decide)).mpr (.inl (by decide))

end CyberCash
