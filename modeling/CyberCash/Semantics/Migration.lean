import CyberCash.Contract.Migrator
import CyberCash.Library.CappedExchange

/-!
# What the Migrator's calls do

A listed token has a price, and `migrationResult` is the exchange at that price
out of the CASH balance. Every call has one of three effects; listings and the
CASH address are written once.
-/

namespace CyberCash

open Solidity Function TimedRun CappedExchange

/-! ## Listings -/

/-- What `addTokenMigration` checks holds of every listed token. -/
structure Migrator.Checked (m : Migrator) : Prop where
  ratio : ∀ token, m.allowedTokens token = true →
    0 < m.cashPerWholeTokens token
  decimals : ∀ token, m.allowedTokens token = true →
    1 ≤ m.tokenDecimals token ∧ m.tokenDecimals token ≤ 50

/-- What is set in `m` is the same in `m'`. -/
structure Migrator.Fixed (m m' : Migrator) : Prop where
  cyberCash : m.cyberCash ≠ 0 → m'.cyberCash = m.cyberCash
  listed : ∀ token, m.allowedTokens token = true →
    m'.allowedTokens token = true ∧
      m'.cashPerWholeTokens token = m.cashPerWholeTokens token ∧
      m'.tokenDecimals token = m.tokenDecimals token

namespace Migrator

variable {ω : Type} {chain : Chain ω} {this sender : Caller} {m m' : Migrator}
  {w w' : ω} {_token : Address} {balance x spend received r d : ℕ}

theorem Fixed.refl (m : Migrator) : m.Fixed m :=
  ⟨fun _ => rfl, fun _ h => ⟨h, rfl, rfl⟩⟩

theorem Fixed.trans {m'' : Migrator} (h : m.Fixed m') (h' : m'.Fixed m'') :
    m.Fixed m'' where
  cyberCash hset := by
    have hsame := h.cyberCash hset
    rw [← hsame] at hset ⊢
    exact h'.cyberCash hset
  listed token hlisted := by
    obtain ⟨hlisted₁, hratio, hdecimals⟩ := h.listed token hlisted
    obtain ⟨hlisted₂, hratio', hdecimals'⟩ := h'.listed token hlisted₁
    exact ⟨hlisted₂, hratio'.trans hratio, hdecimals'.trans hdecimals⟩

/-- The price of a token whose ratio is set. -/
def price (m : Migrator) (_token : Address)
    (hratio : 0 < m.cashPerWholeTokens _token) : Price where
  rate := m.cashPerWholeTokens _token
  scale := 10 ^ m.tokenDecimals _token
  rate_pos := hratio
  scale_pos := Nat.pow_pos (by decide)

/-! ## The preview -/

theorem ten_pow_lt (h : d ≤ 50) : 10 ^ d < 2 ^ 256 :=
  (Nat.pow_le_pow_right (by decide) h).trans_lt (by decide)

/-- The second conditional expression of the preview. -/
theorem spendAmount_eq_ok {requested y : ℕ} :
    (if requested < balance then .ok x
      else do
        let part ← checkedMul x balance
        checkedDiv part requested : Result ℕ) = .ok y ↔
      (balance ≤ requested → x * balance < 2 ^ 256 ∧ requested ≠ 0) ∧
        y = if requested < balance then x else x * balance / requested := by
  rcases Nat.lt_or_ge requested balance with hlt | hge
  · simp only [hlt, hlt.not_ge, if_true, Except.ok.injEq, false_implies, true_and]
    exact eq_comm
  · simp only [hge, hge.not_gt, if_false, bind_eq_ok, checkedMul_eq_ok,
      checkedDiv_eq_ok, true_implies]
    constructor
    · rintro ⟨_, ⟨hpart, rfl⟩, hrequested, rfl⟩
      exact ⟨⟨hpart, hrequested⟩, rfl⟩
    · rintro ⟨⟨hpart, hrequested⟩, rfl⟩
      exact ⟨_, ⟨hpart, rfl⟩, hrequested, rfl⟩

/-- **The preview is the capped exchange.** It returns unless a product leaves
the words, or the worth of a capped offer is zero. -/
theorem migrationResult_eq_ok (hlisted : m.allowedTokens _token = true)
    (hratio : 0 < m.cashPerWholeTokens _token) (hdecimals : m.tokenDecimals _token ≤ 50)
    (hbalance : IERC20.balanceOf chain w m.cyberCash this.1 = .ok balance) :
    m.migrationResult chain this w _token x = .ok (spend, received) ↔
      x * m.cashPerWholeTokens _token < 2 ^ 256 ∧
      (balance ≤ (m.price _token hratio).worth x →
        x * balance < 2 ^ 256 ∧ (m.price _token hratio).worth x ≠ 0) ∧
      spend = (m.price _token hratio).charge balance x ∧
      received = (m.price _token hratio).payout balance x := by
  have hscale : 10 ^ m.tokenDecimals _token ≠ 0 := (m.price _token hratio).scale_pos.ne'
  unfold migrationResult
  simp only [hlisted, if_true, hbalance, ok_bind, bind_eq_ok, checkedPow_eq_ok,
    checkedMul_eq_ok, checkedDiv_eq_ok, spendAmount_eq_ok, pure_eq_ok,
    Except.ok.injEq, Prod.mk.injEq]
  constructor
  · rintro ⟨_, ⟨-, rfl⟩, _, ⟨hscaled, rfl⟩, _, ⟨-, rfl⟩, _, ⟨hcapped, rfl⟩, rfl, rfl⟩
    exact ⟨hscaled, hcapped, rfl, rfl⟩
  · rintro ⟨hscaled, hcapped, rfl, rfl⟩
    exact ⟨_, ⟨ten_pow_lt hdecimals, rfl⟩, _, ⟨hscaled, rfl⟩, _, ⟨hscale, rfl⟩, _,
      ⟨hcapped, rfl⟩, rfl, rfl⟩

/-- A preview asks for no more tokens than offered and no more CASH than there
is. -/
theorem Checked.migrationResult_le (hm : m.Checked)
    (hlisted : m.allowedTokens _token = true)
    (hbalance : IERC20.balanceOf chain w m.cyberCash this.1 = .ok balance)
    (h : m.migrationResult chain this w _token x = .ok (spend, received)) :
    spend ≤ x ∧ received ≤ balance := by
  obtain ⟨-, -, rfl, rfl⟩ := (migrationResult_eq_ok hlisted (hm.ratio _token hlisted)
    (hm.decimals _token hlisted).2 hbalance).mp h
  exact ⟨Price.charge_le _ _ _, Price.payout_le_stock _ _ _⟩

/-! ## The migration -/

/-- A migration that goes through: what it reads, takes and pays. -/
structure Settles (chain : Chain ω) (this : Caller) (m : Migrator) (w : ω)
    (sender : Caller) (_token : Address) (_amount : ℕ) (spend received : ℕ)
    (w' : ω) : Prop where
  listed : m.allowedTokens _token = true
  amount : _amount ≠ 0
  balance : ∃ balance, balance ≠ 0 ∧
    IERC20.balanceOf chain w m.cyberCash this.1 = .ok balance
  preview : m.migrationResult chain this w _token _amount = .ok (spend, received)
  flow : ∃ w₁ data flag,
    chain.transferFrom w _token this sender.1 this.1 spend = .returned w₁ data ∧
    SafeERC20.Accepted chain w₁ _token data ∧
    IERC20.transfer chain w₁ m.cyberCash this sender.1 received = .ok (w', flag)

def settled (m : Migrator) (sender : Caller) (_token : Address)
    (spend received : ℕ) : Migrator :=
  { m with logs := m.logs ++ [.tokenMigrated sender.1 _token spend received] }

/-- A settlement writes only the log. -/
theorem Fixed.settled : m.Fixed (m.settled sender _token spend received) :=
  ⟨fun _ => rfl, (Fixed.refl m).listed⟩

theorem migrate_eq_ok :
    m.migrate chain this w sender _token x = .ok (w', m') ↔
      ∃ spend received, m.Settles chain this w sender _token x spend received w' ∧
        m' = m.settled sender _token spend received := by
  simp only [migrate, bind_eq_ok, Prod.exists, require_eq_ok, pure_eq_ok,
    Except.ok.injEq, Prod.mk.injEq, SafeERC20.safeTransferFrom_eq_ok]
  constructor
  · rintro ⟨_, hlisted, _, hamount, balance, hbalance, _, hpos, spend, received,
      hpreview, w₁, ⟨data, htaken, haccepted⟩, _, flag, hpaid, rfl, rfl⟩
    exact ⟨spend, received, ⟨hlisted, hamount, ⟨balance, hpos, hbalance⟩, hpreview,
      w₁, data, flag, htaken, haccepted, hpaid⟩, rfl⟩
  · rintro ⟨spend, received, ⟨hlisted, hamount, ⟨balance, hpos, hbalance⟩, hpreview,
      w₁, data, flag, htaken, haccepted, hpaid⟩, rfl⟩
    exact ⟨(), hlisted, (), hamount, balance, hbalance, (), hpos, spend, received,
      hpreview, w₁, ⟨data, htaken, haccepted⟩, w', flag, hpaid, rfl, rfl⟩

def listing (m : Migrator) (_token : Address) (r d : ℕ) : Migrator :=
  { m with
    allowedTokens := update m.allowedTokens _token true
    cashPerWholeTokens := update m.cashPerWholeTokens _token r
    tokenDecimals := update m.tokenDecimals _token d
    logs := m.logs ++ [.tokenMigrationAdded _token r d] }

theorem setCashAddress_eq_ok {_cash : Address} :
    m.setCashAddress sender _cash = .ok m' ↔
      sender.1 = m.owner ∧ _cash ≠ 0 ∧ m.cyberCash = 0 ∧
        m' = { m with cyberCash := _cash } := by
  simp only [setCashAddress, bind_eq_ok, require_eq_ok, pure_eq_ok,
    Except.ok.injEq, exists_const, eq_comm (b := m')]

theorem addTokenMigration_eq_ok :
    m.addTokenMigration sender _token r d = .ok m' ↔
      sender.1 = m.owner ∧ _token ≠ 0 ∧ r ≠ 0 ∧ m.allowedTokens _token = false ∧
        (d ≠ 0 ∧ d ≤ 50) ∧ m' = m.listing _token r d := by
  simp only [addTokenMigration, bind_eq_ok, require_eq_ok, pure_eq_ok,
    Except.ok.injEq, exists_const, eq_comm (b := m')]
  rfl

end Migrator

/-! ## The effect of a call -/

/-- What a successful call does to the chain and the storage. -/
inductive MigratorEffect {ω : Type} (chain : Chain ω) (this sender : Caller)
    (w : ω) (m : Migrator) : MigratorCall → ω × Migrator → Prop where
  | setCash {_cash : Address} : _cash ≠ 0 → m.cyberCash = 0 →
      MigratorEffect chain this sender w m (.setCashAddress _cash)
        (w, { m with cyberCash := _cash })
  | list {_token : Address} {r d : Uint256} : r.toNat ≠ 0 →
      m.allowedTokens _token = false → d.toNat ≠ 0 → d.toNat ≤ 50 →
      MigratorEffect chain this sender w m (.addTokenMigration _token r d)
        (w, m.listing _token r.toNat d.toNat)
  | settle {_token : Address} {_amount : Uint256} {spend received : ℕ} {w' : ω} :
      m.Settles chain this w sender _token _amount.toNat spend received w' →
      MigratorEffect chain this sender w m (.migrate _token _amount)
        (w', m.settled sender _token spend received)

variable {ω ε : Type} {chain : Chain ω} {this sender : Caller}
  {env : ω → ε → ω → Prop} {s s' : ω × Migrator}

theorem MigratorEffect.of_step {call : MigratorCall}
    (h : migratorStep chain this sender call s = .ok s') :
    MigratorEffect chain this sender s.1 s.2 call s' := by
  rcases s with ⟨w, m⟩
  rcases s' with ⟨w', m'⟩
  cases call with
  | setCashAddress _cash =>
      obtain ⟨_, hm, heq⟩ := bind_eq_ok.mp h
      obtain ⟨-, hcash, hunset, rfl⟩ := Migrator.setCashAddress_eq_ok.mp hm
      cases heq
      exact .setCash hcash hunset
  | addTokenMigration _token r d =>
      obtain ⟨_, hm, heq⟩ := bind_eq_ok.mp h
      obtain ⟨-, -, hr, hnew, ⟨hd, hd'⟩, rfl⟩ :=
        Migrator.addTokenMigration_eq_ok.mp hm
      cases heq
      exact .list hr hnew hd hd'
  | migrate _token _amount =>
      obtain ⟨spend, received, hsettles, rfl⟩ := Migrator.migrate_eq_ok.mp h
      exact .settle hsettles

/-! ## What every run keeps -/

theorem Migrator.constructor_checked (_owner : Address) :
    (Migrator.constructor _owner).Checked :=
  ⟨fun _ h => Bool.noConfusion h, fun _ h => Bool.noConfusion h⟩

section Listing

variable {m : Migrator} {token _token : Address} {r d : ℕ}

theorem Migrator.listing_other (htoken : token ≠ _token) :
    (m.listing _token r d).allowedTokens token = m.allowedTokens token ∧
      (m.listing _token r d).cashPerWholeTokens token = m.cashPerWholeTokens token ∧
      (m.listing _token r d).tokenDecimals token = m.tokenDecimals token :=
  ⟨update_of_ne htoken _ _, update_of_ne htoken _ _, update_of_ne htoken _ _⟩

theorem Migrator.listing_self :
    (m.listing _token r d).cashPerWholeTokens _token = r ∧
      (m.listing _token r d).tokenDecimals _token = d :=
  ⟨update_self _ _ _, update_self _ _ _⟩

/-- A new listing has passed the checks, the others are not written. -/
theorem Migrator.Checked.listing (h : m.Checked) (hr : r ≠ 0) (hd : d ≠ 0)
    (hd' : d ≤ 50) : (m.listing _token r d).Checked := by
  constructor
  · intro token hlisted
    rcases eq_or_ne token _token with rfl | htoken
    · rw [listing_self.1]
      exact Nat.pos_of_ne_zero hr
    · rw [(listing_other htoken).1] at hlisted
      rw [(listing_other htoken).2.1]
      exact h.ratio token hlisted
  · intro token hlisted
    rcases eq_or_ne token _token with rfl | htoken
    · rw [listing_self.2]
      exact ⟨Nat.pos_of_ne_zero hd, hd'⟩
    · rw [(listing_other htoken).1] at hlisted
      rw [(listing_other htoken).2.2]
      exact h.decimals token hlisted

theorem Migrator.Fixed.listing (hnew : m.allowedTokens _token = false) :
    m.Fixed (m.listing _token r d) := by
  refine ⟨fun _ => rfl, ?_⟩
  intro token hlisted
  have htoken : token ≠ _token := by
    rintro rfl
    rw [hnew] at hlisted
    exact Bool.noConfusion hlisted
  obtain ⟨hsame, hratio, hdecimals⟩ := listing_other (m := m) (r := r) (d := d) htoken
  exact ⟨hsame.trans hlisted, hratio, hdecimals⟩

end Listing

theorem MigratorEffect.checked {call : MigratorCall}
    (h : MigratorEffect chain this sender s.1 s.2 call s') (hm : s.2.Checked) :
    s'.2.Checked := by
  cases h with
  | setCash => exact ⟨hm.ratio, hm.decimals⟩
  | list hr _ hd hd' => exact hm.listing hr hd hd'
  | settle => exact ⟨hm.ratio, hm.decimals⟩

theorem MigratorEffect.fixed {call : MigratorCall}
    (h : MigratorEffect chain this sender s.1 s.2 call s') : s.2.Fixed s'.2 := by
  cases h with
  | setCash _ hunset =>
      exact ⟨fun hset => absurd hunset hset, (Migrator.Fixed.refl _).listed⟩
  | list _ hnew => exact .listing hnew
  | settle => exact .settled

theorem MigratorNext.checked {a : Action ε} (h : MigratorNext chain this env s a s')
    (hm : s.2.Checked) : s'.2.Checked := by
  cases a with
  | call sender call => exact (MigratorEffect.of_step h.2).checked hm
  | outside e =>
      rw [h.2]
      exact hm

theorem MigratorNext.fixed {a : Action ε} (h : MigratorNext chain this env s a s') :
    s.2.Fixed s'.2 := by
  cases a with
  | call sender call => exact (MigratorEffect.of_step h.2).fixed
  | outside e =>
      rw [h.2]
      exact .refl _

/-- **Every listed token has passed the checks**, whatever the environment. -/
theorem MigratorRun.checked {steps : List (MigratorStep ω ε)}
    (h : MigratorRun chain this env s steps s') (hm : s.2.Checked) :
    s'.2.Checked :=
  h.invariant (fun hm _ hnext => hnext.checked hm) hm

/-- **Listings are frozen.** -/
theorem MigratorRun.fixed {steps : List (MigratorStep ω ε)}
    (h : MigratorRun chain this env s steps s') : s.2.Fixed s'.2 :=
  h.invariant (I := fun _ r => s.2.Fixed r.2)
    (fun hfixed _ hnext => hfixed.trans hnext.fixed) (.refl _)

theorem MigratorReachable.checked {w : ω} {m : Migrator}
    (h : MigratorReachable chain this w m) : m.Checked := by
  obtain ⟨_owner, w₀, steps, hrun⟩ := h
  exact MigratorRun.checked hrun (Migrator.constructor_checked _owner)

end CyberCash
