import CyberCash.Results.MigratorAccounting

/-!
# Offers to the Migrator

Migrations of any tokens by any callers, one after the other. An offer that is
rejected leaves the CASH of the Migrator alone, one that goes through leaves what
the exchange at the listed price leaves of it. So a row of offers takes what they
are worth together, or all there is.
-/

namespace CyberCash

open Solidity CappedExchange

/-- A migration somebody asks for. -/
structure Offer where
  sender : Caller
  token : Address
  amount : Uint256

/-- What the offer is worth at the ratio listed for its token. -/
def Migrator.worth (m : Migrator) (o : Offer) : ℕ :=
  o.amount.toNat * m.cashPerWholeTokens o.token / 10 ^ m.tokenDecimals o.token

variable {ω : Type} {chain : Chain ω} {this sender : Caller} {w w' : ω}
  {m m' : Migrator} {s s₁ s' : ω × Migrator} {_token : Address} {balance rest : ℕ}
  {o : Offer} {offers : List Offer}

/-- A transaction: a call that reverts leaves no trace. -/
def migratorTx (chain : Chain ω) (this sender : Caller) (call : MigratorCall)
    (s : ω × Migrator) : ω × Migrator :=
  match migratorStep chain this sender call s with
  | .ok s' => s'
  | .error _ => s

/-- If a migration comes to its transfers, they succeed, and leave the Migrator
with exactly as much less CASH as it pays. -/
def GoesThrough (chain : Chain ω) (this sender : Caller) (_token : Address)
    (_amount : ℕ) (s : ω × Migrator) : Prop :=
  ∀ balance spend received,
    IERC20.balanceOf chain s.1 s.2.cyberCash this.1 = .ok balance → balance ≠ 0 →
    s.2.migrationResult chain this s.1 _token _amount = .ok (spend, received) →
    ∃ w₁ w₂ flag rest,
      SafeERC20.safeTransferFrom chain s.1 _token this sender.1 this.1 spend =
        .ok w₁ ∧
      IERC20.transfer chain w₁ s.2.cyberCash this sender.1 received =
        .ok (w₂, flag) ∧
      IERC20.balanceOf chain w₂ s.2.cyberCash this.1 = .ok rest ∧
      rest + received = balance

/-- What may happen between two migrations: no CASH arrives, and none is paid. -/
structure Between (chain : Chain ω) (this : Caller) (s s' : ω × Migrator) :
    Prop where
  cash : IERC20.balanceOf chain s'.1 s.2.cyberCash this.1 =
    IERC20.balanceOf chain s.1 s.2.cyberCash this.1
  fixed : s.2.Fixed s'.2
  paid : s'.2.cashPaid = s.2.cashPaid

/-- Offers taken one after the other. -/
inductive Served (chain : Chain ω) (this : Caller) :
    ω × Migrator → List Offer → ω × Migrator → Prop where
  | done {s : ω × Migrator} : Served chain this s [] s
  | between {s s₁ s' : ω × Migrator} {offers : List Offer} :
      Between chain this s s₁ → Served chain this s₁ offers s' →
      Served chain this s offers s'
  | migrate {s s' : ω × Migrator} {o : Offer} {offers : List Offer} :
      GoesThrough chain this o.sender o.token o.amount.toNat s →
      Served chain this (migratorTx chain this o.sender (.migrate o.token o.amount) s)
        offers s' →
      Served chain this s (o :: offers) s'

/-! ## Transactions -/

theorem migratorTx_of_ok {call : MigratorCall}
    (h : migratorStep chain this sender call s = .ok s') :
    migratorTx chain this sender call s = s' := by
  unfold migratorTx
  rw [h]

theorem migratorTx_of_not_ok {call : MigratorCall}
    (h : ∀ s', migratorStep chain this sender call s ≠ .ok s') :
    migratorTx chain this sender call s = s := by
  unfold migratorTx
  split
  · exact absurd ‹_› (h _)
  · rfl

/-- Whether it succeeds or not, a migration writes only the log. -/
theorem migratorTx_migrate (s : ω × Migrator) (_amount : Uint256) :
    ∃ logs, (migratorTx chain this sender (.migrate _token _amount) s).2 =
      { s.2 with logs := logs } := by
  cases h : migratorStep chain this sender (.migrate _token _amount) s with
  | error reason =>
      have hrejected : ∀ s', migratorStep chain this sender
          (.migrate _token _amount) s ≠ .ok s' := by
        intro s' hok
        rw [h] at hok
        cases hok
      rw [migratorTx_of_not_ok hrejected]
      exact ⟨s.2.logs, rfl⟩
  | ok s' =>
      rw [migratorTx_of_ok h]
      obtain ⟨spend, received, -, hm⟩ := Migrator.migrate_eq_ok.mp h
      exact ⟨_, hm⟩

/-- Without CASH, or of nothing, a migration is rejected. -/
theorem migratorTx_rejected {_amount : Uint256}
    (hbalance : IERC20.balanceOf chain s.1 s.2.cyberCash this.1 = .ok balance)
    (hnone : balance = 0 ∨ _amount.toNat = 0) :
    migratorTx chain this sender (.migrate _token _amount) s = s := by
  rcases s with ⟨w, m⟩
  apply migratorTx_of_not_ok
  rintro ⟨w', m'⟩ hok
  obtain ⟨spend, received, hsettles, -⟩ := Migrator.migrate_eq_ok.mp hok
  rcases hnone with hempty | hzero
  · obtain ⟨b, hb, hread⟩ := hsettles.balance
    rw [hbalance, hempty] at hread
    exact hb (Except.ok.inj hread).symm
  · exact hsettles.amount hzero

/-- With tokens as they are meant to be, a migration that succeeds has gone
through. -/
theorem GoesThrough.of_ok {cash : Address} {_amount : Uint256}
    (h : migratorStep chain this sender (.migrate _token _amount) (w, m) =
      .ok (w', m'))
    (hsender : sender ≠ this) (hcash : PaysExactly chain cash this)
    (hm : Supported chain this cash m) (hcode : chain.isContract w' cash = true) :
    GoesThrough chain this sender _token _amount.toNat (w, m) := by
  obtain ⟨spend, received, hsettles, -⟩ := Migrator.migrate_eq_ok.mp h
  obtain ⟨rfl, ⟨b, b', hb, hb', hfall⟩, -⟩ := hsettles.flows hsender hcash hm
  intro balance spend' received' hread _ hpreview
  rw [hsettles.preview] at hpreview
  obtain ⟨rfl, rfl⟩ := Prod.mk.inj (Except.ok.inj hpreview)
  obtain ⟨-, hshown⟩ := IERC20.balanceOf_eq_ok.mp hread
  obtain rfl := Except.ok.inj (hb.symm.trans hshown)
  obtain ⟨w₁, data, flag, htaken, haccepted, hpaid⟩ := hsettles.flow
  refine ⟨w₁, w', flag, b', ?_, hpaid, ?_, hfall⟩
  · exact SafeERC20.safeTransferFrom_eq_ok.mpr ⟨data, htaken, haccepted⟩
  · exact IERC20.balanceOf_eq_ok.mpr ⟨hcode, hb'⟩

/-- In particular on a chain of plain tokens, among which CASH is not listed. -/
theorem GoesThrough.of_tokens {s : Tokens × Migrator} {_amount : Uint256}
    (hm : ∃ logs, s.2 = { m with logs := logs }) (hset : m.cyberCash ≠ 0)
    (hunlisted : m.allowedTokens m.cyberCash = false) (hsender : sender ≠ this)
    (hok : (migratorStep tokenChain this sender (.migrate _token _amount) s).isOk =
      true) :
    GoesThrough tokenChain this sender _token _amount.toNat s := by
  obtain ⟨logs, hm⟩ := hm
  obtain ⟨⟨w', m'⟩, h⟩ := exists_of_isOk hok
  refine GoesThrough.of_ok h hsender (tokenChain_pays m.cyberCash this) ?_
    (decide_eq_true hset)
  rw [hm]
  refine ⟨.inr rfl, fun token hlisted => ⟨?_, tokenChain_standard token⟩⟩
  rintro rfl
  exact Bool.noConfusion (hunlisted.symm.trans hlisted)

/-! ## Prices -/

/-- A listed token and its price. -/
structure Migrator.Prices (m : Migrator) (_token : Address) (p : Price) :
    Prop where
  listed : m.allowedTokens _token = true
  rate : m.cashPerWholeTokens _token = p.rate
  scale : 10 ^ m.tokenDecimals _token = p.scale
  decimals : m.tokenDecimals _token ≤ 50

theorem Migrator.Checked.prices (hm : m.Checked)
    (hlisted : m.allowedTokens _token = true) :
    m.Prices _token (m.price _token (hm.ratio _token hlisted)) :=
  ⟨hlisted, rfl, rfl, (hm.decimals _token hlisted).2⟩

variable {p : Price}

/-- A price that is listed stays. -/
theorem Migrator.Prices.fixed (h : m.Prices _token p) (hfixed : m.Fixed m') :
    m'.Prices _token p := by
  obtain ⟨hlisted, hrate, hdecimals⟩ := hfixed.listed _token h.listed
  refine ⟨hlisted, hrate.trans h.rate, ?_, ?_⟩
  · rw [hdecimals]
    exact h.scale
  · rw [hdecimals]
    exact h.decimals

theorem Migrator.Prices.preview {x : ℕ} (h : m.Prices _token p)
    (hbalance : IERC20.balanceOf chain w m.cyberCash this.1 = .ok balance)
    (hstock : 0 < balance) (hscaled : x * p.rate < 2 ^ 256)
    (hpart : x * balance < 2 ^ 256) :
    m.migrationResult chain this w _token x =
      .ok (p.charge balance x, p.payout balance x) := by
  have hratio : 0 < m.cashPerWholeTokens _token := h.rate ▸ p.rate_pos
  obtain rfl : m.price _token hratio = p := by
    unfold Migrator.price
    simp only [h.rate, h.scale]
  apply (migrationResult_eq_ok h.listed hratio h.decimals hbalance).mpr
  refine ⟨hscaled, ?_, rfl, rfl⟩
  intro hcapped
  exact ⟨hpart, (hstock.trans_le hcapped).ne'⟩

theorem Migrator.Prices.worth (h : m.Prices o.token p) :
    m.worth o = p.worth o.amount.toNat := by
  unfold Migrator.worth Price.worth
  rw [h.rate, h.scale]

/-- The offer is for a token with a price, and small enough for the arithmetic. -/
structure Offer.Fits (o : Offer) (m : Migrator) (balance : ℕ) : Prop where
  priced : ∃ p, m.Prices o.token p
  scaled : o.amount.toNat * m.cashPerWholeTokens o.token < 2 ^ 256
  part : o.amount.toNat * balance < 2 ^ 256

/-- Prices stay, and a smaller stock is no obstacle. -/
theorem Offer.Fits.later (h : o.Fits m balance) (hfixed : m.Fixed m')
    (hle : rest ≤ balance) : o.Fits m' rest ∧ m'.worth o = m.worth o := by
  obtain ⟨p, hp⟩ := h.priced
  have hp' := hp.fixed hfixed
  constructor
  · refine ⟨⟨p, hp'⟩, ?_, (Nat.mul_le_mul_left _ hle).trans_lt h.part⟩
    rw [hp'.rate, ← hp.rate]
    exact h.scaled
  · rw [hp'.worth, hp.worth]

/-! ## What is left -/

/-- What is left of a balance of CASH after migrations that pay the rest. -/
structure Leaves (chain : Chain ω) (this : Caller) (s : ω × Migrator)
    (balance rest : ℕ) (s' : ω × Migrator) : Prop where
  cash : IERC20.balanceOf chain s'.1 s.2.cyberCash this.1 = .ok rest
  fixed : s.2.Fixed s'.2
  paid : s'.2.cashPaid + rest = s.2.cashPaid + balance

theorem Leaves.refl
    (hbalance : IERC20.balanceOf chain s.1 s.2.cyberCash this.1 = .ok balance) :
    Leaves chain this s balance balance s := ⟨hbalance, .refl _, rfl⟩

theorem Leaves.read (h : Leaves chain this s balance rest s') :
    IERC20.balanceOf chain s'.1 s'.2.cyberCash this.1 = .ok rest := by
  rw [h.fixed.cyberCash (IERC20.token_ne_zero h.cash)]
  exact h.cash

theorem Leaves.trans {rest' : ℕ} (h : Leaves chain this s balance rest s₁)
    (h' : Leaves chain this s₁ rest rest' s') :
    Leaves chain this s balance rest' s' := by
  refine ⟨?_, h.fixed.trans h'.fixed, h'.paid.trans h.paid⟩
  rw [← h.fixed.cyberCash (IERC20.token_ne_zero h.cash)]
  exact h'.cash

theorem Between.leaves (h : Between chain this s s₁)
    (hbalance : IERC20.balanceOf chain s.1 s.2.cyberCash this.1 = .ok balance) :
    Leaves chain this s balance balance s₁ :=
  ⟨h.cash.trans hbalance, h.fixed, congrArg (· + balance) h.paid⟩

/-- **Step lemma.** An offer takes what it is worth from the stock, if it is
taken at all. -/
theorem Offer.Fits.leaves (h : o.Fits s.2 balance)
    (hthrough : GoesThrough chain this o.sender o.token o.amount.toNat s)
    (hbalance : IERC20.balanceOf chain s.1 s.2.cyberCash this.1 = .ok balance) :
    Leaves chain this s balance (balance - s.2.worth o)
      (migratorTx chain this o.sender (.migrate o.token o.amount) s) := by
  obtain ⟨p, hp⟩ := h.priced
  rw [hp.worth]
  by_cases hnone : balance = 0 ∨ o.amount.toNat = 0
  · have hsame : balance - p.worth o.amount.toNat = balance := by
      rcases hnone with hempty | hzero
      · rw [hempty, Nat.zero_sub]
      · rw [hzero, Price.worth_zero, Nat.sub_zero]
    rw [migratorTx_rejected hbalance hnone, hsame]
    exact .refl hbalance
  · rcases s with ⟨w, m⟩
    obtain ⟨hstock, hamount⟩ := not_or.mp hnone
    have hpreview := hp.preview hbalance (Nat.pos_of_ne_zero hstock)
      (hp.rate ▸ h.scaled) h.part
    obtain ⟨w₁, w₂, flag, rest, htaken, hpaid, hrest, hfall⟩ :=
      hthrough balance _ _ hbalance hstock hpreview
    obtain ⟨data, htaken, haccepted⟩ := SafeERC20.safeTransferFrom_eq_ok.mp htaken
    have hsettles : m.Settles chain this w o.sender o.token o.amount.toNat _ _ w₂ :=
      ⟨hp.listed, hamount, ⟨balance, hstock, hbalance⟩, hpreview, w₁, data, flag,
        htaken, haccepted, hpaid⟩
    have hok : migratorStep chain this o.sender (.migrate o.token o.amount) (w, m) =
        .ok (w₂, m.settled o.sender o.token _ _) :=
      Migrator.migrate_eq_ok.mpr ⟨_, _, hsettles, rfl⟩
    rw [migratorTx_of_ok hok, ← p.sub_payout, Nat.sub_eq_of_eq_add hfall.symm]
    refine ⟨hrest, .settled, ?_⟩
    rw [Migrator.cashPaid_settled, Nat.add_assoc, Nat.add_comm _ rest, hfall]

/-- Offers that fit still do, and are worth the same, when others came first. -/
theorem fits_later (hfits : ∀ o ∈ offers, o.Fits s.2 balance)
    (hleaves : Leaves chain this s balance rest s₁) (hle : rest ≤ balance) :
    (∀ o ∈ offers, o.Fits s₁.2 rest) ∧
      offers.map s₁.2.worth = offers.map s.2.worth := by
  constructor
  · intro o ho
    exact ((hfits o ho).later hleaves.fixed hle).1
  · apply List.map_congr_left
    intro o ho
    exact ((hfits o ho).later hleaves.fixed hle).2

/-- **Run lemma.** The offers take what they are worth together. -/
theorem Served.leaves (h : Served chain this s offers s')
    (hbalance : IERC20.balanceOf chain s.1 s.2.cyberCash this.1 = .ok balance)
    (hfits : ∀ o ∈ offers, o.Fits s.2 balance) :
    Leaves chain this s balance (balance - (offers.map s.2.worth).sum) s' := by
  induction h generalizing balance with
  | done => exact .refl hbalance
  | between hbetween _ ih =>
      have hfirst := hbetween.leaves hbalance
      obtain ⟨hfits₁, hworth⟩ := fits_later hfits hfirst (Nat.le_refl _)
      have hrest := ih hfirst.read hfits₁
      rw [hworth] at hrest
      exact hfirst.trans hrest
  | @migrate s s' o offers hthrough _ ih =>
      have hfirst := (hfits o List.mem_cons_self).leaves hthrough hbalance
      have hothers : ∀ o' ∈ offers, o'.Fits s.2 balance := fun o' ho' =>
        hfits o' (List.mem_cons_of_mem _ ho')
      obtain ⟨hfits₁, hworth⟩ := fits_later hothers hfirst (Nat.sub_le _ _)
      have hrest := ih hfirst.read hfits₁
      rw [hworth, Nat.sub_sub] at hrest
      rw [List.map_cons, List.sum_cons]
      exact hfirst.trans hrest

/-- What is not left has been paid. -/
theorem Leaves.exists_paid (h : Leaves chain this s balance rest s')
    (hle : rest ≤ balance) :
    s'.2.cashPaid = s.2.cashPaid + (balance - rest) ∧
      ∃ left, IERC20.balanceOf chain s'.1 s.2.cyberCash this.1 = .ok left ∧
        left + (balance - rest) = balance := by
  have hpaid := h.paid
  exact ⟨by omega, rest, h.cash, Nat.add_sub_cancel' hle⟩

end CyberCash
