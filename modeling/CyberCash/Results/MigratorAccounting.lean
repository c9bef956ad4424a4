import CyberCash.Results.Pricing

/-!
# The Migrator's accounts

Over any run of calls and deposits: listings are frozen, the CASH balance is
what was deposited less what was paid, the holdings of other tokens only grow,
and repeated rounding cannot drain the Migrator. Each migration misses the price
by less than one unit of the token, and only if it empties the balance.
-/

namespace CyberCash

open Solidity Function TimedRun CappedExchange

/-! ## What the log adds up to -/

namespace MigratorEvent

def paid : MigratorEvent → ℕ
  | .tokenMigrated _ _ _ cashOut => cashOut
  | _ => 0

def paidFor (_token : Address) : MigratorEvent → ℕ
  | .tokenMigrated _ token _ cashOut => if token = _token then cashOut else 0
  | _ => 0

def takenFor (_token : Address) : MigratorEvent → ℕ
  | .tokenMigrated _ token amountIn _ => if token = _token then amountIn else 0
  | _ => 0

end MigratorEvent

namespace Migrator

/-- A quantity summed over the log. -/
def tally (f : MigratorEvent → ℕ) (m : Migrator) : ℕ := (m.logs.map f).sum

/-- All CASH paid by migrations. -/
def cashPaid (m : Migrator) : ℕ := m.tally MigratorEvent.paid

/-- The CASH paid for one token. -/
def cashPaidFor (m : Migrator) (_token : Address) : ℕ :=
  m.tally (MigratorEvent.paidFor _token)

/-- How much of a token the migrations have taken. -/
def tokensTaken (m : Migrator) (_token : Address) : ℕ :=
  m.tally (MigratorEvent.takenFor _token)

variable {m : Migrator} {sender : Caller} {token _token : Address}
  {r d spend received : ℕ}

theorem tally_settled (f : MigratorEvent → ℕ) :
    (m.settled sender token spend received).tally f =
      m.tally f + f (.tokenMigrated sender.1 token spend received) := by
  unfold tally settled
  rw [List.map_append, List.sum_append]
  rfl

theorem cashPaid_settled :
    (m.settled sender token spend received).cashPaid = m.cashPaid + received :=
  tally_settled _

theorem cashPaidFor_settled :
    (m.settled sender token spend received).cashPaidFor _token =
      m.cashPaidFor _token + if token = _token then received else 0 :=
  tally_settled _

theorem tokensTaken_settled :
    (m.settled sender token spend received).tokensTaken _token =
      m.tokensTaken _token + if token = _token then spend else 0 :=
  tally_settled _

theorem tally_listing (f : MigratorEvent → ℕ) :
    (m.listing token r d).tally f = m.tally f + f (.tokenMigrationAdded token r d) := by
  unfold tally listing
  rw [List.map_append, List.sum_append]
  rfl

end Migrator

/-! ## What a run adds up to -/

variable {ω : Type} {chain : Chain ω} {this sender : Caller} {cash : Address}
  {w w' w'' : ω} {m m' : Migrator} {_token : Address}

/-- No token but CASH is held less of. -/
def HoldsMore (chain : Chain ω) (this : Caller) (cash : Address) (w w' : ω) :
    Prop :=
  ∀ token, token ≠ cash → ∀ h, chain.balanceOf w token this.1 = .ok h →
    ∃ h', h ≤ h' ∧ chain.balanceOf w' token this.1 = .ok h'

/-- The Migrator receives `d` units of CASH, from wherever, and loses nothing. -/
structure Deposits (chain : Chain ω) (this : Caller) (cash : Address) (w : ω)
    (d : ℕ) (w' : ω) : Prop where
  received : ∃ b, chain.balanceOf w cash this.1 = .ok b ∧
    chain.balanceOf w' cash this.1 = .ok (b + d)
  holds : HoldsMore chain this cash w w'

/-- The CASH deposited by one step. -/
def Action.deposit : Action ℕ → ℕ
  | .outside d => d
  | .call _ _ => 0

def deposited (steps : List (MigratorStep ω ℕ)) : ℕ :=
  (steps.map fun st => st.label.deposit).sum

/-- A migration of the token after which no CASH is left. -/
def empties (chain : Chain ω) (this : Caller) (_token : Address)
    (st : MigratorStep ω ℕ) : Bool :=
  match st.label with
  | .call _ (.migrate token _) =>
      decide (token = _token) &&
        decide (chain.balanceOf st.post.1 st.post.2.cyberCash this.1 = .ok 0)
  | _ => false

def emptyings (chain : Chain ω) (this : Caller) (_token : Address)
    (steps : List (MigratorStep ω ℕ)) : ℕ :=
  steps.countP (empties chain this _token)

theorem deposited_snoc (past : List (MigratorStep ω ℕ)) (st : MigratorStep ω ℕ) :
    deposited (past ++ [st]) = deposited past + st.label.deposit := by
  unfold deposited
  rw [List.map_append, List.sum_append]
  rfl

theorem emptyings_snoc (past : List (MigratorStep ω ℕ)) (st : MigratorStep ω ℕ) :
    emptyings chain this _token (past ++ [st]) =
      emptyings chain this _token past +
        if empties chain this _token st then 1 else 0 := by
  unfold emptyings
  rw [List.countP_append, List.countP_singleton]

theorem HoldsMore.refl (w : ω) : HoldsMore chain this cash w w :=
  fun _ _ h hh => ⟨h, Nat.le_refl h, hh⟩

theorem HoldsMore.trans (h : HoldsMore chain this cash w w')
    (h' : HoldsMore chain this cash w' w'') : HoldsMore chain this cash w w'' := by
  intro token htoken x hx
  obtain ⟨y, hxy, hy⟩ := h token htoken x hx
  obtain ⟨z, hyz, hz⟩ := h' token htoken y hy
  exact ⟨z, hxy.trans hyz, hz⟩

/-! ## The setting -/

/-- The Migrator is used as it is meant to be: its CASH pays exactly, and every
listed token is a standard one and not CASH. -/
structure Supported (chain : Chain ω) (this : Caller) (cash : Address)
    (m : Migrator) : Prop where
  address : m.cyberCash = 0 ∨ m.cyberCash = cash
  tokens : ∀ token, m.allowedTokens token = true →
    token ≠ cash ∧ Standard chain token

/-- As listings stay, so does the setting, back in time. -/
theorem Supported.earlier (h : Supported chain this cash m') (hfixed : m.Fixed m') :
    Supported chain this cash m := by
  constructor
  · rcases eq_or_ne m.cyberCash 0 with hunset | hset
    · exact .inl hunset
    · rw [← hfixed.cyberCash hset]
      exact h.address
  · intro token hlisted
    exact h.tokens token (hfixed.listed token hlisted).1

/-- **The flows of a migration.** -/
theorem Migrator.Settles.flows {_amount spend received : ℕ}
    (h : m.Settles chain this w sender _token _amount spend received w')
    (hsender : sender ≠ this) (hcash : PaysExactly chain cash this)
    (hm : Supported chain this cash m) :
    m.cyberCash = cash ∧
    (∃ b b', chain.balanceOf w cash this.1 = .ok b ∧
      chain.balanceOf w' cash this.1 = .ok b' ∧ b' + received = b) ∧
    HoldsMore chain this cash w w' := by
  obtain ⟨b, -, hread⟩ := h.balance
  obtain ⟨-, hb⟩ := IERC20.balanceOf_eq_ok.mp hread
  obtain ⟨hne, hstandard⟩ := hm.tokens _token h.listed
  obtain ⟨w₁, data, flag, htaken, -, hpaid⟩ := h.flow
  have hset : m.cyberCash = cash :=
    hm.address.resolve_left (IERC20.token_ne_zero hread)
  rw [hset] at hb hpaid
  obtain ⟨-, hpaid⟩ := IERC20.transfer_eq_ok.mp hpaid
  have hdistinct : sender.1 ≠ this.1 := fun heq => hsender (Subtype.ext heq)
  have hb₁ : chain.balanceOf w₁ cash this.1 = .ok b := by
    rw [hstandard.apart htaken cash this.1 hne.symm]
    exact hb
  obtain ⟨b', hfall, hb'⟩ := hcash.pays hpaid hdistinct hb₁
  refine ⟨hset, ⟨b, b', hb, hb', hfall⟩, ?_⟩
  intro token htoken held hheld
  rw [hcash.apart hpaid token this.1 htoken]
  rcases eq_or_ne token _token with rfl | hother
  · obtain ⟨_, before, _, hbefore, _, hafter⟩ := hstandard.moves htaken hdistinct
    rw [hbefore] at hheld
    cases hheld
    exact ⟨held + spend, Nat.le_add_right _ _, hafter⟩
  · rw [hstandard.apart htaken token this.1 hother]
    exact ⟨held, Nat.le_refl _, hheld⟩

/-- **The price of a migration**, missed by less than one unit of the token and
only if no CASH is left. -/
theorem Migrator.Settles.priced {_amount spend received b b' : ℕ}
    (h : m.Settles chain this w sender _token _amount spend received w')
    (hm : m.Checked) (hb : chain.balanceOf w m.cyberCash this.1 = .ok b)
    (hfall : b' + received = b) :
    10 ^ m.tokenDecimals _token * received ≤
      m.cashPerWholeTokens _token * (spend + if b' = 0 then 1 else 0) := by
  have hratio := hm.ratio _token h.listed
  have hread : IERC20.balanceOf chain w m.cyberCash this.1 = .ok b := by
    obtain ⟨c, -, hread⟩ := h.balance
    obtain ⟨-, hc⟩ := IERC20.balanceOf_eq_ok.mp hread
    rw [hb] at hc
    cases hc
    exact hread
  obtain ⟨-, -, rfl, rfl⟩ := (migrationResult_eq_ok h.listed hratio
    (hm.decimals _token h.listed).2 hread).mp h.preview
  have hover := (m.price _token hratio).scale_mul_payout_le b _amount
  have hempty : (m.price _token hratio).payout b _amount = b ↔ b' = 0 := by
    constructor
    · intro hall
      rw [hall] at hfall
      exact Nat.add_eq_right.mp hfall
    · rintro rfl
      rwa [Nat.zero_add] at hfall
  rwa [if_congr hempty rfl rfl] at hover

theorem empties_settled {_amount : Uint256} {spend received b' : ℕ}
    (hset : m.cyberCash = cash) (hb' : chain.balanceOf w' cash this.1 = .ok b')
    (token : Address) :
    empties chain this token ⟨(w, m), .call sender (.migrate _token _amount),
        (w', m.settled sender _token spend received)⟩ =
      (decide (_token = token) && decide (b' = 0)) := by
  show (decide (_token = token) &&
    decide (chain.balanceOf w' m.cyberCash this.1 = .ok 0)) = _
  rw [hset, hb']
  simp only [Except.ok.injEq]

/-! ## The accounts of a run -/

/-- What a history of calls and deposits leaves behind, from a balance `b₀`. -/
structure Accounts (chain : Chain ω) (this : Caller) (cash : Address) (b₀ : ℕ)
    (past : List (MigratorStep ω ℕ)) (w : ω) (m : Migrator) : Prop where
  checked : m.Checked
  balance : ∃ b, chain.balanceOf w cash this.1 = .ok b ∧
    b + m.cashPaid = b₀ + deposited past
  unlisted : ∀ token, m.allowedTokens token = false → m.cashPaidFor token = 0
  priced : ∀ token, m.allowedTokens token = true →
    10 ^ m.tokenDecimals token * m.cashPaidFor token ≤
      m.cashPerWholeTokens token *
        (m.tokensTaken token + emptyings chain this token past)

variable {b₀ : ℕ} {past : List (MigratorStep ω ℕ)}

theorem Accounts.start {_owner : Address}
    (h : chain.balanceOf w cash this.1 = .ok b₀) :
    Accounts chain this cash b₀ [] w (Migrator.constructor _owner) where
  checked := Migrator.constructor_checked _owner
  balance := ⟨b₀, h, rfl⟩
  unlisted _ _ := rfl
  priced _ h := Bool.noConfusion h

/-- A step that neither moves CASH nor logs a migration. -/
theorem Accounts.quiet {st : MigratorStep ω ℕ}
    (h : Accounts chain this cash b₀ past w m) (hdeposit : st.label.deposit = 0)
    (hempties : ∀ token, empties chain this token st = false) :
    Accounts chain this cash b₀ (past ++ [st]) w m := by
  refine ⟨h.checked, ?_, h.unlisted, ?_⟩
  · rw [deposited_snoc, hdeposit]
    exact h.balance
  · intro token hlisted
    rw [emptyings_snoc, hempties token]
    exact h.priced token hlisted

/-- Listing a token that nothing has been paid for yet. -/
theorem Accounts.list {_token : Address} {r d : ℕ}
    (h : Accounts chain this cash b₀ past w m)
    (hchecked : (m.listing _token r d).Checked)
    (hnew : m.allowedTokens _token = false) :
    Accounts chain this cash b₀ past w (m.listing _token r d) where
  checked := hchecked
  balance := by
    have hpaid : (m.listing _token r d).cashPaid = m.cashPaid :=
      Migrator.tally_listing _
    rw [hpaid]
    exact h.balance
  unlisted token hunlisted := by
    have hpaid : (m.listing _token r d).cashPaidFor token = m.cashPaidFor token :=
      Migrator.tally_listing _
    rw [hpaid]
    rcases eq_or_ne token _token with rfl | htoken
    · exact h.unlisted token hnew
    · rw [(Migrator.listing_other htoken).1] at hunlisted
      exact h.unlisted token hunlisted
  priced token hlisted := by
    have hpaid : (m.listing _token r d).cashPaidFor token = m.cashPaidFor token :=
      Migrator.tally_listing _
    have htaken : (m.listing _token r d).tokensTaken token = m.tokensTaken token :=
      Migrator.tally_listing _
    rw [hpaid, htaken]
    rcases eq_or_ne token _token with rfl | htoken
    · rw [h.unlisted token hnew, Nat.mul_zero]
      exact Nat.zero_le _
    · obtain ⟨hsame, hratio, hdecimals⟩ :=
        Migrator.listing_other (m := m) (r := r) (d := d) htoken
      rw [hsame] at hlisted
      rw [hratio, hdecimals]
      exact h.priced token hlisted

theorem Accounts.deposit {d : ℕ} (h : Accounts chain this cash b₀ past w m)
    (hdeposit : Deposits chain this cash w d w') :
    Accounts chain this cash b₀ (past ++ [⟨(w, m), .outside d, (w', m)⟩]) w' m := by
  refine ⟨h.checked, ?_, h.unlisted, ?_⟩
  · obtain ⟨b, hb, hb'⟩ := hdeposit.received
    obtain ⟨c, hc, hbalance⟩ := h.balance
    rw [hb] at hc
    cases hc
    refine ⟨b + d, hb', ?_⟩
    rw [deposited_snoc, Nat.add_right_comm, hbalance, Nat.add_assoc]
    rfl
  · intro token hlisted
    rw [emptyings_snoc]
    exact h.priced token hlisted

/-- **A migration keeps the accounts.** The overpayment of the library bound is
the one unit that an emptying migration adds on the right. -/
theorem Accounts.settle {_amount : Uint256} {spend received : ℕ}
    (h : Accounts chain this cash b₀ past w m)
    (hs : m.Settles chain this w sender _token _amount.toNat spend received w')
    (hsender : sender ≠ this) (hcash : PaysExactly chain cash this)
    (hm : Supported chain this cash m) :
    Accounts chain this cash b₀ (past ++ [⟨(w, m), .call sender
      (.migrate _token _amount), (w', m.settled sender _token spend received)⟩])
      w' (m.settled sender _token spend received) := by
  obtain ⟨hset, ⟨b, b', hb, hb', hfall⟩, -⟩ := hs.flows hsender hcash hm
  refine ⟨⟨h.checked.ratio, h.checked.decimals⟩, ?_, ?_, ?_⟩
  · obtain ⟨c, hc, hbalance⟩ := h.balance
    rw [hb] at hc
    cases hc
    refine ⟨b', hb', ?_⟩
    rw [Migrator.cashPaid_settled, deposited_snoc]
    show b' + (m.cashPaid + received) = b₀ + (deposited past + 0)
    rw [Nat.add_zero, ← hbalance, ← hfall, Nat.add_comm m.cashPaid, Nat.add_assoc]
  · intro token hunlisted
    have htoken : _token ≠ token := by
      rintro rfl
      exact Bool.noConfusion (hunlisted.symm.trans hs.listed)
    rw [Migrator.cashPaidFor_settled, if_neg htoken, Nat.add_zero]
    exact h.unlisted token hunlisted
  · intro token hlisted
    have hpriced := h.priced token hlisted
    rw [Migrator.cashPaidFor_settled, Migrator.tokensTaken_settled, emptyings_snoc,
      empties_settled hset hb']
    show 10 ^ m.tokenDecimals token * _ ≤ m.cashPerWholeTokens token * _
    rcases eq_or_ne _token token with rfl | htoken
    · have hover := hs.priced h.checked (hset ▸ hb) hfall
      simp only [if_true, decide_true, Bool.true_and, decide_eq_true_eq]
      calc 10 ^ m.tokenDecimals _token * (m.cashPaidFor _token + received)
          = 10 ^ m.tokenDecimals _token * m.cashPaidFor _token +
              10 ^ m.tokenDecimals _token * received := Nat.mul_add _ _ _
        _ ≤ m.cashPerWholeTokens _token *
                (m.tokensTaken _token + emptyings chain this _token past) +
              m.cashPerWholeTokens _token * (spend + if b' = 0 then 1 else 0) :=
            Nat.add_le_add hpriced hover
        _ = m.cashPerWholeTokens _token * (m.tokensTaken _token + spend +
              (emptyings chain this _token past + if b' = 0 then 1 else 0)) := by
            ring
    · simp only [if_neg htoken, decide_eq_false htoken, Bool.false_and,
        Bool.false_eq_true, if_false, Nat.add_zero]
      exact hpriced

/-- **Step lemma.** -/
theorem Accounts.step {s s' : ω × Migrator} {a : Action ℕ}
    (h : Accounts chain this cash b₀ past s.1 s.2)
    (hnext : MigratorNext chain this (Deposits chain this cash) s a s')
    (hcash : PaysExactly chain cash this) (hm : Supported chain this cash s.2) :
    Accounts chain this cash b₀ (past ++ [⟨s, a, s'⟩]) s'.1 s'.2 ∧
      HoldsMore chain this cash s.1 s'.1 := by
  rcases s with ⟨w, m⟩
  rcases s' with ⟨w', m'⟩
  cases a with
  | call sender call =>
      obtain ⟨hsender, hstep⟩ := hnext
      have heffect := MigratorEffect.of_step hstep
      have hchecked := heffect.checked h.checked
      cases heffect with
      | setCash =>
          refine ⟨?_, .refl w⟩
          exact (Accounts.mk hchecked h.balance h.unlisted h.priced).quiet rfl
            fun _ => rfl
      | list _ hnew =>
          refine ⟨?_, .refl w⟩
          exact (h.list hchecked hnew).quiet rfl fun _ => rfl
      | settle hs =>
          exact ⟨h.settle hs hsender hcash hm, (hs.flows hsender hcash hm).2.2⟩
  | outside d =>
      obtain ⟨hdeposit, hsame⟩ := hnext
      cases hsame
      exact ⟨h.deposit hdeposit, hdeposit.holds⟩

/-- **Run lemma.** The setting is that of the last state, where every token
ever listed still is. -/
theorem Accounts.run {s s' : ω × Migrator} {steps : List (MigratorStep ω ℕ)}
    (hrun : MigratorRun chain this (Deposits chain this cash) s steps s')
    (hcash : PaysExactly chain cash this) (hm : Supported chain this cash s'.2)
    (h : Accounts chain this cash b₀ past s.1 s.2) :
    Accounts chain this cash b₀ (past ++ steps) s'.1 s'.2 ∧
      HoldsMore chain this cash s.1 s'.1 := by
  have hhistory := Run.history (I := fun recent _ r =>
    Supported chain this cash r.2 →
      Accounts chain this cash b₀ (past ++ recent) r.1 r.2 ∧
        HoldsMore chain this cash s.1 r.1) ?_ hrun ?_
  · exact hhistory hm
  · intro recent _ r a r' hr _ hnext hm'
    have hmr := hm'.earlier hnext.fixed
    obtain ⟨haccounts, hholds⟩ := hr hmr
    obtain ⟨haccounts', hholds'⟩ := haccounts.step hnext hcash hmr
    rw [← List.append_assoc]
    exact ⟨haccounts', hholds.trans hholds'⟩
  · intro _
    rw [List.append_nil]
    exact ⟨h, .refl _⟩

/-- **Migrator accounting over whole runs**, read at two moments: the state
`(w₁, m₁)` after `past` and the state `(w₂, m₂)` after the further `steps`. -/
theorem migrator_accounting {_owner : Address} {w₀ w₁ w₂ : ω} {m₁ m₂ : Migrator}
    {steps : List (MigratorStep ω ℕ)}
    (hpast : MigratorRun chain this (Deposits chain this cash)
      (w₀, Migrator.constructor _owner) past (w₁, m₁))
    (hsteps : MigratorRun chain this (Deposits chain this cash) (w₁, m₁) steps
      (w₂, m₂))
    (hstart : chain.balanceOf w₀ cash this.1 = .ok b₀)
    (hcash : PaysExactly chain cash this)
    (hset : m₂.cyberCash = 0 ∨ m₂.cyberCash = cash)
    (htokens : ∀ token, m₂.allowedTokens token = true →
      token ≠ cash ∧ Standard chain token) :
    (m₁.cyberCash ≠ 0 → m₂.cyberCash = m₁.cyberCash) ∧
    (∀ token, m₁.allowedTokens token = true →
      m₂.allowedTokens token = true ∧
        m₂.cashPerWholeTokens token = m₁.cashPerWholeTokens token ∧
        m₂.tokenDecimals token = m₁.tokenDecimals token) ∧
    (∀ token, m₂.allowedTokens token = true →
      0 < m₂.cashPerWholeTokens token ∧
        1 ≤ m₂.tokenDecimals token ∧ m₂.tokenDecimals token ≤ 50) ∧
    (∃ b, chain.balanceOf w₂ cash this.1 = .ok b ∧
      b + m₂.cashPaid = b₀ + deposited (past ++ steps)) ∧
    (∀ token, token ≠ cash → ∀ h, chain.balanceOf w₁ token this.1 = .ok h →
      ∃ h', h ≤ h' ∧ chain.balanceOf w₂ token this.1 = .ok h') ∧
    (∀ token, m₂.allowedTokens token = true →
      10 ^ m₂.tokenDecimals token * m₂.cashPaidFor token ≤
        m₂.cashPerWholeTokens token *
          (m₂.tokensTaken token + emptyings chain this token (past ++ steps))) := by
  have hm₂ : Supported chain this cash m₂ := ⟨hset, htokens⟩
  have hfixed := MigratorRun.fixed hsteps
  obtain ⟨hmiddle, -⟩ := Accounts.run hpast hcash (hm₂.earlier hfixed)
    (.start hstart)
  rw [List.nil_append] at hmiddle
  obtain ⟨hend, hholds⟩ := hmiddle.run hsteps hcash hm₂
  refine ⟨hfixed.cyberCash, hfixed.listed, ?_, hend.balance, hholds, hend.priced⟩
  intro token hlisted
  exact ⟨hend.checked.ratio token hlisted, hend.checked.decimals token hlisted⟩

/-! ## A sample run -/

/-- A transfer of CASH to the Migrator is a deposit. -/
theorem deposits_of_transfer {w w' : Tokens} {d : ℕ} {flag : Bool}
    (h : tokenChain.transfer w cash sender this.1 d = .ok (w', flag))
    (hsender : sender ≠ this) : Deposits tokenChain this cash w d w' := by
  obtain ⟨hmoved, hothers⟩ := tokenChain_transfer h
  have hdistinct : sender.1 ≠ this.1 := fun heq => hsender (Subtype.ext heq)
  refine ⟨⟨(w cash).1._balances this.1, rfl, ?_⟩, ?_⟩
  · rw [← hmoved.payee hdistinct]
    rfl
  · intro token htoken held hheld
    refine ⟨held, Nat.le_refl _, ?_⟩
    rw [tokenChain_balanceOf (hothers token htoken)]
    exact hheld

/-- Account `12` sends the Migrator what five units of the token are worth. -/
def sampleFunding : Result (Tokens × Bool) :=
  tokenChain.transfer sampleSupply 20 sampleUser sampleMigrator.1 5000000000000

def sampleFunded : Tokens := (sampleFunding.toOption.getD (sampleSupply, false)).1

theorem sampleFunding_eq : ∃ flag, sampleFunding = .ok (sampleFunded, flag) := by
  obtain ⟨⟨w, flag⟩, h⟩ := exists_of_isOk
    (by decide +kernel : sampleFunding.isOk = true)
  refine ⟨flag, ?_⟩
  unfold sampleFunded
  rw [h]
  rfl

/-- It then migrates seventy units, more than that covers. -/
theorem sample_migrator_accounting :
    ∃ (w : Tokens) (m : Migrator) (steps : List (MigratorStep Tokens ℕ)) (b : ℕ),
      MigratorRun tokenChain sampleMigrator (Deposits tokenChain sampleMigrator 20)
        (sampleSupply, Migrator.constructor sampleOwner.1) steps (w, m) ∧
      tokenChain.balanceOf w 20 sampleMigrator.1 = .ok b ∧
      b + m.cashPaid = 0 + deposited steps ∧
      10 ^ m.tokenDecimals 30 * m.cashPaidFor 30 ≤ m.cashPerWholeTokens 30 *
        (m.tokensTaken 30 + emptyings tokenChain sampleMigrator 30 steps) := by
  obtain ⟨past, hpast⟩ := sampleListed_run tokenChain
    (Deposits tokenChain sampleMigrator 20) sampleSupply
  obtain ⟨flag, hfunded⟩ := sampleFunding_eq
  obtain ⟨⟨w, m⟩, hmigrated⟩ := exists_of_isOk (by decide +kernel :
    (migratorStep tokenChain sampleMigrator sampleUser (.migrate 30 70)
      (sampleFunded, sampleListed)).isOk = true)
  have hdeposit : MigratorNext tokenChain sampleMigrator
      (Deposits tokenChain sampleMigrator 20) (sampleSupply, sampleListed)
      (.outside 5000000000000) (sampleFunded, sampleListed) :=
    ⟨deposits_of_transfer hfunded (by decide), rfl⟩
  have hmigrate : MigratorNext tokenChain sampleMigrator
      (Deposits tokenChain sampleMigrator 20) (sampleFunded, sampleListed)
      (.call sampleUser (.migrate 30 70)) (w, m) := ⟨by decide, hmigrated⟩
  obtain ⟨spend, received, -, rfl⟩ := Migrator.migrate_eq_ok.mp hmigrated
  obtain ⟨steps, hsteps⟩ : ∃ steps, MigratorRun tokenChain sampleMigrator
      (Deposits tokenChain sampleMigrator 20) (sampleSupply, sampleListed) steps
      (w, sampleListed.settled sampleUser 30 spend received) :=
    ⟨_, .cons (Nat.le_refl 0) hdeposit (.cons (Nat.le_refl 0) hmigrate .nil)⟩
  have hlisted (token : Address) (h : sampleListed.allowedTokens token = true) :
      token ≠ 20 ∧ Standard tokenChain token := by
    refine ⟨?_, tokenChain_standard token⟩
    rintro rfl
    exact Bool.noConfusion h
  obtain ⟨-, -, -, ⟨b, hb, hbalance⟩, -, hpriced⟩ := migrator_accounting hpast hsteps
    rfl (tokenChain_pays 20 sampleMigrator) (.inr rfl) hlisted
  exact ⟨_, _, past ++ steps, b, hpast.append hsteps, hb, hbalance, hpriced 30 rfl⟩

end CyberCash
