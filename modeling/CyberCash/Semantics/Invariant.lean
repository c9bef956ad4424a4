import CyberCash.Semantics.Effects

/-!
# The invariant of the token

`Inv` is what every plain effect keeps; `Good t s` adds that the supply and the
allowances are words and that the last accrual is not in the future. The reward part is the
soundness of the lazily distributed ledger, kept by the rules of the library;
the phase part ties the two flags of the life cycle together and keeps every
exempt account at score zero; the two bounds are what later excludes overflow.
-/

namespace CyberCash

open Solidity Function

structure Inv (s : State) : Prop where
  sum : ∑ a, s._balances a = s._totalSupply
  rewards : s.ledger.Sound REWARD_PRECISION
  phase : s.owner = 0 ↔ s.liquidityPool ≠ 0
  dormant : s.owner ≠ 0 → s.rewardsPerTokenBurned = 0 ∧ s.pendingMints = 0 ∧
    ∀ a, s.burnScore a = 0
  poolExempt : s.liquidityPool ≠ 0 → s.exemptedAddresses s.liquidityPool = true
  exemptIdle : ∀ a, s.exemptedAddresses a = true → s.burnScore a = 0
  zeroIdle : s.burnScore 0 = 0
  budget : s._totalSupply + s.pendingMints + s.totalBurned ≤
    INITIAL_SUPPLY + MINT_PER_SECOND * s.lastMintTime + 1
  indexBound : s.rewardsPerTokenBurned ≤
    MINT_PER_SECOND * s.lastMintTime * REWARD_PRECISION

structure Good (t : ℕ) (s : State) : Prop where
  inv : Inv s
  word : s._totalSupply < 2 ^ 256
  clock : s.lastMintTime ≤ t
  allowance : ∀ owner spender, s._allowances owner spender < 2 ^ 256

theorem Good.books {t : ℕ} {s : State} (h : Good t s) : s.toERC20.Books :=
  ⟨h.inv.sum, h.word⟩

theorem Good.later {t t' : ℕ} {s : State} (h : Good t s) (ht : t ≤ t') :
    Good t' s := ⟨h.inv, h.word, h.clock.trans ht, h.allowance⟩

namespace State

/-! ## The ledger under the effects -/

variable {s : State} {now x n : ℕ} {a src dst : Address}

theorem ledger_settle (s : State) (now : ℕ) (a : Address) :
    (s.settle now a).ledger = (s.ledgerAt now).settle REWARD_PRECISION a := rfl

theorem ledger_levy (s : State) (sender : Address) (x : ℕ) :
    (s.levy sender x).ledger = s.ledger.grow sender (taxOf x) := rfl

theorem ledger_moveScore (s : State) (now : ℕ) (src dst : Address) (n : ℕ) :
    (s.moveScore now src dst n).ledger =
      ((s.settle now src).settle now dst).ledger.shift src dst n := rfl

theorem taxOf_le (x : ℕ) : taxOf x ≤ x := by
  unfold taxOf BURN_ON_TRANSFER BURN_PRECISION
  omega

theorem poolBurn_le (s : State) (x : ℕ) :
    s.poolBurn x ≤ s._balances s.liquidityPool :=
  (min_le_right _ _).trans (Nat.sub_le _ _)

theorem accrued_le (s : State) (now : ℕ) :
    s.accrued now ≤ MINT_PER_SECOND * (now - s.lastMintTime) := by
  unfold accrued
  split
  · exact Nat.le_refl _
  · exact Nat.zero_le _

theorem accrued_add_le (h : s.lastMintTime ≤ now) :
    MINT_PER_SECOND * s.lastMintTime + s.accrued now ≤ MINT_PER_SECOND * now := by
  calc MINT_PER_SECOND * s.lastMintTime + s.accrued now
      ≤ MINT_PER_SECOND * s.lastMintTime +
          MINT_PER_SECOND * (now - s.lastMintTime) :=
        Nat.add_le_add_left (s.accrued_le now) _
    _ = MINT_PER_SECOND * now := by
        rw [← Nat.mul_add, Nat.add_sub_cancel' h]

theorem settle_settled (s : State) (now : ℕ) (a : Address) :
    (s.settle now a).userRewardsPerTokenBurned a =
      (s.settle now a).rewardsPerTokenBurned := update_self _ _ _

/-- Settling a second account at the same time leaves the first one settled. -/
theorem settle_settle_settled (s : State) (now : ℕ) (src dst : Address) :
    ((s.settle now src).settle now dst).userRewardsPerTokenBurned src =
      ((s.settle now src).settle now dst).rewardsPerTokenBurned := by
  by_cases hsd : src = dst
  · subst hsd
    exact settle_settled _ now src
  · have hindex : ((s.settle now src).settle now dst).rewardsPerTokenBurned =
        s.indexAt now := indexAt_self (s := s.settle now src) rfl
    rw [hindex]
    show update (s.settle now src).userRewardsPerTokenBurned dst _ src = _
    rw [update_of_ne hsd]
    exact settle_settled s now src

end State

open State

namespace Inv

variable {s s' : State} {now x n : ℕ} {a src dst : Address}

theorem totalBurned_pos (h : Inv s) : 0 < s.totalBurned := h.rewards.divisor_pos

theorem soundAt (h : Inv s) (now : ℕ) :
    (s.ledgerAt now).Sound REWARD_PRECISION := h.rewards.accrue _

theorem rewardsAt_le (h : Inv s) (now : ℕ) (a : Address) :
    s.rewardsAt now a ≤ s.pendingMints + s.accrued now :=
  (h.soundAt now).pending_le rewardPrecision_pos a

theorem launched (h : Inv s) (hpool : s.liquidityPool ≠ 0) : s.owner = 0 :=
  h.phase.mpr hpool

theorem owner_of_no_pool (h : Inv s) (hpool : s.liquidityPool = 0) :
    s.owner ≠ 0 := fun howner => h.phase.mp howner hpool

theorem launched_of_score (h : Inv s) (ha : s.burnScore a ≠ 0) :
    s.owner = 0 := by
  by_contra howner
  exact ha ((h.dormant howner).2.2 a)

theorem poolIdle (h : Inv s) : s.burnScore s.liquidityPool = 0 := by
  by_cases hpool : s.liquidityPool = 0
  · rw [hpool]
    exact h.zeroIdle
  · exact h.exemptIdle _ (h.poolExempt hpool)

theorem indexAt_le (h : Inv s) (hclock : s.lastMintTime ≤ now) :
    s.indexAt now ≤ MINT_PER_SECOND * now * REWARD_PRECISION := by
  have hgrowth : s.accrued now * REWARD_PRECISION / s.totalBurned ≤
      s.accrued now * REWARD_PRECISION := Nat.div_le_self _ _
  calc s.indexAt now
      ≤ MINT_PER_SECOND * s.lastMintTime * REWARD_PRECISION +
          s.accrued now * REWARD_PRECISION :=
        Nat.add_le_add h.indexBound hgrowth
    _ = (MINT_PER_SECOND * s.lastMintTime + s.accrued now) *
          REWARD_PRECISION := by rw [Nat.add_mul]
    _ ≤ MINT_PER_SECOND * now * REWARD_PRECISION :=
        Nat.mul_le_mul_right _ (accrued_add_le hclock)

/-! ## Each effect keeps the invariant -/

theorem reapproves (h : Inv s) (hs : s.Reapproves s') : Inv s' := by
  obtain ⟨allowances, nonces, entries, rfl, -⟩ := hs
  exact ⟨h.sum, h.rewards, h.phase, h.dormant, h.poolExempt, h.exemptIdle,
    h.zeroIdle, h.budget, h.indexBound⟩

/-- Nothing has a score yet, so any address may become exempt now. -/
theorem launch (h : Inv s) (howner : s.owner ≠ 0) (hclock : s.lastMintTime ≤ now)
    {pool migrator : Address} (hpool : pool ≠ 0) :
    Inv (s.launch now pool migrator) where
  sum := h.sum
  rewards := h.rewards
  phase := iff_of_true rfl hpool
  dormant hne := absurd rfl hne
  poolExempt _ := by
    show update (update s.exemptedAddresses pool true) migrator true pool = true
    by_cases hp : pool = migrator
    · rw [hp, update_self]
    · rw [update_of_ne hp, update_self]
  exemptIdle a _ := (h.dormant howner).2.2 a
  zeroIdle := h.zeroIdle
  budget := h.budget.trans (Nat.add_le_add_right
    (Nat.add_le_add_left (Nat.mul_le_mul_left _ hclock) _) 1)
  indexBound := h.indexBound.trans
    (Nat.mul_le_mul_right _ (Nat.mul_le_mul_left _ hclock))

theorem settle (h : Inv s) (hclock : s.lastMintTime ≤ now) (a : Address) :
    Inv (s.settle now a) where
  sum := by
    show ∑ b, update s._balances a (s._balances a + s.rewardsAt now a) b =
      s._totalSupply + s.rewardsAt now a
    rw [sum_credit, h.sum]
  rewards := by
    rw [ledger_settle]
    exact (h.soundAt now).settle rewardPrecision_pos a
  phase := h.phase
  dormant howner := by
    obtain ⟨hindex, hpending, hscore⟩ := h.dormant howner
    have hnone : s.accrued now = 0 := accrued_of_owner (s := s) howner now
    refine ⟨?_, ?_, hscore⟩
    · show s.indexAt now = 0
      unfold indexAt
      simp [hindex, hnone]
    · show s.pendingMints + s.accrued now - s.rewardsAt now a = 0
      simp [hpending, hnone]
  poolExempt := h.poolExempt
  exemptIdle := h.exemptIdle
  zeroIdle := h.zeroIdle
  budget := by
    -- a claim turns pending mints into supply
    have hpaid := h.rewardsAt_le now a
    have hbudget := h.budget
    have helapsed := accrued_add_le hclock
    show s._totalSupply + s.rewardsAt now a +
      (s.pendingMints + s.accrued now - s.rewardsAt now a) + s.totalBurned ≤
        INITIAL_SUPPLY + MINT_PER_SECOND * now + 1
    omega
  indexBound := h.indexAt_le hclock

/-- The burns: the sender has just been settled, is not exempt, and holds the
tax. -/
theorem levy (h : Inv s) (howner : s.owner = 0) (hsrc : src ≠ 0)
    (hexempt : s.exemptedAddresses src = false)
    (hsettled : s.userRewardsPerTokenBurned src = s.rewardsPerTokenBurned)
    (htax : taxOf x ≤ s._balances src) : Inv (s.levy src x) := by
  have hpool : s.liquidityPool ≠ 0 := h.phase.mp howner
  have hne : s.liquidityPool ≠ src := by
    rintro rfl
    rw [h.poolExempt hpool] at hexempt
    exact Bool.noConfusion hexempt
  have hburn := s.poolBurn_le x
  have hburned : ∑ b, (s.levy src x)._balances b + taxOf x + s.poolBurn x =
      s._totalSupply := by
    have htaxed := sum_debit htax
    have hpooled := sum_debit
      (f := update s._balances src (s._balances src - taxOf x))
      (k := s.liquidityPool) (v := s.poolBurn x)
      (by rw [update_of_ne hne]; exact hburn)
    rw [h.sum] at htaxed
    show ∑ b, update (update s._balances src (s._balances src - taxOf x))
      s.liquidityPool _ b + taxOf x + s.poolBurn x = _
    omega
  refine ⟨?_, ?_, h.phase, ?_, h.poolExempt, ?_, ?_, ?_, h.indexBound⟩
  · show _ = s._totalSupply - taxOf x - s.poolBurn x
    omega
  · rw [ledger_levy]
    exact h.rewards.grow _ hsettled
  · intro hne'
    exact absurd howner hne'
  · intro b hb
    have hbsrc : b ≠ src := by
      rintro rfl
      rw [show s.exemptedAddresses b = true from hb] at hexempt
      exact Bool.noConfusion hexempt
    show update s.burnScore src _ b = 0
    rw [update_of_ne hbsrc]
    exact h.exemptIdle b hb
  · show update s.burnScore src _ 0 = 0
    rw [update_of_ne hsrc.symm]
    exact h.zeroIdle
  · -- the tax is burned from the supply and counted in `totalBurned`
    have hbudget := h.budget
    show s._totalSupply - taxOf x - s.poolBurn x + s.pendingMints +
      (s.totalBurned + taxOf x) ≤
        INITIAL_SUPPLY + MINT_PER_SECOND * s.lastMintTime + 1
    omega

theorem pay (h : Inv s) (hx : x ≤ s._balances src) : Inv (s.pay src dst x) :=
  ⟨(sum_moved hx).trans h.sum, h.rewards, h.phase, h.dormant, h.poolExempt,
    h.exemptIdle, h.zeroIdle, h.budget, h.indexBound⟩

theorem moveScore (h : Inv s) (hclock : s.lastMintTime ≤ now) (hdst : dst ≠ 0)
    (hexempt : s.exemptedAddresses dst = false) (hn₀ : n ≠ 0)
    (hn : n ≤ s.burnScore src) : Inv (s.moveScore now src dst n) := by
  have hboth : Inv ((s.settle now src).settle now dst) :=
    (h.settle hclock src).settle (Nat.le_refl now) dst
  -- the sender has a score, so the token is launched
  have howner : s.owner = 0 := h.launched_of_score (a := src) (by omega)
  have hidle : ∀ b, b ≠ dst → s.burnScore b = 0 →
      moved s.burnScore src dst n b = 0 := by
    intro b hb hscore
    have hsrc : b ≠ src := by
      rintro rfl
      omega
    rw [moved_other hsrc hb, hscore]
  refine ⟨hboth.sum, ?_, hboth.phase, ?_, hboth.poolExempt, ?_, ?_,
    hboth.budget, hboth.indexBound⟩
  · rw [ledger_moveScore]
    exact hboth.rewards.shift hn (settle_settle_settled s now src dst)
      (settle_settled _ now dst)
  · intro hne
    exact absurd howner hne
  · intro b hb
    refine hidle b ?_ (h.exemptIdle b hb)
    rintro rfl
    rw [show s.exemptedAddresses b = true from hb] at hexempt
    exact Bool.noConfusion hexempt
  · exact hidle 0 hdst.symm h.zeroIdle

/-! ## A transfer -/

theorem balanceAt_no_pool (h : Inv s) (hpool : s.liquidityPool = 0) (now : ℕ)
    (a : Address) : s.balanceAt now a = s._balances a :=
  balanceAt_of_idle ((h.dormant (h.owner_of_no_pool hpool)).2.2 a) now

/-- The exempt pool is never the payer of a taxed transfer. -/
theorem pool_ne_of_taxed (h : Inv s) (htaxed : s.taxed src dst = true) :
    s.liquidityPool ≠ src ∧ s.liquidityPool ≠ dst := by
  simp only [taxed, Bool.and_eq_true, decide_eq_true_eq, Bool.not_eq_true'] at htaxed
  obtain ⟨⟨hpool, hsrc⟩, hdst⟩ := htaxed
  have hexempt := h.poolExempt hpool
  constructor
  · rintro rfl
    rw [hexempt] at hsrc
    exact Bool.noConfusion hsrc
  · rintro rfl
    rw [hexempt] at hdst
    exact Bool.noConfusion hdst

theorem settle_balance (s : State) (now : ℕ) (a : Address) :
    (s.settle now a)._balances a = s.balanceAt now a := update_self _ _ _

theorem settle_books (h : Inv s) (hclock : s.lastMintTime ≤ now)
    (hword : (s.settle now a)._totalSupply < 2 ^ 256) :
    (s.settle now a).toERC20.Books := ⟨(h.settle hclock a).sum, hword⟩

theorem levy_settle_balance (h : Inv s) (htaxed : s.taxed src dst = true) :
    ((s.settle now src).levy src x)._balances src =
      s.balanceAt now src - taxOf x := by
  have hne := (h.pool_ne_of_taxed htaxed).1
  show update (update (s.settle now src)._balances src _) s.liquidityPool _ src = _
  rw [update_of_ne hne.symm, update_self, settle_balance]

/-- After the tax the payer still holds what is left to send. -/
theorem levy_balance_src (h : Inv s) (htaxed : s.taxed src dst = true)
    (hx : x ≤ s.balanceAt now src) :
    x - taxOf x ≤ ((s.settle now src).levy src x)._balances src := by
  rw [h.levy_settle_balance htaxed]
  exact Nat.sub_le_sub_right hx _

/-- The state between the two burns of a taxed transfer and its payment. -/
theorem levy_settle (h : Inv s) (hclock : s.lastMintTime ≤ now) (hsrc : src ≠ 0)
    (htaxed : s.taxed src dst = true)
    (htax : taxOf x ≤ (s.settle now src)._balances src) :
    Inv ((s.settle now src).levy src x) := by
  simp only [taxed, Bool.and_eq_true, decide_eq_true_eq, Bool.not_eq_true'] at htaxed
  obtain ⟨⟨hpool, hexempt⟩, -⟩ := htaxed
  exact (h.settle hclock src).levy (h.launched hpool) hsrc hexempt
    (settle_settled s now src) htax

theorem tax_le_settled (hx : x ≤ s.balanceAt now src) :
    taxOf x ≤ (s.settle now src)._balances src := by
  rw [settle_balance]
  exact (taxOf_le x).trans hx

theorem send (h : Inv s) (hclock : s.lastMintTime ≤ now) (hsrc : src ≠ 0)
    (hx : x ≤ s.balanceAt now src) : Inv (s.send now src dst x) := by
  rcases s.send_cases now src dst x with
    ⟨hpool, -, hsend⟩ | ⟨-, htaxed, hsend⟩ | ⟨-, -, hsend⟩
  · rw [h.balanceAt_no_pool hpool] at hx
    rw [hsend]
    exact h.pay hx
  · rw [hsend]
    exact (h.levy_settle hclock hsrc htaxed (tax_le_settled hx)).pay
      (h.levy_balance_src htaxed hx)
  · rw [← settle_balance s now src] at hx
    rw [hsend]
    exact (h.settle hclock src).pay hx

end Inv

/-! ## Runs -/

theorem balanceAt_reapproves {s s' : State} (h : s.Reapproves s') (now : ℕ)
    (a : Address) : s'.balanceAt now a = s.balanceAt now a := by
  obtain ⟨_, _, _, rfl, -⟩ := h
  unfold balanceAt rewardsAt indexAt accrued
  rfl

theorem balanceAt_charge (s : State) (tx : Tx) (now : ℕ) (a : Address) :
    (s.charge tx).balanceAt now a = s.balanceAt now a :=
  balanceAt_reapproves (s.charge_reapproves tx) now a

theorem Good.reapproves {t : ℕ} {s s' : State} (h : Good t s)
    (hs : s.Reapproves s') : Good t s' := by
  have hinv := h.inv.reapproves hs
  obtain ⟨allowances, nonces, entries, rfl, -, hword⟩ := hs
  refine ⟨hinv, h.word, h.clock, ?_⟩
  intro owner spender
  rcases hword owner spender with hsame | hnew
  · exact lt_of_eq_of_lt hsame (h.allowance owner spender)
  · exact hnew

theorem Good.charge {t : ℕ} {s : State} (h : Good t s) (tx : Tx) :
    Good t (s.charge tx) := h.reapproves (s.charge_reapproves tx)

/-- Spending an allowance does not take the launch back. -/
theorem Inv.charge_launched {s : State} (h : Inv s) (howner : s.owner = 0) (tx : Tx) :
    (s.charge tx).liquidityPool ≠ 0 := by
  rw [(s.charge_reapproves tx).liquidityPool]
  exact h.phase.mp howner

theorem send_lastMintTime_le {s : State} {now x : ℕ} {src dst : Address}
    (hclock : s.lastMintTime ≤ now) :
    (s.send now src dst x).lastMintTime ≤ now := by
  rcases s.send_cases now src dst x with
    ⟨-, -, hsend⟩ | ⟨-, -, hsend⟩ | ⟨-, -, hsend⟩
  · rw [hsend]
    exact hclock
  · rw [hsend]
    exact Nat.le_refl now
  · rw [hsend]
    exact Nat.le_refl now

theorem Good.send {now x : ℕ} {s : State} {src dst : Address} (h : Good now s)
    (hsrc : src ≠ 0) (hx : x ≤ s.balanceAt now src)
    (hword : (s.send now src dst x)._totalSupply < 2 ^ 256) :
    Good now (s.send now src dst x) := by
  refine ⟨h.inv.send h.clock hsrc hx, hword, send_lastMintTime_le h.clock, ?_⟩
  rw [send_allowances]
  exact h.allowance

theorem Good.moveScore {now n : ℕ} {s : State} {src dst : Address}
    (h : Good now s) (hdst : dst ≠ 0) (hexempt : s.exemptedAddresses dst = false)
    (hn₀ : n ≠ 0) (hn : n ≤ s.burnScore src)
    (hword : (s.moveScore now src dst n)._totalSupply < 2 ^ 256) :
    Good now (s.moveScore now src dst n) :=
  ⟨h.inv.moveScore h.clock hdst hexempt hn₀ hn, hword, Nat.le_refl _,
    h.allowance⟩

/-- **Step lemma.** Every effect keeps the invariant. -/
theorem Good.effect {t : ℕ} {s s' : State} {tx : Tx} (h : Good t s)
    (ht : t ≤ tx.now) (he : Effect s tx s') : Good tx.now s' := by
  have hg : Good tx.now s := h.later ht
  cases he with
  | launch hcall hsender hpool hmigrator =>
      have howner : s.owner ≠ 0 := hsender ▸ tx.msg.sender_ne_zero
      exact ⟨hg.inv.launch howner hg.clock hpool, hg.word, Nat.le_refl _,
        hg.allowance⟩
  | reapprove hcall hs => exact hg.reapproves hs
  | send hmove hallow hsrc hdst hx hword =>
      have hcharged := hg.charge tx
      rw [← balanceAt_charge s tx] at hx
      exact hcharged.send hsrc hx hword
  | moveScore hcall hdst hexempt hn₀ hn hword =>
      exact hg.moveScore hdst hexempt hn₀ hn hword

end CyberCash
