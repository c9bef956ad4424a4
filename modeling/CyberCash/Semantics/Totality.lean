import CyberCash.Semantics.Inversion

/-!
# When the calls succeed

The converse of `Semantics/Inversion`, below the horizon of 64-bit timestamps:
the invariant bounds every intermediate value of the views and of the writing
functions, so that only the checks the contract makes on purpose can fail. The
bound on `score * gap` is the relational one: the fine claim of one account is
at most the whole backed reserve.
-/

namespace CyberCash

open Solidity Function State

/-- More than the token can ever owe and hold at 64-bit timestamps. -/
@[irreducible] def lifetimeSupply : ℕ :=
  INITIAL_SUPPLY + MINT_PER_SECOND * 2 ^ 64 + 1

theorem lifetimeSupply_lt : lifetimeSupply < 2 ^ 200 := by decide +kernel

/-- Also at the scale of the index it fits a word. -/
theorem scaled_lifetimeSupply_lt :
    REWARD_PRECISION * lifetimeSupply < 2 ^ 256 := by decide +kernel

theorem le_lifetimeSupply {now : ℕ} (hnow : now < 2 ^ 64) :
    INITIAL_SUPPLY + MINT_PER_SECOND * now + 1 ≤ lifetimeSupply := by
  unfold lifetimeSupply
  exact Nat.add_le_add_right
    (Nat.add_le_add_left (Nat.mul_le_mul_left _ hnow.le) _) 1

namespace Inv

variable {s : State} {now x : ℕ} {a src dst : Address}

/-- The budget of the invariant, read at `now`. -/
theorem budgetAt (h : Inv s) (hclock : s.lastMintTime ≤ now) :
    s.supplyAt now + s.totalBurned ≤
      INITIAL_SUPPLY + MINT_PER_SECOND * now + 1 := by
  have hbudget := h.budget
  have helapsed := accrued_add_le hclock
  unfold supplyAt
  omega

theorem supply_le (h : Inv s) (hclock : s.lastMintTime ≤ now)
    (hnow : now < 2 ^ 64) : s.supplyAt now + s.totalBurned ≤ lifetimeSupply :=
  (h.budgetAt hclock).trans (le_lifetimeSupply hnow)

/-- The minted supply is a word as long as the timestamps are 64-bit. -/
theorem word (h : Inv s) (hclock : s.lastMintTime ≤ now) (hnow : now < 2 ^ 64) :
    s._totalSupply < 2 ^ 256 := by
  have hsupply := h.supply_le hclock hnow
  have hlifetime := lifetimeSupply_lt
  unfold supplyAt at hsupply
  omega

theorem balanceAt_le_supplyAt (h : Inv s) (now : ℕ) (a : Address) :
    s.balanceAt now a ≤ s.supplyAt now := by
  have hheld : s._balances a ≤ s._totalSupply := h.sum ▸ le_sum_of_key _ a
  have howed := h.rewardsAt_le now a
  unfold balanceAt supplyAt
  omega

/-- **No panic in the views.** -/
theorem fits (h : Inv s) (hclock : s.lastMintTime ≤ now) (hnow : now < 2 ^ 64) :
    s.Fits now := by
  have hsupply := h.supply_le hclock hnow
  have hlifetime := lifetimeSupply_lt
  have hscaled := scaled_lifetimeSupply_lt
  have hsound := h.soundAt now
  have hindex : MINT_PER_SECOND * now * REWARD_PRECISION < 2 ^ 256 := by
    refine lt_of_le_of_lt ?_ hscaled
    rw [Nat.mul_comm REWARD_PRECISION]
    apply Nat.mul_le_mul_right
    have hle := le_lifetimeSupply hnow
    omega
  refine ⟨fun _ => hclock, ?_, h.totalBurned_pos, ?_, hsound.behind, ?_, ?_, ?_⟩
  · refine lt_of_le_of_lt (Nat.mul_le_mul_right _ ?_) hindex
    have helapsed := accrued_add_le hclock
    omega
  · exact (h.indexAt_le hclock).trans_lt hindex
  · -- no crude bound on score and index would do here
    intro a
    have hclaim : s.burnScore a *
        (s.indexAt now - s.userRewardsPerTokenBurned a) ≤
          REWARD_PRECISION * (s.pendingMints + s.accrued now) := hsound.claim_le a
    have hreserve : s.pendingMints + s.accrued now ≤ lifetimeSupply := by
      unfold supplyAt at hsupply
      omega
    exact (hclaim.trans (Nat.mul_le_mul_left _ hreserve)).trans_lt hscaled
  · intro a
    have hbal := h.balanceAt_le_supplyAt now a
    omega
  · omega

end Inv

theorem Good.fits {t now : ℕ} {s : State} (h : Good t s) (ht : t ≤ now)
    (hnow : now < 2 ^ 64) : s.Fits now :=
  h.inv.fits (h.clock.trans ht) hnow

namespace State

variable {s : State} {now x n : ℕ} {a src dst : Address}

theorem totalRewards_toERC20 (s : State) (e : ERC20) (now : ℕ) :
    totalRewards { s with toERC20 := e } now = s.totalRewards now := by
  unfold totalRewards
  rfl

theorem mintRewards_ok (h : Inv s) (hclock : s.lastMintTime ≤ now)
    (hnow : now < 2 ^ 64) (ha : a ≠ 0) :
    s.mintRewards now a = .ok (s.settle now a) := by
  have hfits := h.fits hclock hnow
  have howed := h.rewardsAt_le now a
  have hsupply := h.supply_le hclock hnow
  have hlifetime := lifetimeSupply_lt
  unfold supplyAt at hsupply
  have hbooks : s.toERC20.Books := ⟨h.sum, by omega⟩
  have hmint : s.onERC20 (·._mint a (s.rewardsAt now a)) =
      .ok { s with toERC20 := s.toERC20.minted a (s.rewardsAt now a) } :=
    onERC20_eq_ok.mpr
      ⟨_, (ERC20._mint_eq_ok hbooks).mpr ⟨ha, by omega, rfl⟩, rfl⟩
  unfold mintRewards
  rw [hfits.userRewards a, ok_bind, hmint, ok_bind, totalRewards_toERC20,
    hfits.totalRewards, ok_bind, checkedMul_of_lt hfits.scaled, ok_bind]
  dsimp only
  rw [checkedDiv_of_pos hfits.divisor, ok_bind, checkedAdd_of_lt hfits.index,
    ok_bind, checkedAdd_of_lt (by omega), ok_bind, checkedSub_of_le howed, ok_bind]
  rfl

theorem _burn_ok {e : ERC20} (h : e.Books) (ha : a ≠ 0) (hx : x ≤ e._balances a) :
    e._burn a x = .ok (e.burned a x) :=
  (ERC20._burn_eq_ok h).mpr ⟨ha, hx, rfl⟩

theorem burnOnTransfer_ok (h : Inv s) (hclock : s.lastMintTime ≤ now)
    (hnow : now < 2 ^ 64) (hpool : s.liquidityPool ≠ 0) (hsrc : src ≠ 0)
    (hne : s.liquidityPool ≠ src) (hx : x ≤ s._balances src) :
    s.burnOnTransfer now src x = .ok (s.levy src x, x - taxOf x) := by
  have hfits := h.fits hclock hnow
  have hsupply := h.supply_le hclock hnow
  have hlifetime := lifetimeSupply_lt
  have htotal : s.totalBurned = 1 + ∑ a, s.burnScore a := h.rewards.total
  have hscore : s.burnScore src ≤ ∑ a, s.burnScore a := le_sum_of_key _ src
  have htax := taxOf_le x
  have hlp := s.poolBurn_le x
  unfold supplyAt at hsupply
  have hbooks : s.toERC20.Books := ⟨h.sum, by omega⟩
  have hheld := hbooks.balance_le src
  have hpooled : s.balanceOf now s.liquidityPool =
      .ok (s._balances s.liquidityPool) := by
    rw [hfits.balanceOf, balanceAt_of_idle h.poolIdle]
  have hcan : (if RESERVE_BUFFER < s._balances s.liquidityPool
      then checkedSub (s._balances s.liquidityPool) RESERVE_BUFFER
      else .ok 0 : Result ℕ) =
        .ok (s._balances s.liquidityPool - RESERVE_BUFFER) := by
    split
    · exact checkedSub_of_le (by omega)
    · congr 1
      omega
  have hpay : x * BURN_ON_TRANSFER / BURN_PRECISION = taxOf x := rfl
  have hclamp : (if x * BURN_FROM_LP / BURN_PRECISION <
      s._balances s.liquidityPool - RESERVE_BUFFER
      then x * BURN_FROM_LP / BURN_PRECISION
      else s._balances s.liquidityPool - RESERVE_BUFFER) = s.poolBurn x :=
    (min_eq_ite _ _).symm
  have hburn₁ : s.onERC20 (·._burn src (taxOf x)) =
      .ok { s with toERC20 := s.toERC20.burned src (taxOf x) } :=
    onERC20_eq_ok.mpr ⟨_, _burn_ok hbooks hsrc (htax.trans hx), rfl⟩
  have hburn₂ : onERC20 { s with toERC20 := s.toERC20.burned src (taxOf x) }
      (·._burn s.liquidityPool (s.poolBurn x)) =
        .ok { s with toERC20 :=
          (s.toERC20.burned src (taxOf x)).burned s.liquidityPool (s.poolBurn x) } := by
    refine onERC20_eq_ok.mpr ⟨_, _burn_ok (hbooks.burned (htax.trans hx)) hpool ?_, rfl⟩
    show s.poolBurn x ≤ update s._balances src _ s.liquidityPool
    rw [update_of_ne hne]
    exact hlp
  unfold burnOnTransfer
  rw [hpooled, ok_bind, hcan, ok_bind,
    checkedMul_of_lt (by unfold BURN_ON_TRANSFER; omega), ok_bind,
    checkedDiv_of_pos (by decide), ok_bind, hpay,
    checkedMul_of_lt (by unfold BURN_FROM_LP; omega), ok_bind,
    checkedDiv_of_pos (by decide), ok_bind, hclamp, checkedSub_of_le htax, ok_bind,
    hburn₁, ok_bind]
  dsimp only
  rw [hburn₂, ok_bind]
  dsimp only
  rw [checkedAdd_of_lt (by omega), ok_bind, checkedAdd_of_lt (by omega), ok_bind]
  rfl

theorem _transfer_ok (hbooks : s.toERC20.Books) (hsrc : src ≠ 0) (hdst : dst ≠ 0)
    (hx : x ≤ s._balances src) :
    s.onERC20 (·._transfer src dst x) = .ok (s.pay src dst x) :=
  onERC20_eq_ok.mpr
    ⟨_, (ERC20._transfer_eq_ok hbooks).mpr ⟨hsrc, hdst, hx, rfl⟩, rfl⟩

/-- The shared body of the two transfers succeeds whenever the displayed
balance covers the amount. -/
theorem sendBody_ok (hg : Good now s) (hnow : now < 2 ^ 64) (hsrc : src ≠ 0)
    (hdst : dst ≠ 0) (hx : x ≤ s.balanceAt now src) :
    s.sendBody now src dst x = .ok (s.send now src dst x) := by
  unfold sendBody
  rcases s.send_cases now src dst x with
    ⟨hpool, -, hsend⟩ | ⟨hpool, htaxed, hsend⟩ | ⟨hpool, hexempt, hsend⟩
  · rw [hg.inv.balanceAt_no_pool hpool] at hx
    rw [if_neg (not_not_intro hpool), hsend]
    exact _transfer_ok hg.books hsrc hdst hx
  · have hsettled := hg.inv.settle hg.clock src
    have hne := (hg.inv.pool_ne_of_taxed htaxed).1
    have hheld := hx
    rw [← Inv.settle_balance s now src] at hheld
    have hlevied := hg.inv.levy_settle hg.clock hsrc htaxed
      ((taxOf_le x).trans hheld)
    have hword : ((s.settle now src).levy src x)._totalSupply < 2 ^ 256 :=
      (Nat.sub_le _ _).trans_lt ((Nat.sub_le _ _).trans_lt
        (hsettled.word (Nat.le_refl now) hnow))
    rw [if_pos hpool, mintRewards_ok hg.inv hg.clock hnow hsrc, ok_bind,
      if_pos ((burns_settle_iff now src hpool).mpr htaxed),
      burnOnTransfer_ok hsettled (Nat.le_refl now) hnow hpool hsrc hne hheld,
      ok_bind, hsend]
    exact _transfer_ok ⟨hlevied.sum, hword⟩ hsrc hdst
      (hg.inv.levy_balance_src htaxed hx)
  · have hsettled := hg.inv.settle hg.clock src
    have hbooks := hg.inv.settle_books hg.clock (hsettled.word (Nat.le_refl now) hnow)
    rw [← Inv.settle_balance s now src] at hx
    rw [if_pos hpool, mintRewards_ok hg.inv hg.clock hnow hsrc, ok_bind,
      if_neg (mt (burns_settle_iff now src hpool).mp
        (Bool.eq_false_iff.mp hexempt)), hsend]
    exact _transfer_ok hbooks hsrc hdst hx

/-- A score move succeeds whenever its four checks hold. -/
theorem transferBurnScore_ok {msg : Msg} (hg : Good msg.timestamp s)
    (hnow : msg.timestamp < 2 ^ 64) (hdst : dst ≠ 0)
    (hexempt : s.exemptedAddresses dst = false) (hn₀ : n ≠ 0)
    (hn : n ≤ s.burnScore msg.sender) :
    s.transferBurnScore msg dst n =
      .ok (s.moveScore msg.timestamp msg.sender dst n) := by
  have hsettled := hg.inv.settle hg.clock msg.sender
  have hscore : update s.burnScore msg.sender (s.burnScore msg.sender - n) dst + n <
      2 ^ 256 := by
    have hsupply := hg.inv.supply_le hg.clock hnow
    have hlifetime := lifetimeSupply_lt
    have htotal : s.totalBurned = 1 + ∑ a, s.burnScore a := hg.inv.rewards.total
    have hdst := le_sum_of_key s.burnScore dst
    have hsrc := le_sum_of_key s.burnScore msg.sender
    rw [update_apply]
    split <;> omega
  have hsecond : (s.settle msg.timestamp msg.sender).mintRewards msg.timestamp dst =
      .ok ((s.settle msg.timestamp msg.sender).settle msg.timestamp dst) :=
    mintRewards_ok hsettled (Nat.le_refl _) hnow hdst
  unfold transferBurnScore
  dsimp only
  rw [require, if_pos hdst, ok_bind, require, if_pos hexempt, ok_bind, require,
    if_pos hn₀, ok_bind, require, if_pos hn, ok_bind,
    mintRewards_ok hg.inv hg.clock hnow msg.sender_ne_zero, ok_bind,
    hsecond, ok_bind]
  simp only [settle_burnScore]
  rw [checkedSub_of_le hn, ok_bind, checkedAdd_of_lt hscore, ok_bind]
  rfl

end State

end CyberCash
