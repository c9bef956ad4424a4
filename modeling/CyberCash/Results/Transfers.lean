import CyberCash.Semantics.History
import CyberCash.Results.BurnScore
import CyberCash.Results.Spendability

/-!
# Transfers

What a transfer changes of everything the views show, to the last unit and at
its own timestamp: claiming, moving the index and raising `totalBurned` inside
the call are invisible to everybody. And `transferFrom`, a second spelling of
the same body, does to the token what the transfer of the owner would do.
-/

namespace CyberCash

open Solidity Function State TimedRun LazyIndex

/-! ## The views around a transfer -/

theorem reserveBuffer_eq : RESERVE_BUFFER = 10 ^ 9 := by decide +kernel

namespace Inv

variable {s : State} {now x : ℕ} {src dst : Address}

/-- The balance equation of a transfer. -/
theorem send_balance (h : Inv s) (hclock : s.lastMintTime ≤ now)
    (hx : x ≤ s.balanceAt now src) (dst b : Address) :
    (s.send now src dst x).balanceAt now b +
        ((if b = src then x else 0) +
          (if b = s.liquidityPool then
            (if s.taxed src dst then s.poolBurn x else 0) else 0)) =
      s.balanceAt now b +
        (if b = dst then x - (if s.taxed src dst then taxOf x else 0) else 0) :=
  balance_of_fine ((h.send_flows hclock hx dst).1 b)

/-- Without burns the amount moves, and nothing else does. -/
theorem send_untaxed (h : Inv s) (hclock : s.lastMintTime ≤ now)
    (hx : x ≤ s.balanceAt now src) (huntaxed : s.taxed src dst = false) :
    (src ≠ dst →
      (s.send now src dst x).balanceAt now src + x = s.balanceAt now src ∧
      (s.send now src dst x).balanceAt now dst = s.balanceAt now dst + x) ∧
    (src = dst → (s.send now src dst x).balanceAt now src = s.balanceAt now src) ∧
    (∀ a, a ≠ src → a ≠ dst →
      (s.send now src dst x).balanceAt now a = s.balanceAt now a) ∧
    (s.send now src dst x).supplyAt now = s.supplyAt now ∧
    (s.send now src dst x).burnScore = s.burnScore ∧
    (s.send now src dst x).totalBurned = s.totalBurned := by
  have hbalance := h.send_balance hclock hx dst
  obtain ⟨-, hscore, hburned, hsupply⟩ := h.send_flows hclock hx dst
  simp only [huntaxed, Bool.false_eq_true, if_false, ite_self, Nat.add_zero,
    Nat.sub_zero] at hbalance hscore hburned hsupply
  have hsrc := hbalance src
  rw [if_pos rfl] at hsrc
  refine ⟨?_, ?_, ?_, hsupply, funext hscore, hburned⟩
  · intro hne
    have hdst := hbalance dst
    rw [if_neg hne.symm, if_pos rfl, Nat.add_zero] at hdst
    rw [if_neg hne, Nat.add_zero] at hsrc
    exact ⟨hsrc, hdst⟩
  · intro hself
    rw [if_pos hself] at hsrc
    exact Nat.add_right_cancel hsrc
  · intro a ha ha'
    have hother := hbalance a
    rwa [if_neg ha, if_neg ha', Nat.add_zero, Nat.add_zero] at hother

/-- With the burns due, the payer's tax is credited to its score. -/
theorem send_taxed (h : Inv s) (hclock : s.lastMintTime ≤ now)
    (hx : x ≤ s.balanceAt now src) (htaxed : s.taxed src dst = true) :
    (src ≠ dst →
      (s.send now src dst x).balanceAt now src + x = s.balanceAt now src ∧
      (s.send now src dst x).balanceAt now dst =
        s.balanceAt now dst + (x - taxOf x)) ∧
    (src = dst →
      (s.send now src dst x).balanceAt now src + taxOf x = s.balanceAt now src) ∧
    (s.send now src dst x).balanceAt now s.liquidityPool + s.poolBurn x =
      s.balanceAt now s.liquidityPool ∧
    (∀ a, a ≠ src → a ≠ dst → a ≠ s.liquidityPool →
      (s.send now src dst x).balanceAt now a = s.balanceAt now a) ∧
    (s.send now src dst x).supplyAt now + (taxOf x + s.poolBurn x) =
      s.supplyAt now ∧
    (s.send now src dst x).burnScore src = s.burnScore src + taxOf x ∧
    (s.send now src dst x).totalBurned = s.totalBurned + taxOf x := by
  have hbalance := h.send_balance hclock hx dst
  obtain ⟨-, hscore, hburned, hsupply⟩ := h.send_flows hclock hx dst
  obtain ⟨hne, hne'⟩ := h.pool_ne_of_taxed htaxed
  have htax := taxOf_le x
  simp only [htaxed, if_true] at hbalance hscore hburned hsupply
  have hsrc := hbalance src
  have hlp := hbalance s.liquidityPool
  rw [if_pos rfl, if_neg hne.symm, Nat.add_zero] at hsrc
  rw [if_neg hne, if_pos rfl, if_neg hne', Nat.zero_add, Nat.add_zero] at hlp
  refine ⟨?_, ?_, hlp, ?_, ?_, ?_, hburned⟩
  · intro hdistinct
    have hdst := hbalance dst
    rw [if_neg hdistinct.symm, if_neg hne'.symm, if_pos rfl, Nat.add_zero] at hdst
    rw [if_neg hdistinct, Nat.add_zero] at hsrc
    exact ⟨hsrc, hdst⟩
  · intro hself
    rw [if_pos hself] at hsrc
    omega
  · intro a ha ha' hapool
    have hother := hbalance a
    rwa [if_neg ha, if_neg hapool, if_neg ha', Nat.add_zero, Nat.add_zero] at hother
  · rwa [← Nat.add_assoc]
  · rw [hscore, if_pos rfl]

/-- What the pool loses, from the balance it is shown. -/
theorem poolBurn_eq (h : Inv s) {pooled : ℕ}
    (hpooled : s.balanceOf now s.liquidityPool = .ok pooled) (x : ℕ) :
    s.poolBurn x = min (2 * x / 1000) (pooled - 10 ^ 9) := by
  rw [balanceOf_eq hpooled, balanceAt_of_idle h.poolIdle, ← reserveBuffer_eq,
    Nat.mul_comm 2]
  rfl

end Inv

namespace State

variable {s : State} {now x : ℕ} {src dst : Address}

theorem taxed_of_launched (h : s.liquidityPool ≠ 0) :
    s.taxed src dst = false ↔
      s.exemptedAddresses src = true ∨ s.exemptedAddresses dst = true := by
  rw [← Bool.not_eq_true, taxed_iff h, not_and_or, Bool.not_eq_false,
    Bool.not_eq_false]

/-- After a transfer the payer holds what it is shown. -/
theorem send_minted (hpool : s.liquidityPool ≠ 0) :
    (s.send now src dst x).rewardsAt now src = 0 := by
  have hclock : (s.send now src dst x).lastMintTime = now := by
    unfold send
    rw [if_neg hpool]
    split <;> rfl
  apply rewardsAt_of_settled hclock
  rw [send_userRewardsPerTokenBurned hpool, send_rewardsPerTokenBurned hpool,
    update_self]

/-- Only the payer is settled and credited. -/
theorem send_other {a : Address} (ha : a ≠ src) (s : State) (now : ℕ)
    (dst : Address) (x : ℕ) :
    (s.send now src dst x).burnScore a = s.burnScore a ∧
      (s.send now src dst x).userRewardsPerTokenBurned a =
        s.userRewardsPerTokenBurned a := by
  rcases s.send_cases now src dst x with
    ⟨-, -, hsend⟩ | ⟨-, -, hsend⟩ | ⟨-, -, hsend⟩
  · rw [hsend]
    exact ⟨rfl, rfl⟩
  · rw [hsend]
    exact ⟨update_of_ne ha _ _, update_of_ne ha _ _⟩
  · rw [hsend]
    exact ⟨rfl, update_of_ne ha _ _⟩

end State

/-! ## The exact effect of a transfer -/

/-- **Exact effect of a transfer**, taxed or exempt, on every balance, the
supply and the scores. -/
theorem transfer_exact_effect {evm : Evm} {t : ℕ} {s s' : State} {msg : Msg}
    {_to : Address} {_amount : ℕ} (hs : Reachable evm t s)
    (ht : t ≤ msg.timestamp) (hlaunched : s.owner = 0)
    (h : s.transfer msg _to _amount = .ok s') :
    let now := msg.timestamp
    let _from := msg.sender
    let balance := s.balanceOf now
    let balance' := s'.balanceOf now
    let tx := 5 * _amount / 1000
    (s.exemptedAddresses _from = false → s.exemptedAddresses _to = false →
      ∀ pooled, balance s.liquidityPool = .ok pooled →
        let lp := min (2 * _amount / 1000) (pooled - 10 ^ 9)
        (_from ≠ _to → Falls (balance _from) (balance' _from) _amount ∧
          Rises (balance _to) (balance' _to) (_amount - tx)) ∧
        (_from = _to → Falls (balance _from) (balance' _from) tx) ∧
        Falls (balance s.liquidityPool) (balance' s.liquidityPool) lp ∧
        (∀ x, balance' s.liquidityPool = .ok x → min pooled (10 ^ 9) ≤ x) ∧
        (∀ a, a ≠ _from → a ≠ _to → a ≠ s.liquidityPool →
          Stays (balance a) (balance' a)) ∧
        Falls (s.totalSupply now) (s'.totalSupply now) (tx + lp) ∧
        s'.burnScore _from = s.burnScore _from + tx ∧
        s'.totalBurned = s.totalBurned + tx) ∧
    (s.exemptedAddresses _from = true ∨ s.exemptedAddresses _to = true →
      (_from ≠ _to → Falls (balance _from) (balance' _from) _amount ∧
        Rises (balance _to) (balance' _to) _amount) ∧
      (_from = _to → Stays (balance _from) (balance' _from)) ∧
      (∀ a, a ≠ _from → a ≠ _to → Stays (balance a) (balance' a)) ∧
      Stays (s.totalSupply now) (s'.totalSupply now) ∧
      s'.burnScore = s.burnScore ∧ s'.totalBurned = s.totalBurned) ∧
    (∀ a, a ≠ _from → s'.burnScore a = s.burnScore a) ∧
    (∀ x, balance' _from = .ok x → s'._balances _from = x) ∧
    (now < 2 ^ 64 →
      (∀ a, (∃ x, balance a = .ok x) ∧ ∃ x, balance' a = .ok x) ∧
      (∃ x, s.totalSupply now = .ok x) ∧ ∃ x, s'.totalSupply now = .ok x) := by
  have hg := hs.good.later ht
  have hpool : s.liquidityPool ≠ 0 := hg.inv.phase.mp hlaunched
  rw [transfer_eq_sendBody] at h
  obtain ⟨hsrc₀, -, hx, hword, rfl⟩ := sendBody_inv hg h
  dsimp only
  refine ⟨?_, ?_, ?_, ?_, ?_⟩
  · intro hfrom hto pooled hpooled
    have htaxed := (taxed_iff hpool).mpr ⟨hfrom, hto⟩
    obtain ⟨hdistinct, hself, hlp, hothers, hsupply, hscore, hburned⟩ :=
      hg.inv.send_taxed hg.clock hx htaxed
    rw [hg.inv.poolBurn_eq hpooled] at hlp hsupply
    rw [← taxOf_eq]
    refine ⟨?_, ?_, falls_balanceOf hlp, ?_, ?_, falls_totalSupply hsupply, hscore,
      hburned⟩
    · intro hne
      obtain ⟨hsrc, hdst⟩ := hdistinct hne
      exact ⟨falls_balanceOf hsrc, rises_balanceOf hdst⟩
    · intro heq
      exact falls_balanceOf (hself heq)
    · intro x hshown
      rw [balanceOf_eq hshown]
      rw [← balanceOf_eq hpooled] at hlp
      omega
    · intro a ha ha' hapool
      exact stays_balanceOf (hothers a ha ha' hapool)
  · intro hexempt
    have huntaxed := (taxed_of_launched hpool).mpr hexempt
    obtain ⟨hdistinct, hself, hothers, hsupply, hscore, hburned⟩ :=
      hg.inv.send_untaxed hg.clock hx huntaxed
    refine ⟨?_, ?_, ?_, stays_totalSupply hsupply, hscore, hburned⟩
    · intro hne
      obtain ⟨hsrc, hdst⟩ := hdistinct hne
      exact ⟨falls_balanceOf hsrc, rises_balanceOf hdst⟩
    · intro heq
      exact stays_balanceOf (hself heq)
    · intro a ha ha'
      exact stays_balanceOf (hothers a ha ha')
  · intro a ha
    exact (send_other ha s msg.timestamp _to _amount).1
  · intro x hshown
    rw [balanceOf_eq hshown, balanceAt, send_minted hpool, Nat.add_zero]
  · intro hnow
    have hfits := hs.good.fits ht hnow
    have hfits' := (hg.send hsrc₀ hx hword).fits (Nat.le_refl _) hnow
    exact ⟨fun a => ⟨⟨_, hfits.balanceOf a⟩, _, hfits'.balanceOf a⟩,
      ⟨_, hfits.totalSupply⟩, _, hfits'.totalSupply⟩

/-- Account `2` sends account `3` a thousand units at time 400. -/
theorem sample_transfer_effect :
    ∃ s', (sampleState sampleTxs).transfer (traderMsg 400) 3 1000 = .ok s' ∧
      Falls ((sampleState sampleTxs).balanceOf 400 2) (s'.balanceOf 400 2) 1000 ∧
      Rises ((sampleState sampleTxs).balanceOf 400 3) (s'.balanceOf 400 3) 995 ∧
      s'.totalBurned = (sampleState sampleTxs).totalBurned + 5 := by
  obtain ⟨s', h⟩ := exists_of_isOk (by decide +kernel :
    ((sampleState sampleTxs).transfer (traderMsg 400) 3 1000).isOk = true)
  have hpooled := (transfer_exact_effect sampleTxs_reachable (by decide)
    (by decide +kernel) h).2.2.2.2 (by decide)
  obtain ⟨pooled, hpooled⟩ := (hpooled.1 (sampleState sampleTxs).liquidityPool).1
  obtain ⟨hparties, -, -, -, -, -, -, hburned⟩ :=
    (transfer_exact_effect sampleTxs_reachable (by decide) (by decide +kernel) h).1
      (by decide +kernel) (by decide +kernel) pooled hpooled
  obtain ⟨hfalls, hrises⟩ := hparties (by decide)
  exact ⟨s', h, hfalls, hrises, hburned⟩

/-! ## The body of a transfer sees neither allowances nor the log -/

/-- Other allowances, and more log before what is there. -/
def ERC20.tag (allowances : Address → Address → ℕ) (past : List Event)
    (e : ERC20) : ERC20 :=
  { e with _allowances := allowances, logs := past ++ e.logs }

namespace State

def tag (allowances : Address → Address → ℕ) (past : List Event) (s : State) :
    State :=
  { s with toERC20 := s.toERC20.tag allowances past }

variable {s : State} {now x : ℕ} {a src dst : Address}
  {allowances : Address → Address → ℕ} {past : List Event}

@[simp] theorem tag_liquidityPool (s : State) :
    (s.tag allowances past).liquidityPool = s.liquidityPool := rfl

@[simp] theorem tag_exemptedAddresses (s : State) :
    (s.tag allowances past).exemptedAddresses = s.exemptedAddresses := rfl

theorem onERC20_tag {f : ERC20 → Result ERC20}
    (hf : ∀ e, f (e.tag allowances past) = (f e).map (ERC20.tag allowances past))
    (s : State) :
    (s.tag allowances past).onERC20 f = (s.onERC20 f).map (tag allowances past) := by
  unfold onERC20
  rw [show (s.tag allowances past).toERC20 = s.toERC20.tag allowances past from rfl,
    hf]
  cases f s.toERC20 with
  | error e => rfl
  | ok e => rfl

theorem _mint_tag (a : Address) (x : ℕ) (e : ERC20) :
    (e.tag allowances past)._mint a x =
      (e._mint a x).map (ERC20.tag allowances past) := by
  refine bind_map_right fun _ => bind_map_right fun supply => ?_
  simp [ERC20.tag, Except.map]

theorem _burn_tag (a : Address) (x : ℕ) (e : ERC20) :
    (e.tag allowances past)._burn a x =
      (e._burn a x).map (ERC20.tag allowances past) := by
  refine bind_map_right fun _ => bind_map_right fun _ => ?_
  simp [ERC20.tag, Except.map]

theorem _transfer_tag (src dst : Address) (x : ℕ) (e : ERC20) :
    (e.tag allowances past)._transfer src dst x =
      (e._transfer src dst x).map (ERC20.tag allowances past) := by
  refine bind_map_right fun _ => bind_map_right fun _ => bind_map_right fun _ => ?_
  simp [ERC20.tag, Except.map]

theorem mintRewards_tag (s : State) (now : ℕ) (a : Address) :
    (s.tag allowances past).mintRewards now a =
      (s.mintRewards now a).map (tag allowances past) := by
  refine bind_map_right fun rewards => ?_
  rw [onERC20_tag (_mint_tag a rewards)]
  refine bind_map_map fun s => ?_
  refine bind_map_right fun added => bind_map_right fun scaled =>
    bind_map_right fun perToken => bind_map_right fun index =>
      bind_map_right fun pending => bind_map_right fun rest => ?_
  simp [tag, ERC20.tag, Except.map]

theorem burnOnTransfer_tag (s : State) (now : ℕ) (src : Address) (x : ℕ) :
    (s.tag allowances past).burnOnTransfer now src x =
      (s.burnOnTransfer now src x).map
        (Prod.map (tag allowances past) id) := by
  refine bind_map_right fun pooled => bind_map_right fun can =>
    bind_map_right fun scaledTx => bind_map_right fun burnedFromTx =>
      bind_map_right fun scaledLP => bind_map_right fun requested =>
        bind_map_right fun sendAmount => ?_
  rw [onERC20_tag (_burn_tag src burnedFromTx)]
  refine bind_map_map fun s => ?_
  rw [onERC20_tag (_burn_tag (s.tag allowances past).liquidityPool _)]
  refine bind_map_map fun s => bind_map_right fun total =>
    bind_map_right fun score => ?_
  simp [tag, ERC20.tag, Except.map]

theorem sendBody_tag (s : State) (now : ℕ) (src dst : Address) (x : ℕ) :
    (s.tag allowances past).sendBody now src dst x =
      (s.sendBody now src dst x).map (tag allowances past) := by
  have hpay (x : ℕ) (s : State) :
      (s.tag allowances past).onERC20 (·._transfer src dst x) =
        (s.onERC20 (·._transfer src dst x)).map (tag allowances past) :=
    onERC20_tag (_transfer_tag src dst x) s
  unfold sendBody
  rw [tag_liquidityPool]
  by_cases hpool : s.liquidityPool = 0
  · rw [if_neg (not_not_intro hpool), if_neg (not_not_intro hpool)]
    exact hpay x s
  · rw [if_pos hpool, if_pos hpool, mintRewards_tag]
    refine bind_map_map fun s => ?_
    rw [tag_exemptedAddresses]
    by_cases htaxed : s.exemptedAddresses src = false ∧ s.exemptedAddresses dst = false
    · rw [if_pos htaxed, if_pos htaxed, burnOnTransfer_tag]
      exact bind_map_map fun p => hpay p.2 p.1
    · rw [if_neg htaxed, if_neg htaxed]
      exact hpay x s

/-- Equal but for the allowances and the log. -/
def Alike (s s' : State) : Prop :=
  { s' with _allowances := s._allowances, logs := s.logs } = s

theorem Alike.symm {s s' : State} (h : s.Alike s') : s'.Alike s := by
  unfold Alike at h ⊢
  rw [← h]

theorem spend_alike (s : State) (owner spender : Address) (x : ℕ) :
    s.Alike (s.spend owner spender x) := by
  unfold Alike spend ERC20.spent
  split <;> rfl

/-- The state without allowances and log, from which both are tagged. -/
def bare (s : State) : State := { s with _allowances := fun _ _ => 0, logs := [] }

theorem tag_bare (s : State) (allowances : Address → Address → ℕ)
    (past : List Event) :
    s.bare.tag allowances past =
      { s with _allowances := allowances, logs := past } := by
  simp [tag, bare, ERC20.tag]

theorem sendBody_alike {s s' r : State} (hsame : s.Alike s')
    (h : s'.sendBody now src dst x = .ok r) :
    ∃ r', s.sendBody now src dst x = .ok r' ∧ r'.Alike r := by
  have htagged : s' = s'.bare.tag s'._allowances s'.logs := (tag_bare s' _ _).symm
  rw [htagged, sendBody_tag, map_eq_ok] at h
  obtain ⟨r₀, h, rfl⟩ := h
  refine ⟨r₀.tag s._allowances s.logs, ?_, ?_⟩
  · have htagged' : s = s'.bare.tag s._allowances s.logs :=
      ((tag_bare s' _ _).trans hsame).symm
    rw [htagged', sendBody_tag, h, ← htagged']
    rfl
  · rfl

theorem send_claimed (h : Inv s) (now : ℕ) (src dst a : Address) (x : ℕ) :
    (s.send now src dst x).claimed a =
      s.claimed a + if a = src then s.rewardsAt now src else 0 := by
  have hlp (y : ℕ) : Event.amountClaimed a (.burnedTokensFromLP y) = 0 := rfl
  have hclaims : Event.amountClaimed a (.rewardsClaimed src (s.rewardsAt now src)) =
      if a = src then s.rewardsAt now src else 0 := if_congr eq_comm rfl rfl
  unfold claimed
  rw [tally_send (special_amountClaimed a) h, hlp, ite_self, Nat.add_zero, hclaims]
  -- before the launch there is nothing to claim
  by_cases hpool : s.liquidityPool = 0
  · have hidle := (h.dormant (h.owner_of_no_pool hpool)).2.2 src
    rw [if_pos hpool, rewardsAt_of_idle hidle, ite_self]
  · rw [if_neg hpool]

end State

/-- **`transferFrom` agrees with `transfer`.** -/
theorem transferFrom_agrees_with_transfer {evm : Evm} {t : ℕ} {s : State}
    (hs : Reachable evm t s) (msg : Msg) (_from _to : Address) (_amount : ℕ) :
    let spender := msg.sender
    (∀ s₂, s.transferFrom msg _from _to _amount = .ok s₂ →
      ∃ (hfrom : _from ≠ 0) (s₁ : State),
        s.transfer ⟨_from, hfrom, msg.timestamp⟩ _to _amount = .ok s₁ ∧
        { s₂ with _allowances := s₁._allowances, logs := s₁.logs } = s₁ ∧
        (s._allowances _from spender ≠ 2 ^ 256 - 1 →
          s₂._allowances _from spender + _amount = s._allowances _from spender) ∧
        (s._allowances _from spender = 2 ^ 256 - 1 →
          s₂._allowances _from spender = s._allowances _from spender) ∧
        (∀ o p, ¬(o = _from ∧ p = spender) →
          s₂._allowances o p = s._allowances o p) ∧
        (∀ a, a ≠ _from → s₂.burnScore a = s.burnScore a ∧
          s₂.userRewardsPerTokenBurned a = s.userRewardsPerTokenBurned a ∧
          s₂.claimed a = s.claimed a) ∧
        (∀ rewards, s.userRewards msg.timestamp _from = .ok rewards →
          s₂.claimed _from = s.claimed _from + rewards)) ∧
    (∀ (hfrom : _from ≠ 0) s₁,
      s.transfer ⟨_from, hfrom, msg.timestamp⟩ _to _amount = .ok s₁ →
      (s._allowances _from spender = 2 ^ 256 - 1 ∨
        _amount ≤ s._allowances _from spender) →
      ∃ s₂, s.transferFrom msg _from _to _amount = .ok s₂) := by
  have hg := hs.good
  dsimp only
  constructor
  · intro s₂ h
    rw [transferFrom_eq_sendBody, bind_eq_ok] at h
    obtain ⟨s', hspend, h⟩ := h
    obtain ⟨e, he, rfl⟩ := onERC20_eq_ok.mp hspend
    obtain ⟨hallow, rfl⟩ := ERC20._spendAllowance_eq_ok.mp he
    have hsame := s.spend_reapproves _from msg.sender _amount
    change (s.spend _from msg.sender _amount).sendBody _ _ _ _ = _ at h
    obtain ⟨s₁, h₁, halike⟩ :=
      sendBody_alike (s.spend_alike _from msg.sender _amount) h
    obtain ⟨hfrom, -, -, -, rfl⟩ := sendBody_inv (hg.reapproves hsame) h
    have hinv := hg.inv.reapproves hsame
    -- the body writes no allowance
    have hspent (o p : Address) :
        ((s.spend _from msg.sender _amount).send msg.timestamp _from _to
          _amount)._allowances o p =
            (s.toERC20.spent _from msg.sender _amount)._allowances o p := by
      rw [send_allowances]
      rfl
    have hclaimed (a : Address) :=
      send_claimed hinv msg.timestamp _from _to a _amount
    refine ⟨hfrom, s₁, h₁, halike, ?_, ?_, ?_, ?_, ?_⟩
    · intro hfinite
      have hcover : _amount ≤ s._allowances _from msg.sender :=
        (hallow.resolve_left hfinite).1
      rw [hspent, ERC20.spent_finite hfinite hcover (hg.allowance _ _)]
      exact Nat.sub_add_cancel hcover
    · intro hinfinite
      rw [hspent, ERC20.spent_infinite hinfinite]
    · intro o p hother
      rw [hspent, ERC20.spent_other hother]
    · intro a ha
      obtain ⟨hscore, hcheckpoint⟩ := send_other ha
        (s.spend _from msg.sender _amount) msg.timestamp _to _amount
      refine ⟨?_, ?_, ?_⟩
      · rw [hscore, hsame.burnScore]
      · rw [hcheckpoint, hsame.userRewardsPerTokenBurned]
      · rw [hclaimed, if_neg ha, Nat.add_zero]
        exact tally_reapproves (special_amountClaimed a) hsame
    · intro rewards hrewards
      rw [hclaimed, if_pos rfl, rewardsAt_reapproves hsame, userRewards_eq hrewards]
      congr 1
      exact tally_reapproves (special_amountClaimed _from) hsame
  · intro hfrom s₁ h hallow
    have hspend := (_spendAllowance_ok_iff hfrom msg.sender_ne_zero).mpr
      ⟨hallow, rfl⟩
    obtain ⟨s₂, h₂, -⟩ :=
      sendBody_alike (s.spend_alike _from msg.sender _amount).symm h
    exact ⟨s₂, bind_eq_ok.mpr ⟨_, hspend, h₂⟩⟩

/-- Account `2` lets account `3` spend five thousand units. -/
def allowTx : Tx := ⟨traderMsg 400, .approve 3 5000#256⟩

/-- Account `3` spends a thousand of them on account `1`. -/
theorem sample_transferFrom_agrees :
    ∃ s₁ s₂,
      (sampleState (sampleTxs ++ [allowTx])).transfer (traderMsg 500) 1 1000 = .ok s₁ ∧
      (sampleState (sampleTxs ++ [allowTx])).transferFrom (friendMsg 500) 2 1 1000 =
        .ok s₂ ∧
      { s₂ with _allowances := s₁._allowances, logs := s₁.logs } = s₁ ∧
      s₂._allowances 2 3 + 1000 =
        (sampleState (sampleTxs ++ [allowTx]))._allowances 2 3 := by
  have hreach : Reachable sampleEvm 400 (sampleState (sampleTxs ++ [allowTx])) :=
    sampleState_reachable (by decide +kernel) (by decide) (by decide)
  obtain ⟨s₂, h₂⟩ := exists_of_isOk (by decide +kernel :
    ((sampleState (sampleTxs ++ [allowTx])).transferFrom (friendMsg 500) 2 1
      1000).isOk = true)
  obtain ⟨hfrom, s₁, h₁, hsame, hcharged, -⟩ :=
    (transferFrom_agrees_with_transfer hreach (friendMsg 500) 2 1 1000).1 s₂ h₂
  exact ⟨s₁, s₂, h₁, h₂, hsame, hcharged (by decide +kernel)⟩

end CyberCash
