import CyberCash.Semantics.Invariant

/-!
# A call that succeeds has its plain effect

From a good state, each function that writes storage is inverted once: if it
returned, its checks held and the state is the plain effect of the call. The
unchecked arithmetic of the inherited token is exact because the books balance
at every intermediate state. `step_effect` is what everything else uses.
-/

namespace CyberCash

open Solidity Function State TimedRun

namespace State

variable {s s' : State} {now x y n : ℕ} {a src dst : Address}

theorem onERC20_eq_ok {f : ERC20 → Result ERC20} :
    s.onERC20 f = .ok s' ↔
      ∃ e, f s.toERC20 = .ok e ∧ s' = { s with toERC20 := e } := by
  simp only [onERC20, bind_eq_ok, pure_eq_ok, Except.ok.injEq]
  constructor <;> exact fun ⟨e, he, heq⟩ => ⟨e, he, heq.symm⟩

theorem onPermit_eq_ok {f : ERC20Permit → Result ERC20Permit} :
    s.onPermit f = .ok s' ↔
      ∃ e, f s.toERC20Permit = .ok e ∧ s' = { s with toERC20Permit := e } := by
  simp only [onPermit, bind_eq_ok, pure_eq_ok, Except.ok.injEq]
  constructor <;> exact fun ⟨e, he, heq⟩ => ⟨e, he, heq.symm⟩

/-- `mintRewards` inverted. The second reading of `totalRewards` sees what the
first saw: `_mint` touches neither the owner nor the clock. -/
theorem mintRewards_inv (hbooks : s.toERC20.Books)
    (h : s.mintRewards now a = .ok s') :
    a ≠ 0 ∧ (s.owner = 0 → s.lastMintTime ≤ now) ∧
      (s.settle now a)._totalSupply < 2 ^ 256 ∧ s' = s.settle now a := by
  simp only [mintRewards, bind_eq_ok, onERC20_eq_ok, ERC20._mint_eq_ok hbooks,
    totalRewards_eq_ok, checkedMul_eq_ok, checkedDiv_eq_ok, checkedAdd_eq_ok,
    checkedSub_eq_ok, pure_eq_ok, Except.ok.injEq] at h
  obtain ⟨rewards, hrewards, _, ⟨_, ⟨ha, hword, rfl⟩, rfl⟩, _, ⟨hclock, rfl⟩, _,
    ⟨-, rfl⟩, _, ⟨-, rfl⟩, _, ⟨-, rfl⟩, _, ⟨-, rfl⟩, _, ⟨-, rfl⟩, rfl⟩ := h
  rw [userRewards_eq hrewards] at hword ⊢
  exact ⟨ha, fun howner => (hclock howner).1, hword, rfl⟩

theorem min_eq_ite (x y : ℕ) : min x y = if x < y then x else y := by
  split <;> omega

/-- The clamp of the source, as a truncated difference. -/
theorem canBurnFromLP_eq {pooled can : ℕ}
    (h : (if RESERVE_BUFFER < pooled then checkedSub pooled RESERVE_BUFFER
      else .ok 0 : Result ℕ) = .ok can) : can = pooled - RESERVE_BUFFER := by
  split at h
  · exact (checkedSub_eq_ok.mp h).2
  · simp only [Except.ok.injEq] at h
    omega

/-- `burnOnTransfer` inverted, for a pool without score: what the pool shows is
then what it holds. -/
theorem burnOnTransfer_inv (hbooks : s.toERC20.Books)
    (hidle : s.burnScore s.liquidityPool = 0)
    (h : s.burnOnTransfer now src x = .ok (s', y)) :
    taxOf x ≤ s._balances src ∧ s' = s.levy src x ∧ y = x - taxOf x := by
  simp only [burnOnTransfer, bind_eq_ok, onERC20_eq_ok, checkedMul_eq_ok,
    checkedDiv_eq_ok, checkedAdd_eq_ok, checkedSub_eq_ok,
    ERC20._burn_eq_ok hbooks, pure_eq_ok, Except.ok.injEq] at h
  obtain ⟨pooled, hpooled, can, hcan, _, ⟨-, rfl⟩, _, ⟨-, rfl⟩, _, ⟨-, rfl⟩, _,
    ⟨-, rfl⟩, _, ⟨-, rfl⟩, _, ⟨_, ⟨-, htax, rfl⟩, rfl⟩, _, ⟨e, hburn, rfl⟩, _,
    ⟨-, rfl⟩, _, ⟨-, rfl⟩, h⟩ := h
  have hpool : pooled = s._balances s.liquidityPool := by
    rw [balanceOf_eq hpooled, balanceAt_of_idle hidle]
  -- the pool is burned from the books that the tax has left
  rw [canBurnFromLP_eq hcan, hpool, ← min_eq_ite] at hburn h
  rw [ERC20._burn_eq_ok (hbooks.burned htax)] at hburn
  obtain ⟨-, -, rfl⟩ := hburn
  obtain ⟨rfl, rfl⟩ := Prod.mk.inj h
  exact ⟨htax, rfl, rfl⟩

/-- The body that `transfer` and `transferFrom` both spell out. -/
def sendBody (s : State) (now : ℕ) (src dst : Address) (x : ℕ) :
    Result State := do
  if s.liquidityPool ≠ 0 then
    let s ← s.mintRewards now src
    if s.exemptedAddresses src = false ∧ s.exemptedAddresses dst = false then
      let (s, x) ← s.burnOnTransfer now src x
      s.onERC20 (·._transfer src dst x)
    else
      s.onERC20 (·._transfer src dst x)
  else
    s.onERC20 (·._transfer src dst x)

theorem transfer_eq_sendBody (s : State) (msg : Msg) (dst : Address) (x : ℕ) :
    s.transfer msg dst x = s.sendBody msg.timestamp msg.sender dst x := rfl

theorem transferFrom_eq_sendBody (s : State) (msg : Msg) (src dst : Address)
    (x : ℕ) :
    s.transferFrom msg src dst x =
      (s.onERC20 (·._spendAllowance src msg.sender x) >>= fun s =>
        s.sendBody msg.timestamp src dst x) := rfl

theorem taxed_iff (hpool : s.liquidityPool ≠ 0) :
    s.taxed src dst = true ↔
      s.exemptedAddresses src = false ∧ s.exemptedAddresses dst = false := by
  unfold taxed
  rw [decide_eq_true hpool, Bool.true_and, Bool.and_eq_true, Bool.not_eq_true',
    Bool.not_eq_true']

theorem taxed_settle (s : State) (now : ℕ) (a src dst : Address) :
    (s.settle now a).taxed src dst = s.taxed src dst := by
  unfold taxed
  rfl

/-- The check of the source, made after the payer has been settled. -/
theorem burns_settle_iff (now : ℕ) (a : Address) (hpool : s.liquidityPool ≠ 0) :
    ((s.settle now a).exemptedAddresses src = false ∧
      (s.settle now a).exemptedAddresses dst = false) ↔
        s.taxed src dst = true := by
  rw [← taxed_settle s now a, taxed_iff (s := s.settle now a) hpool]

theorem _transfer_inv (hbooks : s.toERC20.Books)
    (h : s.onERC20 (·._transfer src dst x) = .ok s') :
    src ≠ 0 ∧ dst ≠ 0 ∧ x ≤ s._balances src ∧ s' = s.pay src dst x := by
  rw [onERC20_eq_ok] at h
  obtain ⟨e, he, rfl⟩ := h
  rw [ERC20._transfer_eq_ok hbooks] at he
  obtain ⟨hsrc, hdst, hx, rfl⟩ := he
  exact ⟨hsrc, hdst, hx, rfl⟩

/-- A body that returned ran no earlier than the last accrual: the claim has
checked it. -/
theorem sendBody_inv {t : ℕ} (hg : Good t s)
    (h : s.sendBody now src dst x = .ok s') :
    src ≠ 0 ∧ dst ≠ 0 ∧ x ≤ s.balanceAt now src ∧
      (s.send now src dst x)._totalSupply < 2 ^ 256 ∧
      s' = s.send now src dst x := by
  unfold sendBody at h
  rcases s.send_cases now src dst x with
    ⟨hpool, -, hsend⟩ | ⟨hpool, htaxed, hsend⟩ | ⟨hpool, hexempt, hsend⟩
  · rw [if_neg (not_not_intro hpool)] at h
    obtain ⟨hsrc, hdst, hx, rfl⟩ := _transfer_inv hg.books h
    rw [hsend, hg.inv.balanceAt_no_pool hpool]
    exact ⟨hsrc, hdst, hx, hg.word, rfl⟩
  · rw [if_pos hpool, bind_eq_ok] at h
    obtain ⟨s₁, hmint, h⟩ := h
    obtain ⟨hsrc, hclock, hword, rfl⟩ := mintRewards_inv hg.books hmint
    replace hclock := hclock (hg.inv.launched hpool)
    have hbooks := hg.inv.settle_books hclock hword
    rw [if_pos ((burns_settle_iff now src hpool).mpr htaxed), bind_eq_ok] at h
    obtain ⟨⟨s₂, y⟩, hburn, h⟩ := h
    obtain ⟨htax, rfl, rfl⟩ := burnOnTransfer_inv (s := s.settle now src)
      hbooks hg.inv.poolIdle hburn
    have hlevied := hg.inv.levy_settle hclock hsrc htaxed htax
    have hword' : ((s.settle now src).levy src x)._totalSupply < 2 ^ 256 :=
      (Nat.sub_le _ _).trans_lt ((Nat.sub_le _ _).trans_lt hword)
    obtain ⟨-, hdst, hrest, rfl⟩ := _transfer_inv ⟨hlevied.sum, hword'⟩ h
    -- the tax and the rest were both there, so the whole amount was
    have hx : x ≤ s.balanceAt now src := by
      rw [hg.inv.levy_settle_balance htaxed] at hrest
      rw [Inv.settle_balance] at htax
      omega
    rw [hsend, pay_totalSupply]
    exact ⟨hsrc, hdst, hx, hword', rfl⟩
  · rw [if_pos hpool, bind_eq_ok] at h
    obtain ⟨s₁, hmint, h⟩ := h
    obtain ⟨hsrc, hclock, hword, rfl⟩ := mintRewards_inv hg.books hmint
    have hbooks := hg.inv.settle_books (hclock (hg.inv.launched hpool)) hword
    rw [if_neg (mt (burns_settle_iff now src hpool).mp
      (Bool.eq_false_iff.mp hexempt))] at h
    obtain ⟨-, hdst, hx, rfl⟩ := _transfer_inv hbooks h
    rw [Inv.settle_balance] at hx
    rw [hsend, pay_totalSupply]
    exact ⟨hsrc, hdst, hx, hword, rfl⟩

theorem initialise_inv {msg : Msg} {pool migrator : Address}
    (h : s.initialise msg pool migrator = .ok s') :
    msg.sender = s.owner ∧ pool ≠ 0 ∧ migrator ≠ 0 ∧
      s' = s.launch msg.timestamp pool migrator := by
  simp only [initialise, bind_eq_ok, require_eq_ok, pure_eq_ok,
    Except.ok.injEq] at h
  obtain ⟨_, howner, _, hpool, _, hmigrator, rfl⟩ := h
  exact ⟨howner, hpool, hmigrator, rfl⟩

theorem transferBurnScore_inv {msg : Msg} (hg : Good msg.timestamp s)
    (h : s.transferBurnScore msg dst n = .ok s') :
    dst ≠ 0 ∧ s.exemptedAddresses dst = false ∧ n ≠ 0 ∧
      n ≤ s.burnScore msg.sender ∧
      (s.moveScore msg.timestamp msg.sender dst n)._totalSupply < 2 ^ 256 ∧
      s' = s.moveScore msg.timestamp msg.sender dst n := by
  simp only [transferBurnScore, bind_eq_ok, require_eq_ok, checkedSub_eq_ok,
    checkedAdd_eq_ok, pure_eq_ok, Except.ok.injEq] at h
  obtain ⟨_, hdst, _, hexempt, _, hn₀, _, hn, s₁, h₁, s₂, h₂, _, ⟨-, rfl⟩, _,
    ⟨-, rfl⟩, rfl⟩ := h
  obtain ⟨-, -, hword₁, rfl⟩ := mintRewards_inv hg.books h₁
  have hsettled := hg.inv.settle hg.clock msg.sender
  obtain ⟨-, -, hword₂, rfl⟩ := mintRewards_inv ⟨hsettled.sum, hword₁⟩ h₂
  exact ⟨hdst, hexempt, hn₀, hn, hword₂, rfl⟩

/-! ## The approve family -/

theorem _approve_reapproves {f : ERC20 → Result ERC20}
    (hf : ∀ {e e'}, f e = .ok e' → ∃ owner spender x,
      x < 2 ^ 256 ∧ e._approve owner spender x = .ok e')
    (h : s.onERC20 f = .ok s') : s.Reapproves s' := by
  obtain ⟨e, he, rfl⟩ := onERC20_eq_ok.mp h
  obtain ⟨owner, spender, x, hx, happrove⟩ := hf he
  obtain ⟨-, -, rfl⟩ := ERC20._approve_eq_ok.mp happrove
  exact s.approved_reapproves s._nonces owner spender hx

theorem permit_reapproves {evm : Evm} {msg : Msg} {owner spender : Address}
    {value : Uint256} {deadline : ℕ} {v : Byte} {r sig : BitVec 256}
    (h : s.onPermit (·.permit evm msg owner spender value.toNat deadline v r sig) =
      .ok s') : s.Reapproves s' := by
  obtain ⟨e, he, rfl⟩ := onPermit_eq_ok.mp h
  simp only [ERC20Permit.permit, ERC20Permit._useNonce, bind_eq_ok,
    ERC20._approve_eq_ok, pure_eq_ok, Except.ok.injEq] at he
  obtain ⟨_, -, _, -, _, -, _, ⟨-, -, rfl⟩, rfl⟩ := he
  exact s.approved_reapproves _ owner spender value.isLt

end State

/-! ## Steps -/

/-- **Step inversion.** A successful call from a good state is one of the four
effects. -/
theorem step_effect {evm : Evm} {s s' : State} {tx : Tx} (hg : Good tx.now s)
    (h : step evm s tx = .ok s') : Effect s tx s' := by
  obtain ⟨msg, call⟩ := tx
  cases call with
  | initialise pool migrator =>
      obtain ⟨howner, hpool, hmigrator, rfl⟩ := initialise_inv h
      exact .launch rfl howner hpool hmigrator
  | transfer dst x =>
      change s.transfer msg dst x.toNat = .ok s' at h
      rw [transfer_eq_sendBody] at h
      obtain ⟨hsrc, hdst, hx, hword, rfl⟩ := sendBody_inv hg h
      exact .send rfl trivial hsrc hdst hx hword
  | transferFrom src dst x =>
      change s.transferFrom msg src dst x.toNat = .ok s' at h
      rw [transferFrom_eq_sendBody, bind_eq_ok] at h
      obtain ⟨s₁, hspend, h⟩ := h
      rw [onERC20_eq_ok] at hspend
      obtain ⟨e, he, rfl⟩ := hspend
      obtain ⟨hallow, rfl⟩ := ERC20._spendAllowance_eq_ok.mp he
      -- the body runs in the charged state
      let tx : Tx := ⟨msg, .transferFrom src dst x⟩
      obtain ⟨hsrc, hdst, hx, hword, rfl⟩ :=
        sendBody_inv (s := s.charge tx) (hg.charge tx) h
      rw [balanceAt_charge] at hx
      exact .send rfl (hallow.imp_right And.left) hsrc hdst hx hword
  | transferBurnScore dst n =>
      obtain ⟨hdst, hexempt, hn₀, hn, hword, rfl⟩ := transferBurnScore_inv hg h
      exact .moveScore rfl hdst hexempt hn₀ hn hword
  | approve spender amount =>
      exact .reapprove rfl
        (_approve_reapproves (fun he => ⟨_, _, _, amount.isLt, he⟩) h)
  | increaseAllowance spender addedValue =>
      change s.onERC20 (·.increaseAllowance msg spender addedValue.toNat) = _ at h
      refine .reapprove rfl (_approve_reapproves (fun he => ?_) h)
      simp only [ERC20.increaseAllowance, bind_eq_ok, checkedAdd_eq_ok] at he
      obtain ⟨_, ⟨hword, rfl⟩, he⟩ := he
      exact ⟨_, _, _, hword, he⟩
  | decreaseAllowance spender subtractedValue =>
      change s.onERC20 (·.decreaseAllowance msg spender subtractedValue.toNat) = _
        at h
      refine .reapprove rfl (_approve_reapproves (fun he => ?_) h)
      simp only [ERC20.decreaseAllowance, bind_eq_ok] at he
      obtain ⟨_, -, he⟩ := he
      exact ⟨_, _, _, uncheckedSub_lt _ _, he⟩
  | permit owner spender value deadline v r sig =>
      exact .reapprove rfl (permit_reapproves h)

theorem Good.next {evm : Evm} {t : ℕ} {s s' : State} {tx : Tx} (h : Good t s)
    (ht : t ≤ tx.now) (hnext : Next evm s tx s') : Good tx.now s' :=
  h.effect ht (step_effect (h.later ht) hnext)

/-! ## Reachable states are good -/

theorem constructor_inv {t : ℕ} {owner : Address} {g : State}
    (h : State.constructor t owner = .ok g) :
    owner ≠ 0 ∧ g = { blank with
      _balances := update (fun _ => 0) owner INITIAL_SUPPLY
      _totalSupply := INITIAL_SUPPLY
      logs := [.transfer 0 owner INITIAL_SUPPLY]
      owner := owner
      lastMintTime := t
      exemptedAddresses := fun a => decide (a ∈ dexRouters) } := by
  have hbooks : ({ blank with owner := owner, lastMintTime := t } :
      State).toERC20.Books := ⟨by simp [blank], Nat.two_pow_pos 256⟩
  simp only [State.constructor, bind_eq_ok, require_eq_ok, onERC20_eq_ok,
    ERC20._mint_eq_ok hbooks, pure_eq_ok, Except.ok.injEq] at h
  obtain ⟨_, howner, _, ⟨_, ⟨-, -, rfl⟩, rfl⟩, rfl⟩ := h
  refine ⟨howner, ?_⟩
  simp [ERC20.minted, blank]

theorem constructor_good {t : ℕ} {owner : Address} {g : State}
    (h : State.constructor t owner = .ok g) : Good t g := by
  obtain ⟨howner, rfl⟩ := constructor_inv h
  refine ⟨⟨?_, ⟨?_, ?_, ?_⟩, ?_, ?_, ?_, ?_, rfl, ?_, ?_⟩, ?_, Nat.le_refl _, ?_⟩
  · exact sum_only_key owner INITIAL_SUPPLY
  · intro a
    exact Nat.le_refl _
  · simp [ledger, blank]
  · simp [ledger, blank, LazyIndex.Ledger.claim]
  · exact iff_of_false howner (fun h => h rfl)
  · intro _
    exact ⟨rfl, rfl, fun _ => rfl⟩
  · intro hpool
    exact absurd rfl hpool
  · intro a _
    rfl
  · show INITIAL_SUPPLY + 0 + 1 ≤ INITIAL_SUPPLY + MINT_PER_SECOND * t + 1
    omega
  · exact Nat.zero_le _
  · show INITIAL_SUPPLY < 2 ^ 256
    decide +kernel
  · intro holder spender
    exact Nat.two_pow_pos 256

theorem Good.run {evm : Evm} {t t' : ℕ} {s s' : State} {steps : List TokenStep}
    (h : Good t s) (hrun : TokenRun evm t s steps t' s') : Good t' s' :=
  hrun.invariant (fun hs ht hnext => hs.next ht hnext) h

theorem Reachable.good {evm : Evm} {t : ℕ} {s : State}
    (h : Reachable evm t s) : Good t s := by
  obtain ⟨t₀, owner, g, steps, hg, hrun⟩ := h
  exact (constructor_good hg).run hrun

end CyberCash
