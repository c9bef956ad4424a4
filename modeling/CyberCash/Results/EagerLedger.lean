import CyberCash.Semantics.EagerToken
import CyberCash.Results.Solvency

/-!
# Lazy rewards are eager rewards

The contract never visits all accounts. It agrees nevertheless, call by call and
revert by revert, with the abstract token that does: one lemma for each kind of
call, the step from these, and a history by induction on its calls. Whatever is
true of the histories of the abstract token is thereby true of the contract.
-/

namespace CyberCash

open Solidity Function State LazyIndex

/-- A call compared with a guarded operation: it succeeds under the guard, with
the result of the operation, and under no other condition. -/
theorem toOption_map_guard {r : Result State} {c : Prop} [Decidable c]
    {e : EagerToken} (hok : c → ∃ s', r = .ok s' ∧ s'.eager = e)
    (hinv : ∀ {s'}, r = .ok s' → c) :
    r.toOption.map State.eager = if c then some e else none := by
  split
  · next hc =>
    obtain ⟨s', rfl, rfl⟩ := hok hc
    rfl
  · next hc =>
    cases hr : r with
    | error _ => rfl
    | ok s' => exact absurd (hinv hr) hc

namespace State

variable {evm : Evm} {s : State} {msg : Msg} {a : Address}

/-! ## Each kind of call -/

theorem eager_initialise (s : State) (msg : Msg) (pool migrator : Address) :
    (s.initialise msg pool migrator).toOption.map State.eager =
      if msg.sender = s.owner ∧ pool ≠ 0 ∧ migrator ≠ 0 then
        some (s.eager.launch msg.timestamp pool migrator)
      else none := by
  apply toOption_map_guard
  · rintro ⟨hsender, hpool, hmigrator⟩
    refine ⟨s.launch msg.timestamp pool migrator, ?_,
      eager_launch s msg.timestamp pool migrator⟩
    unfold initialise
    rw [require, if_pos hsender, ok_bind, require, if_pos hpool, ok_bind, require,
      if_pos hmigrator, ok_bind]
    rfl
  · intro s' h
    obtain ⟨hsender, hpool, hmigrator, -⟩ := initialise_inv h
    exact ⟨hsender, hpool, hmigrator⟩

theorem eager_transfer (hg : Good msg.timestamp s) (hnow : msg.timestamp < 2 ^ 64)
    (dst : Address) (x : ℕ) :
    (s.transfer msg dst x).toOption.map State.eager =
      if dst ≠ 0 ∧ x ≤ s.eager.balance msg.timestamp msg.sender then
        some (s.eager.send msg.timestamp msg.sender dst x)
      else none := by
  rw [eager_balance hg.inv, transfer_eq_sendBody]
  apply toOption_map_guard
  · rintro ⟨hdst, hx⟩
    exact ⟨_, sendBody_ok hg hnow msg.sender_ne_zero hdst hx,
      eager_send hg.inv hg.clock hx dst⟩
  · intro s' h
    obtain ⟨-, hdst, hx, -⟩ := sendBody_inv hg h
    exact ⟨hdst, hx⟩

theorem eager_transferFrom (hg : Good msg.timestamp s)
    (hnow : msg.timestamp < 2 ^ 64) (src dst : Address) (x : ℕ) :
    (s.transferFrom msg src dst x).toOption.map State.eager =
      if (s.eager.allowance src msg.sender = uintMax ∨
            x ≤ s.eager.allowance src msg.sender) ∧
          src ≠ 0 ∧ dst ≠ 0 ∧ x ≤ s.eager.balance msg.timestamp src then
        some ((s.eager.spend src msg.sender x).send msg.timestamp src dst x)
      else none := by
  have hspent := s.spend_reapproves src msg.sender x
  have hcharged : Good msg.timestamp (s.spend src msg.sender x) :=
    hg.reapproves hspent
  have hsame := balanceAt_reapproves hspent msg.timestamp src
  rw [eager_balance hg.inv, transferFrom_eq_sendBody]
  apply toOption_map_guard
  · rintro ⟨hallow, hsrc, hdst, hx⟩
    have hcharge : s.onERC20 (·._spendAllowance src msg.sender x) =
        .ok (s.spend src msg.sender x) :=
      onERC20_eq_ok.mpr ⟨_, ERC20._spendAllowance_eq_ok.mpr
        ⟨hallow.imp_right fun h => ⟨h, hsrc, msg.sender_ne_zero⟩, rfl⟩, rfl⟩
    rw [← hsame] at hx
    refine ⟨(s.spend src msg.sender x).send msg.timestamp src dst x, ?_, ?_⟩
    · rw [hcharge, ok_bind]
      exact sendBody_ok hcharged hnow hsrc hdst hx
    · rw [eager_send hcharged.inv hcharged.clock hx,
        eager_spend (hg.allowance src msg.sender) hallow]
  · intro s' h
    obtain ⟨s₁, hspend, h⟩ := bind_eq_ok.mp h
    obtain ⟨e, he, rfl⟩ := onERC20_eq_ok.mp hspend
    obtain ⟨hallow, rfl⟩ := ERC20._spendAllowance_eq_ok.mp he
    obtain ⟨hsrc, hdst, hx, -⟩ :=
      sendBody_inv (s := s.spend src msg.sender x) hcharged h
    rw [hsame] at hx
    exact ⟨hallow.imp_right And.left, hsrc, hdst, hx⟩

theorem eager_transferBurnScore (hg : Good msg.timestamp s)
    (hnow : msg.timestamp < 2 ^ 64) (dst : Address) (n : ℕ) :
    (s.transferBurnScore msg dst n).toOption.map State.eager =
      if dst ≠ 0 ∧ s.eager.exempt dst = false ∧ n ≠ 0 ∧
          n ≤ s.eager.pot.weight msg.sender then
        some (s.eager.moveScore msg.timestamp msg.sender dst n)
      else none := by
  apply toOption_map_guard
  · rintro ⟨hdst, hexempt, hn₀, hn⟩
    have hscore : n ≤ s.burnScore msg.sender := hn
    have howner : s.owner = 0 :=
      hg.inv.launched_of_score (a := msg.sender) (by omega)
    exact ⟨_, transferBurnScore_ok hg hnow hdst hexempt hn₀ hscore,
      eager_moveScore hg.inv howner hg.clock msg.sender dst n⟩
  · intro s' h
    obtain ⟨hdst, hexempt, hn₀, hn, -⟩ := transferBurnScore_inv hg h
    exact ⟨hdst, hexempt, hn₀, hn⟩

/-- The calls that set one allowance of the sender. -/
theorem eager_approval {f : ERC20 → Result ERC20} {spender : Address} {x : ℕ}
    {c : Prop} [Decidable c] (hset : c → ∀ e', s.toERC20._approve msg.sender spender x =
      .ok e' → f s.toERC20 = .ok e')
    (hinv : ∀ {e'}, f s.toERC20 = .ok e' →
      c ∧ s.toERC20._approve msg.sender spender x = .ok e') :
    (s.onERC20 f).toOption.map State.eager =
      if spender ≠ 0 ∧ c then some (s.eager.allow msg.sender spender x)
      else none := by
  apply toOption_map_guard
  · rintro ⟨hspender, hc⟩
    have happrove := ERC20._approve_eq_ok.mpr
      ⟨msg.sender_ne_zero, hspender, (rfl : _ = s.toERC20.approved msg.sender spender x)⟩
    exact ⟨_, onERC20_eq_ok.mpr ⟨_, hset hc _ happrove, rfl⟩, rfl⟩
  · intro s' h
    obtain ⟨e, he, -⟩ := onERC20_eq_ok.mp h
    obtain ⟨hc, happrove⟩ := hinv he
    exact ⟨(ERC20._approve_eq_ok.mp happrove).2.1, hc⟩

theorem eager_approve (s : State) (msg : Msg) (spender : Address) (x : ℕ) :
    (s.onERC20 (·.approve msg spender x)).toOption.map State.eager =
      if spender ≠ 0 then some (s.eager.allow msg.sender spender x) else none := by
  have happrove : (s.onERC20 (·.approve msg spender x)).toOption.map State.eager =
      if spender ≠ 0 ∧ True then some (s.eager.allow msg.sender spender x)
      else none := eager_approval (fun _ _ he => he) (fun he => ⟨trivial, he⟩)
  simpa only [and_true] using happrove

theorem eager_increaseAllowance (s : State) (msg : Msg) (spender : Address)
    (x : ℕ) :
    (s.onERC20 (·.increaseAllowance msg spender x)).toOption.map State.eager =
      if spender ≠ 0 ∧ s.eager.allowance msg.sender spender + x < 2 ^ 256 then
        some (s.eager.allow msg.sender spender
          (s.eager.allowance msg.sender spender + x))
      else none := by
  apply eager_approval
  · intro hsum e' he
    have hsum' : s.toERC20.allowance msg.sender spender + x < 2 ^ 256 := hsum
    unfold ERC20.increaseAllowance
    rw [checkedAdd_of_lt hsum', ok_bind]
    exact he
  · intro e' he
    simp only [ERC20.increaseAllowance, bind_eq_ok, checkedAdd_eq_ok] at he
    obtain ⟨_, ⟨hsum, rfl⟩, he⟩ := he
    exact ⟨hsum, he⟩

theorem eager_decreaseAllowance (hword : s._allowances msg.sender a < 2 ^ 256)
    (x : ℕ) :
    (s.onERC20 (·.decreaseAllowance msg a x)).toOption.map State.eager =
      if a ≠ 0 ∧ x ≤ s.eager.allowance msg.sender a then
        some (s.eager.allow msg.sender a (s.eager.allowance msg.sender a - x))
      else none := by
  apply eager_approval
  · intro hle e' he
    have hle' : x ≤ s.toERC20.allowance msg.sender a := hle
    unfold ERC20.decreaseAllowance
    dsimp only
    rw [require, if_pos hle', ok_bind, uncheckedSub_of_le hle' hword]
    exact he
  · intro e' he
    simp only [ERC20.decreaseAllowance, bind_eq_ok, require_eq_ok] at he
    obtain ⟨_, hle, he⟩ := he
    rw [uncheckedSub_of_le hle hword] at he
    exact ⟨hle, he⟩

theorem signed_iff {owner spender : Address} {value deadline : ℕ} {v : Byte}
    {r sig : BitVec 256} :
    s.eager.signed evm owner spender value deadline v r sig = true ↔
      ECDSA.recover evm (ECDSA.toTypedDataHash evm (ERC20Permit.permitHash evm owner
        spender value (s._nonces owner) deadline)) v r sig = .ok owner := by
  unfold EagerToken.signed
  rw [show s.eager.nonce owner = s._nonces owner from rfl]
  cases ECDSA.recover evm (ECDSA.toTypedDataHash evm (ERC20Permit.permitHash evm owner
    spender value (s._nonces owner) deadline)) v r sig with
  | error _ => simp [Except.toOption]
  | ok signer => simp [Except.toOption]

theorem eager_permit (s : State) (msg : Msg) (owner spender : Address)
    (value deadline : ℕ) (v : Byte) (r sig : BitVec 256) :
    (s.onPermit (·.permit evm msg owner spender value deadline v r sig)).toOption.map
        State.eager =
      if msg.timestamp ≤ deadline ∧ owner ≠ 0 ∧ spender ≠ 0 ∧
          s.eager.signed evm owner spender value deadline v r sig then
        some ((s.eager.useNonce owner).allow owner spender value)
      else none := by
  apply toOption_map_guard
  · rintro ⟨hdeadline, howner, hspender, hsigned⟩
    let e : ERC20Permit :=
      { toERC20 := s.toERC20.approved owner spender value
        _nonces := update s._nonces owner (uncheckedAdd (s._nonces owner) 1) }
    refine ⟨{ s with toERC20Permit := e }, onPermit_eq_ok.mpr ⟨e, ?_, rfl⟩, rfl⟩
    simp only [ERC20Permit.permit, ERC20Permit._useNonce, bind_eq_ok, require_eq_ok,
      ERC20._approve_eq_ok, pure_eq_ok, Except.ok.injEq]
    exact ⟨(), hdeadline, owner, signed_iff.mp hsigned, (), rfl, _,
      ⟨howner, hspender, rfl⟩, rfl⟩
  · intro s' h
    obtain ⟨hpermitted, -⟩ := permit_inv h
    exact ⟨hpermitted.inTime, hpermitted.owner, hpermitted.spender,
      signed_iff.mpr hpermitted.signer⟩

end State

/-! ## The step and the history -/

/-- **Step lemma.** A call of the contract, read eagerly, is the transition of
the abstract token, and it reverts exactly where that has none. -/
theorem eager_step {evm : Evm} {s : State} {tx : Tx} (hg : Good tx.now s)
    (hnow : tx.now < 2 ^ 64) :
    (step evm s tx).toOption.map State.eager = s.eager.step evm tx := by
  obtain ⟨msg, call⟩ := tx
  cases call with
  | initialise pool migrator => exact eager_initialise s msg pool migrator
  | transfer dst x => exact eager_transfer hg hnow dst x.toNat
  | transferFrom src dst x => exact eager_transferFrom hg hnow src dst x.toNat
  | transferBurnScore dst n => exact eager_transferBurnScore hg hnow dst n.toNat
  | approve spender x => exact eager_approve s msg spender x.toNat
  | increaseAllowance spender x =>
      exact eager_increaseAllowance s msg spender x.toNat
  | decreaseAllowance spender x =>
      exact eager_decreaseAllowance (hg.allowance msg.sender spender) x.toNat
  | permit owner spender value deadline v r sig =>
      exact eager_permit s msg owner spender value.toNat deadline.toNat v r sig

/-- **Run lemma.** A list of calls, at timestamps that never go back. -/
theorem eager_execute {evm : Evm} {t : ℕ} {s : State} {txs : List Tx}
    (hg : Good t s) (hclock : (t :: txs.map Tx.now).IsChain (· ≤ ·))
    (hnow : ∀ tx ∈ txs, tx.now < 2 ^ 64) :
    (execute evm s txs).toOption.map State.eager = s.eager.execute evm txs := by
  induction txs generalizing t s with
  | nil => rfl
  | cons tx txs ih =>
      simp only [List.map_cons, List.isChain_cons_cons] at hclock
      have hlater := hg.later hclock.1
      have hstep : (step evm s tx).toOption.map State.eager = s.eager.step evm tx :=
        eager_step hlater (hnow tx List.mem_cons_self)
      unfold EagerToken.execute
      rw [← hstep]
      unfold execute
      cases hnext : step evm s tx with
      | error _ => rfl
      | ok s₁ =>
          exact ih (hg.next hclock.1 hnext) hclock.2
            fun x hx => hnow x (List.mem_cons_of_mem tx hx)

/-- A deployment followed by a list of calls. -/
def history (evm : Evm) (t₀ : ℕ) (owner : Address) (txs : List Tx) :
    Result State := do
  let s ← State.constructor t₀ owner
  execute evm s txs

theorem constructor_ok (t₀ : ℕ) {owner : Address} (howner : owner ≠ 0) :
    ∃ g, State.constructor t₀ owner = .ok g := by
  have hbooks : ({ blank with owner := owner, lastMintTime := t₀ } :
      State).toERC20.Books := ⟨by simp [blank], Nat.two_pow_pos 256⟩
  have hword : 0 + INITIAL_SUPPLY < 2 ^ 256 := by decide +kernel
  have hmint := (ERC20._mint_eq_ok (x := INITIAL_SUPPLY) hbooks).mpr
    ⟨howner, hword, rfl⟩
  unfold State.constructor
  rw [require, if_pos howner, ok_bind]
  dsimp only
  rw [onERC20_eq_ok.mpr ⟨_, hmint, rfl⟩]
  exact ⟨_, rfl⟩

theorem eager_history {evm : Evm} {t₀ : ℕ} {owner : Address} {txs : List Tx}
    (hclock : (t₀ :: txs.map Tx.now).IsChain (· ≤ ·))
    (hnow : ∀ tx ∈ txs, tx.now < 2 ^ 64) :
    (history evm t₀ owner txs).toOption.map State.eager =
      (EagerToken.deploy t₀ owner).bind (·.execute evm txs) := by
  by_cases howner : owner = 0
  · subst howner
    rfl
  · obtain ⟨g, hg⟩ := constructor_ok t₀ howner
    unfold history
    rw [hg, eager_constructor hg]
    exact eager_execute (constructor_good hg) hclock hnow

/-- **The lazy token is the eager token.** From the deployment on, whatever the
calls: the contract accepts a history exactly when the abstract token does, in
the state the contract then stands for; and at every later time every displayed
balance and the displayed supply are the wealth and the supply of that state. -/
theorem lazy_rewards_are_eager {evm : Evm} {t₀ : ℕ} {owner : Address}
    {txs : List Tx} (hclock : (t₀ :: txs.map Tx.now).IsChain (· ≤ ·))
    (hnow : ∀ tx ∈ txs, tx.now < 2 ^ 64) :
    (history evm t₀ owner txs).toOption.map State.eager =
      (EagerToken.deploy t₀ owner).bind (·.execute evm txs) ∧
    ∀ s, history evm t₀ owner txs = .ok s →
      ∀ now, (∀ t ∈ t₀ :: txs.map Tx.now, t ≤ now) → now < 2 ^ 64 →
        (∀ a, s.balanceOf now a = .ok (s.eager.balance now a)) ∧
        s.totalSupply now = .ok (s.eager.totalSupply now) := by
  refine ⟨eager_history hclock hnow, ?_⟩
  intro s hs now hlater hword
  obtain ⟨g, hg, hexecute⟩ := bind_eq_ok.mp hs
  obtain ⟨steps, t, hrun, -, hlast⟩ := exists_run_of_execute hexecute hclock
  have hgood := (constructor_good hg).run hrun
  have hfits := hgood.fits (hlater t (List.mem_of_getLast? hlast)) hword
  rw [eager_totalSupply hgood.inv]
  refine ⟨?_, hfits.totalSupply⟩
  intro a
  rw [eager_balance hgood.inv]
  exact hfits.balanceOf a

/-- The sample history, and the balance of the trader after it. -/
theorem sample_eager :
    (EagerToken.deploy 0 1).bind (·.execute sampleEvm sampleTxs) =
      some (sampleState sampleTxs).eager ∧
    (sampleState sampleTxs).eager.balance 400 2 = 1004973566717402333830492 := by
  have hrun : history sampleEvm 0 1 sampleTxs = .ok (sampleState sampleTxs) :=
    sampleRun_eq (by decide +kernel)
  obtain ⟨hsame, hviews⟩ :=
    @lazy_rewards_are_eager sampleEvm 0 1 sampleTxs (by decide) (by decide)
  have hbalance := (hviews _ hrun 400 (by decide) (by decide)).1 2
  constructor
  · rw [← hsame, hrun]
    rfl
  · exact Except.ok.inj (hbalance.symm.trans (by decide +kernel))

end CyberCash
