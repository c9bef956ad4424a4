import CyberCash.Results.Solvency

/-!
# Every displayed token is spendable

A transfer succeeds exactly when the receiver is not the zero address and the
displayed balance covers the amount: neither the claim, nor the two burns, nor
any checked operation on the way can make it fail, and nothing beyond the
displayed balance can be sent. A delegated transfer needs the allowance on top.
-/

namespace CyberCash

open Solidity Function State TimedRun

namespace State

variable {s : State} {now x : ℕ} {src dst spender : Address}

theorem sendBody_succeeds_iff (hg : Good now s) (hnow : now < 2 ^ 64)
    (hsrc : src ≠ 0) (dst : Address) (x : ℕ) :
    (∃ s', s.sendBody now src dst x = .ok s') ↔
      dst ≠ 0 ∧ x ≤ s.balanceAt now src := by
  constructor
  · rintro ⟨s', h⟩
    obtain ⟨-, hdst, hx, -⟩ := sendBody_inv hg h
    exact ⟨hdst, hx⟩
  · rintro ⟨hdst, hx⟩
    exact ⟨_, sendBody_ok hg hnow hsrc hdst hx⟩

theorem _spendAllowance_ok_iff {s₁ : State} (hsrc : src ≠ 0)
    (hspender : spender ≠ 0) :
    s.onERC20 (·._spendAllowance src spender x) = .ok s₁ ↔
      (s._allowances src spender = uintMax ∨ x ≤ s._allowances src spender) ∧
        s₁ = s.spend src spender x := by
  rw [onERC20_eq_ok]
  constructor
  · rintro ⟨e, he, rfl⟩
    obtain ⟨hallow, rfl⟩ := ERC20._spendAllowance_eq_ok.mp he
    exact ⟨hallow.imp_right And.left, rfl⟩
  · rintro ⟨hallow, rfl⟩
    refine ⟨_, ERC20._spendAllowance_eq_ok.mpr ⟨?_, rfl⟩, rfl⟩
    exact hallow.imp_right fun hx => ⟨hx, hsrc, hspender⟩

theorem transferFrom_succeeds_iff {msg : Msg} (hg : Good msg.timestamp s)
    (hnow : msg.timestamp < 2 ^ 64) (hsrc : src ≠ 0) :
    (∃ s', s.transferFrom msg src dst x = .ok s') ↔
      (dst ≠ 0 ∧ x ≤ s.balanceAt msg.timestamp src) ∧
        (s._allowances src msg.sender = uintMax ∨
          x ≤ s._allowances src msg.sender) := by
  have hsame := s.spend_reapproves src msg.sender x
  have hbody := sendBody_succeeds_iff (hg.reapproves hsame) hnow hsrc dst x
  rw [balanceAt_reapproves hsame] at hbody
  rw [transferFrom_eq_sendBody, ← hbody]
  constructor
  · rintro ⟨s', h⟩
    obtain ⟨s₁, hspend, hsend⟩ := bind_eq_ok.mp h
    obtain ⟨hallow, rfl⟩ := (_spendAllowance_ok_iff hsrc msg.sender_ne_zero).mp hspend
    exact ⟨⟨s', hsend⟩, hallow⟩
  · rintro ⟨⟨s', hsend⟩, hallow⟩
    have hspend := (_spendAllowance_ok_iff hsrc msg.sender_ne_zero).mpr ⟨hallow, rfl⟩
    exact ⟨s', bind_eq_ok.mpr ⟨_, hspend, hsend⟩⟩

end State

/-- **Every displayed token is spendable, and nothing else is.** -/
theorem spendable_iff_displayed {evm : Evm} {t : ℕ} {s : State} {msg : Msg}
    (hs : Reachable evm t s) (ht : t ≤ msg.timestamp)
    (hnow : msg.timestamp < 2 ^ 64) :
    (∀ _to _amount, ∃ balance,
      s.balanceOf msg.timestamp msg.sender = .ok balance ∧
      ((∃ s', s.transfer msg _to _amount = .ok s') ↔
        _to ≠ 0 ∧ _amount ≤ balance)) ∧
    (∀ _from _to _amount, _from ≠ 0 → ∃ balance,
      s.balanceOf msg.timestamp _from = .ok balance ∧
      ((∃ s', s.transferFrom msg _from _to _amount = .ok s') ↔
        (_to ≠ 0 ∧ _amount ≤ balance) ∧
          (s._allowances _from msg.sender = 2 ^ 256 - 1 ∨
            _amount ≤ s._allowances _from msg.sender))) := by
  have hg := hs.good.later ht
  have hfits := hs.good.fits ht hnow
  constructor
  · intro _to _amount
    refine ⟨_, hfits.balanceOf msg.sender, ?_⟩
    rw [transfer_eq_sendBody]
    exact sendBody_succeeds_iff hg hnow msg.sender_ne_zero _to _amount
  · intro _from _to _amount hfrom
    exact ⟨_, hfits.balanceOf _from, transferFrom_succeeds_iff hg hnow hfrom⟩

/-- Account `2` can send what it is shown at time 400, and not one unit more. -/
theorem sample_spendable :
    (∃ s', (sampleState sampleTxs).transfer (traderMsg 400) 3
      1004973566717402333830492 = .ok s') ∧
    ¬ ∃ s', (sampleState sampleTxs).transfer (traderMsg 400) 3
      1004973566717402333830493 = .ok s' := by
  have hshown : (sampleState sampleTxs).balanceOf 400 2 =
      .ok 1004973566717402333830492 := by decide +kernel
  have hspendable (x : ℕ) := (spendable_iff_displayed sampleTxs_reachable
    (by decide : 300 ≤ (traderMsg 400).timestamp) (by decide)).1 3 x
  constructor
  · obtain ⟨balance, hbalance, hiff⟩ := hspendable 1004973566717402333830492
    obtain rfl := Except.ok.inj (hshown.symm.trans hbalance)
    exact hiff.mpr ⟨by decide, Nat.le_refl _⟩
  · obtain ⟨balance, hbalance, hiff⟩ := hspendable 1004973566717402333830493
    obtain rfl := Except.ok.inj (hshown.symm.trans hbalance)
    intro h
    exact absurd (hiff.mp h).2 (by decide)

end CyberCash
