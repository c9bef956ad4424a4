import CyberCash.Library.Rounding
import CyberCash.Results.Transfers

/-!
# Splitting a transfer

Sending an amount in pieces evades no more than dust. The tax and the share of
the pool are rounded by themselves for each piece, so the pieces together are
charged at most what the whole is, and less by at most one unit for each cut;
the reserve of the pool does not widen that gap, and the claims after the first
mint nothing.
-/

namespace CyberCash

open Solidity Function State TimedRun Rounding

namespace State

theorem taxOf_nearlyAdditive : NearlyAdditive taxOf 1 :=
  nearlyAdditive_mul_div BURN_ON_TRANSFER BURN_PRECISION

theorem poolShare_nearlyAdditive : NearlyAdditive poolShare 1 :=
  nearlyAdditive_mul_div BURN_FROM_LP BURN_PRECISION

/-- What taxed transfers of the amounts `xs`, made at one time, do. -/
structure Sends (now : ℕ) (src dst : Address) (s : State) (xs : List ℕ)
    (s' : State) : Prop where
  good : Good now s'
  liquidityPool : s'.liquidityPool = s.liquidityPool
  exemptedAddresses : s'.exemptedAddresses = s.exemptedAddresses
  payer : s'.balanceAt now src + xs.sum = s.balanceAt now src
  payee : s'.balanceAt now dst + (xs.map taxOf).sum = s.balanceAt now dst + xs.sum
  score : s'.burnScore src = s.burnScore src + (xs.map taxOf).sum
  burned : s'.totalBurned = s.totalBurned + (xs.map taxOf).sum
  pool : s'.balanceAt now s.liquidityPool = leftAbove RESERVE_BUFFER
    (s.balanceAt now s.liquidityPool) (xs.map poolShare).sum

variable {s s₁ s' : State} {now x : ℕ} {src dst : Address} {xs : List ℕ}

theorem Sends.none (h : Good now s) : Sends now src dst s [] s where
  good := h
  liquidityPool := rfl
  exemptedAddresses := rfl
  payer := Nat.add_zero _
  payee := rfl
  score := (Nat.add_zero _).symm
  burned := (Nat.add_zero _).symm
  pool := (leftAbove_zero _ _).symm

/-- **Step lemma.** One taxed transfer. -/
theorem Sends.one (h : Good now s) (hnow : now < 2 ^ 64) (hsrc : src ≠ 0)
    (hne : src ≠ dst) (htaxed : s.taxed src dst = true)
    (hx : x ≤ s.balanceAt now src) :
    Sends now src dst s [x] (s.send now src dst x) := by
  obtain ⟨hdistinct, -, hpool, -, -, hscore, hburned⟩ :=
    h.inv.send_taxed h.clock hx htaxed
  obtain ⟨hpayer, hpayee⟩ := hdistinct hne
  have hsent : Inv (s.send now src dst x) := h.inv.send h.clock hsrc hx
  have hword := hsent.word (send_lastMintTime_le h.clock) hnow
  have htax := taxOf_le x
  have hburn : s.poolBurn x = min (poolShare x)
      (s.balanceAt now s.liquidityPool - RESERVE_BUFFER) := by
    rw [balanceAt_of_idle h.inv.poolIdle]
    rfl
  rw [hburn] at hpool
  refine ⟨h.send hsrc hx hword, send_liquidityPool .., send_exemptedAddresses ..,
    ?_, ?_, ?_, ?_, ?_⟩
  · rw [List.sum_singleton]
    exact hpayer
  · rw [List.map_singleton, List.sum_singleton, List.sum_singleton]
    omega
  · rw [List.map_singleton, List.sum_singleton]
    exact hscore
  · rw [List.map_singleton, List.sum_singleton]
    exact hburned
  · rw [List.map_singleton, List.sum_singleton]
    exact eq_leftAbove hpool

/-- The equations of a single transfer, without the sums. -/
theorem Sends.single (h : Sends now src dst s [x] s') :
    s'.balanceAt now src + x = s.balanceAt now src ∧
    s'.balanceAt now dst + taxOf x = s.balanceAt now dst + x ∧
    s'.burnScore src = s.burnScore src + taxOf x ∧
    s'.totalBurned = s.totalBurned + taxOf x ∧
    s'.balanceAt now s.liquidityPool = leftAbove RESERVE_BUFFER
      (s.balanceAt now s.liquidityPool) (poolShare x) := by
  obtain ⟨-, -, -, hpayer, hpayee, hscore, hburned, hpool⟩ := h
  rw [List.map_singleton, List.sum_singleton] at hpayee hscore hburned hpool
  rw [List.sum_singleton] at hpayer hpayee
  exact ⟨hpayer, hpayee, hscore, hburned, hpool⟩

/-- Transfers after a transfer. -/
theorem Sends.cons (h : Sends now src dst s [x] s₁)
    (h' : Sends now src dst s₁ xs s') : Sends now src dst s (x :: xs) s' := by
  obtain ⟨hpayer, hpayee, hscore, hburned, hpool⟩ := h.single
  have hpayer' := h'.payer
  have hpayee' := h'.payee
  have hpool' := h'.pool
  refine ⟨h'.good, h'.liquidityPool.trans h.liquidityPool,
    h'.exemptedAddresses.trans h.exemptedAddresses, ?_, ?_, ?_, ?_, ?_⟩
  · rw [List.sum_cons]
    omega
  · rw [List.map_cons, List.sum_cons, List.sum_cons]
    omega
  · rw [h'.score, hscore, List.map_cons, List.sum_cons, Nat.add_assoc]
  · rw [h'.burned, hburned, List.map_cons, List.sum_cons, Nat.add_assoc]
  · rw [h.liquidityPool, hpool, leftAbove_leftAbove] at hpool'
    rw [hpool', List.map_cons, List.sum_cons]

theorem Sends.taxed (h : Sends now src dst s xs s') :
    s'.taxed src dst = s.taxed src dst := by
  unfold State.taxed
  rw [h.liquidityPool, h.exemptedAddresses]

/-- The pieces, sent one by one, against the whole. -/
structure Evades (now : ℕ) (src dst pool : Address) (dust spared : ℕ)
    (s₁ s₂ : State) : Prop where
  payer : s₁.balanceAt now src = s₂.balanceAt now src
  payee : s₁.balanceAt now dst = s₂.balanceAt now dst + dust
  score : s₁.burnScore src + dust = s₂.burnScore src
  burned : s₁.totalBurned + dust = s₂.totalBurned
  pool : s₁.balanceAt now pool = s₂.balanceAt now pool + spared

/-- The dust is what rounding the tax in pieces loses, and what the pool is
spared is bounded by what rounding its share loses. -/
theorem Sends.evades {s₂ : State} (h₁ : Sends now src dst s xs s₁)
    (h₂ : Sends now src dst s [xs.sum] s₂) (hne : xs ≠ []) :
    ∃ dust spared, dust ≤ xs.length - 1 ∧ spared ≤ xs.length - 1 ∧
      Evades now src dst s.liquidityPool dust spared s₁ s₂ := by
  have htax := taxOf_nearlyAdditive.sum_le hne
  have htax' := taxOf_nearlyAdditive.sum_lt_add_length hne
  obtain ⟨hless, hmore⟩ := poolShare_nearlyAdditive.leftAbove_of_stock hne
    RESERVE_BUFFER (s.balanceAt now s.liquidityPool)
  obtain ⟨hpayer, hpayee, hscore, hburned, hpool⟩ := h₂.single
  have hpayer' := h₁.payer
  have hpayee' := h₁.payee
  have hscore' := h₁.score
  have hburned' := h₁.burned
  have hpool' := h₁.pool
  rw [← hpool, ← hpool'] at hless hmore
  refine ⟨taxOf xs.sum - (xs.map taxOf).sum, s₁.balanceAt now s.liquidityPool -
    s₂.balanceAt now s.liquidityPool, ?_, ?_, ?_, ?_, ?_, ?_, ?_⟩
  · omega
  · exact Nat.sub_le_iff_le_add'.mpr hmore
  · exact Nat.add_right_cancel (hpayer'.trans hpayer.symm)
  · omega
  · rw [hscore, hscore', Nat.add_assoc, Nat.add_sub_cancel' htax]
  · rw [hburned, hburned', Nat.add_assoc, Nat.add_sub_cancel' htax]
  · exact (Nat.add_sub_cancel' hless).symm

end State

/-! ## Transfers in pieces -/

def transferTxs (msg : Msg) (_to : Address) (_amounts : List Uint256) : List Tx :=
  _amounts.map fun x => ⟨msg, .transfer _to x⟩

section

variable {s : State} {msg : Msg} {_to : Address}

/-- One transfer that the displayed balance covers. -/
theorem step_sends (evm : Evm) {x : Uint256} (hg : Good msg.timestamp s)
    (hnow : msg.timestamp < 2 ^ 64) (hto : _to ≠ 0) (hne : msg.sender ≠ _to)
    (htaxed : s.taxed msg.sender _to = true)
    (hx : x.toNat ≤ s.balanceAt msg.timestamp msg.sender) :
    ∃ s', step evm s ⟨msg, .transfer _to x⟩ = .ok s' ∧
      Sends msg.timestamp msg.sender _to s [x.toNat] s' := by
  have hstep : step evm s ⟨msg, .transfer _to x⟩ = s.transfer msg _to x.toNat := rfl
  have hsends := Sends.one hg hnow msg.sender_ne_zero hne htaxed hx
  refine ⟨_, ?_, hsends⟩
  rw [hstep, transfer_eq_sendBody]
  exact sendBody_ok hg hnow msg.sender_ne_zero hto hx

/-- **Run lemma.** Transfers that the displayed balance covers together all
succeed. -/
theorem execute_sends (evm : Evm) {_amounts : List Uint256}
    (hg : Good msg.timestamp s) (hnow : msg.timestamp < 2 ^ 64) (hto : _to ≠ 0)
    (hne : msg.sender ≠ _to)
    (htaxed : s.taxed msg.sender _to = true)
    (hcovered : (_amounts.map BitVec.toNat).sum ≤
      s.balanceAt msg.timestamp msg.sender) :
    ∃ s', execute evm s (transferTxs msg _to _amounts) = .ok s' ∧
      Sends msg.timestamp msg.sender _to s (_amounts.map BitVec.toNat) s' := by
  induction _amounts generalizing s with
  | nil => exact ⟨s, rfl, .none hg⟩
  | cons x xs ih =>
      rw [List.map_cons, List.sum_cons] at hcovered
      obtain ⟨s₁, hstep, hfirst⟩ := step_sends evm hg hnow hto hne htaxed
        ((Nat.le_add_right _ _).trans hcovered)
      -- the claim inside a transfer moves no balance, so the rest is still covered
      have hpayer := hfirst.single.1
      obtain ⟨s', hexecute, hrest⟩ := ih hfirst.good (hfirst.taxed.trans htaxed)
        (by omega)
      refine ⟨s', ?_, hfirst.cons hrest⟩
      exact execute_cons_eq_ok.mpr ⟨s₁, hstep, hexecute⟩

end

/-- **Splitting a transfer evades at most dust**: less than one unit of the tax,
and less than one unit of the share of the pool, for each cut. -/
theorem splitting_evades_dust {evm : Evm} {t : ℕ} {s : State} {msg : Msg}
    {_to : Address} {_amounts : List Uint256} {total : Uint256} {balance : ℕ}
    (hs : Reachable evm t s) (ht : t ≤ msg.timestamp)
    (hnow : msg.timestamp < 2 ^ 64) (hlaunched : s.owner = 0)
    (hto : _to ≠ 0) (hdistinct : msg.sender ≠ _to)
    (hexempt : s.exemptedAddresses msg.sender = false)
    (hexempt' : s.exemptedAddresses _to = false)
    (hne : _amounts ≠ []) (htotal : total.toNat = (_amounts.map BitVec.toNat).sum)
    (hbalance : s.balanceOf msg.timestamp msg.sender = .ok balance)
    (hcovered : total.toNat ≤ balance) :
    let now := msg.timestamp
    let _from := msg.sender
    let cuts := _amounts.length - 1
    ∃ s₁ s₂ dust spared,
      execute evm s (transferTxs msg _to _amounts) = .ok s₁ ∧
      step evm s ⟨msg, .transfer _to total⟩ = .ok s₂ ∧
      dust ≤ cuts ∧ spared ≤ cuts ∧
      (∃ x, s₁.balanceOf now _from = .ok x ∧ s₂.balanceOf now _from = .ok x) ∧
      (∃ before received, s.balanceOf now _to = .ok before ∧
        s₂.balanceOf now _to = .ok (before + received) ∧
        s₁.balanceOf now _to = .ok (before + (received + dust))) ∧
      s₁.burnScore _from + dust = s₂.burnScore _from ∧
      s₁.totalBurned + dust = s₂.totalBurned ∧
      ∃ x, s₂.balanceOf now s.liquidityPool = .ok x ∧
        s₁.balanceOf now s.liquidityPool = .ok (x + spared) := by
  have hg := hs.good.later ht
  have htaxed := (taxed_iff (hg.inv.phase.mp hlaunched)).mpr ⟨hexempt, hexempt'⟩
  rw [balanceOf_eq hbalance] at hcovered
  obtain ⟨s₂, hstep, hone⟩ := step_sends evm hg hnow hto hdistinct htaxed hcovered
  rw [htotal] at hcovered hone
  obtain ⟨s₁, hexecute, hmany⟩ :=
    execute_sends evm hg hnow hto hdistinct htaxed hcovered
  have hne' : _amounts.map BitVec.toNat ≠ [] := mt List.map_eq_nil_iff.mp hne
  obtain ⟨dust, spared, hdust, hspared, hevades⟩ := hmany.evades hone hne'
  rw [List.length_map] at hdust hspared
  have hfits := hg.fits (Nat.le_refl _) hnow
  have hfits₁ := hmany.good.fits (Nat.le_refl _) hnow
  have hfits₂ := hone.good.fits (Nat.le_refl _) hnow
  obtain ⟨-, hpayee, -⟩ := hone.single
  rw [← htotal] at hpayee
  have htax := taxOf_le total.toNat
  refine ⟨s₁, s₂, dust, spared, hexecute, hstep, hdust, hspared, ?_, ?_,
    hevades.score, hevades.burned, ?_⟩
  · refine ⟨_, hfits₁.balanceOf _, ?_⟩
    rw [hevades.payer]
    exact hfits₂.balanceOf _
  · refine ⟨_, total.toNat - taxOf total.toNat, hfits.balanceOf _, ?_, ?_⟩
    · rw [hfits₂.balanceOf]
      congr 1
      omega
    · rw [hfits₁.balanceOf, hevades.payee]
      congr 1
      omega
  · refine ⟨_, hfits₂.balanceOf _, ?_⟩
    rw [hfits₁.balanceOf, hevades.pool]

/-- Three amounts that are too small to be taxed, or their sum. -/
theorem sample_evades_dust :
    ∃ s₁ s₂ dust,
      execute sampleEvm (sampleState sampleTxs)
        (transferTxs (traderMsg 400) 3 [199, 199, 199]) = .ok s₁ ∧
      step sampleEvm (sampleState sampleTxs) ⟨traderMsg 400, .transfer 3 597⟩ =
        .ok s₂ ∧
      dust ≤ 2 ∧ s₁.burnScore 2 + dust = s₂.burnScore 2 := by
  have hbalance : (sampleState sampleTxs).balanceOf (traderMsg 400).timestamp
      (traderMsg 400).sender = .ok 1004973566717402333830492 := by decide +kernel
  have htotal : (597 : Uint256).toNat =
    (([199, 199, 199] : List Uint256).map BitVec.toNat).sum := by decide
  obtain ⟨s₁, s₂, dust, _, hmany, hone, hdust, -, -, -, hscore, -⟩ :=
    splitting_evades_dust sampleTxs_reachable (by decide) (by decide)
      (by decide +kernel) (by decide : (3 : Address) ≠ 0) (by decide)
      (by decide +kernel) (by decide +kernel) (by decide) htotal hbalance (by decide)
  exact ⟨s₁, s₂, dust, hmany, hone, hdust, hscore⟩

end CyberCash
