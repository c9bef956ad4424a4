import CyberCash.Results.LogReplay
import CyberCash.Results.BlockOrder
import CyberCash.Results.Protection

/-!
# An account that does nothing

Over whole runs, an account that has given no allowance, sends no call and has
signed no permit loses nothing: no token of it is moved, nobody gets an
allowance from it, its nonce stands still, and what it is shown and its score
only grow. Contracts without a key, as the Migrator, are such accounts but for
the calls in their own code.
-/

namespace CyberCash

open Solidity Function State TimedRun

/-! ## Standing aside -/

/-- A call that the account did not send and that is no permit of it. -/
def Tx.Ignores (tx : Tx) (a : Address) : Prop :=
  tx.sender ≠ a ∧ tx.permits a = 0

/-- Nobody may spend from the account. -/
def State.Unspendable (s : State) (a : Address) : Prop :=
  ∀ spender, s._allowances a spender = 0

/-- A transfer out of the account that moves something. -/
def Event.outgoing (a : Address) : Event → Option (Address × ℕ)
  | .transfer src dst x => if src = a ∧ x ≠ 0 then some (dst, x) else none
  | _ => none

/-- All that was ever moved out of the account, in order. -/
def State.outgoing (s : State) (a : Address) : List (Address × ℕ) :=
  s.logs.filterMap (Event.outgoing a)

variable {evm : Evm} {s s' : State} {tx : Tx} {a src dst : Address} {now x : ℕ}

namespace Tx.Ignores

/-- The allowance that an approval call sets is another account's. -/
theorem approves {owner spender : Address} (h : tx.Ignores a)
    (happroves : s.approves tx = some (owner, spender, x)) : owner ≠ a := by
  obtain ⟨msg, call⟩ := tx
  obtain ⟨hsender, hpermits⟩ := h
  cases call with
  | permit _owner _ _ _ _ _ _ =>
      cases happroves
      rintro rfl
      exact absurd hpermits (by simp [Tx.permits])
  | initialise | transfer | transferFrom | transferBurnScore => cases happroves
  | _ =>
      cases happroves
      exact hsender

theorem noncesAfter (h : tx.Ignores a) (s : State) :
    s.noncesAfter tx a = s._nonces a := by
  obtain ⟨msg, call⟩ := tx
  cases call with
  | permit _owner _ _ _ _ _ _ =>
      have hne : a ≠ _owner := by
        rintro rfl
        exact absurd h.2 (by simp [Tx.permits])
      exact update_of_ne hne _ _
  | _ => rfl

theorem yields (h : tx.Ignores a) : tx.yields a = 0 := by
  unfold Tx.yields
  split
  · exact if_neg h.1.symm
  · rfl

/-- Where nothing may be spent, at most nothing is sent. -/
theorem movement (h : tx.Ignores a) (hs : s.Unspendable a) (hallow : s.Allows tx)
    (hmove : tx.movement = some (src, dst, x)) : src ≠ a ∨ x = 0 := by
  obtain ⟨msg, call⟩ := tx
  cases call with
  | transfer _to _amount =>
      cases hmove
      exact .inl h.1
  | transferFrom _from _to _amount =>
      cases hmove
      by_cases hfrom : src = a
      · subst hfrom
        right
        rcases hallow with hmax | hcover
        · rw [hs] at hmax
          exact absurd hmax (by decide)
        · rw [hs] at hcover
          exact Nat.le_zero.mp hcover
      · exact .inl hfrom
  | _ => cases hmove

end Tx.Ignores

/-! ## One call -/

theorem Effect.pool_fixed (he : Effect s tx s') (hinv : Inv s) :
    s.liquidityPool = 0 ∨ s'.liquidityPool = s.liquidityPool := by
  by_cases hpool : s.liquidityPool = 0
  · exact .inl hpool
  · exact .inr (he.frozen (hinv.launched hpool)).2.1

/-- The pool of a later state is no other than the pool of an earlier one. -/
theorem Effect.pool_ne (he : Effect s tx s') (hinv : Inv s) (ha : a ≠ 0)
    (hpool : s'.liquidityPool ≠ a) : s.liquidityPool ≠ a := by
  rcases he.pool_fixed hinv with hnone | hsame
  · rw [hnone]
    exact ha.symm
  · rwa [hsame] at hpool

theorem step_unspendable (hg : Good tx.now s) (h : step evm s tx = .ok s')
    (hignores : tx.Ignores a) (hs : s.Unspendable a) :
    s'.Unspendable a ∧ s'._nonces a = s._nonces a := by
  cases hcall : tx.call.isApproval with
  | true =>
      obtain ⟨owner, spender, x, happroves, -, -, -, rfl⟩ :=
        step_approval h hcall hg.allowance
      refine ⟨?_, hignores.noncesAfter s⟩
      intro p
      rw [reapproved_allowance, if_neg fun hsame =>
        hignores.approves happroves hsame.1.symm]
      exact hs p
  | false =>
      have he := step_effect hg h
      constructor
      · intro p
        rw [he.allowances hg.allowance hcall, hs p]
        unfold spentDown
        split
        · rfl
        · exact Nat.zero_sub _
      · rw [he.nonces hcall]

/-! ## What is logged -/

section Outgoing

variable {entries : List Event}

theorem outgoing_append (h : s'.logs = s.logs ++ entries) :
    s'.outgoing a = s.outgoing a ++ entries.filterMap (Event.outgoing a) := by
  unfold State.outgoing
  rw [h, List.filterMap_append]

theorem outgoing_singleton {e : Event} (h : e.outgoing a = none) :
    [e].filterMap (Event.outgoing a) = [] := by
  rw [List.filterMap_cons_none h, List.filterMap_nil]

theorem outgoing_transfer (h : src ≠ a ∨ x = 0) :
    [Event.transfer src dst x].filterMap (Event.outgoing a) = [] := by
  apply outgoing_singleton
  apply if_neg
  rintro ⟨hsrc, hx⟩
  exact h.elim (fun hne => hne hsrc) hx

theorem outgoing_settleEntries (ha : a ≠ 0) (s : State) (now : ℕ) (b : Address) :
    (s.settleEntries now b).filterMap (Event.outgoing a) = [] := by
  have hsplit : s.settleEntries now b = [.transfer 0 b (s.rewardsAt now b)] ++
      [.rewardsClaimed b (s.rewardsAt now b)] := rfl
  rw [hsplit, List.filterMap_append, outgoing_transfer (.inl ha.symm),
    outgoing_singleton rfl]
  rfl

theorem outgoing_levyEntries (hpool : s.liquidityPool ≠ a) (h : src ≠ a ∨ x = 0) :
    (s.levyEntries src x).filterMap (Event.outgoing a) = [] := by
  have htax : src ≠ a ∨ taxOf x = 0 := by
    refine h.imp_right fun hx => ?_
    rw [hx]
    exact Nat.le_zero.mp (taxOf_le 0)
  have hsplit : s.levyEntries src x = [.transfer src 0 (taxOf x)] ++
      ([.transfer s.liquidityPool 0 (s.poolBurn x)] ++
        [.burnedTokensFromLP (s.poolBurn x)]) := rfl
  rw [hsplit, List.filterMap_append, List.filterMap_append, outgoing_transfer htax,
    outgoing_transfer (.inl hpool), outgoing_singleton rfl]
  rfl

/-- A transfer out of another account, or of nothing, moves nothing out of
this one. -/
theorem outgoing_sendEntries (ha : a ≠ 0) (hpool : s.liquidityPool ≠ a)
    (h : src ≠ a ∨ x = 0) (now : ℕ) (dst : Address) :
    (s.sendEntries now src dst x).filterMap (Event.outgoing a) = [] := by
  have hrest : src ≠ a ∨ x - taxOf x = 0 := by
    refine h.imp_right fun hx => ?_
    rw [hx, Nat.zero_sub]
  unfold sendEntries
  split
  · exact outgoing_transfer h
  · split
    · rw [List.filterMap_append, List.filterMap_append, outgoing_settleEntries ha,
        outgoing_levyEntries (s := s.settle now src) hpool h, outgoing_transfer hrest]
      rfl
    · rw [List.filterMap_append, outgoing_settleEntries ha, outgoing_transfer h]
      rfl

theorem outgoing_charge (s : State) (tx : Tx) (a : Address) :
    (s.charge tx).outgoing a = s.outgoing a := by
  unfold charge
  split
  · rw [outgoing_append (spend_logs s _ _ _)]
    unfold spendEntries
    split
    · exact List.append_nil _
    · rw [outgoing_singleton rfl, List.append_nil]
  · rfl

theorem step_outgoing (hg : Good tx.now s) (h : step evm s tx = .ok s')
    (hignores : tx.Ignores a) (hs : s.Unspendable a) (ha : a ≠ 0)
    (hpool : s.liquidityPool ≠ a) : s'.outgoing a = s.outgoing a := by
  have he := step_effect hg h
  cases he with
  | launch => rfl
  | reapprove _ hs' =>
      obtain ⟨_, _, entries, rfl, hentries, -⟩ := hs'
      rw [outgoing_append (rfl : _ = s.logs ++ entries)]
      have hnone : entries.filterMap (Event.outgoing a) = [] := by
        rw [List.filterMap_eq_nil_iff]
        intro e he
        obtain ⟨o, p, y, rfl⟩ := hentries e he
        rfl
      rw [hnone, List.append_nil]
  | send hmove hallow =>
      have hquiet := hignores.movement hs hallow hmove
      have hpool' : (s.charge tx).liquidityPool ≠ a := by
        rwa [(s.charge_reapproves tx).liquidityPool]
      rw [outgoing_append (send_logs _ _ _ _ _), outgoing_charge,
        outgoing_sendEntries ha hpool' hquiet, List.append_nil]
  | moveScore =>
      rw [outgoing_append (moveScore_logs _ _ _ _ _), List.filterMap_append,
        outgoing_settleEntries ha, outgoing_settleEntries ha, List.append_nil,
        List.append_nil]

end Outgoing

/-! ## Whole runs -/

/-- What has become of an account between two states of a run. -/
structure Kept (a : Address) (t : ℕ) (s : State) (t' : ℕ) (s' : State) : Prop where
  unspendable : s'.Unspendable a
  nonce : s'._nonces a = s._nonces a
  outgoing : s'.outgoing a = s.outgoing a
  score : s.burnScore a ≤ s'.burnScore a
  balance : s.balanceAt t a ≤ s'.balanceAt t' a

theorem Kept.trans {t t₁ t' : ℕ} {s₁ : State} (h : Kept a t s t₁ s₁)
    (h' : Kept a t₁ s₁ t' s') : Kept a t s t' s' where
  unspendable := h'.unspendable
  nonce := h'.nonce.trans h.nonce
  outgoing := h'.outgoing.trans h.outgoing
  score := h.score.trans h'.score
  balance := h.balance.trans h'.balance

/-- **Step lemma.** -/
theorem Kept.step {t : ℕ} (hg : Good t s) (ht : t ≤ tx.now)
    (h : step evm s tx = .ok s') (hignores : tx.Ignores a) (hs : s.Unspendable a)
    (ha : a ≠ 0) (hpool : s'.liquidityPool ≠ a) : Kept a t s tx.now s' := by
  have hg' := hg.later ht
  have he := step_effect hg' h
  have hflows := he.flows hg'
  have hpool' := he.pool_ne hg.inv ha hpool
  obtain ⟨hunspendable, hnonce⟩ := step_unspendable hg' h hignores hs
  refine ⟨hunspendable, hnonce, step_outgoing hg' h hignores hs ha hpool', ?_, ?_⟩
  · have hscore := hflows.score a
    rw [hignores.yields, Nat.add_zero] at hscore
    omega
  · refine hflows.balance_le ht (Nat.le_refl _) ?_ (poolLoss_of_other fun _ => hpool'.symm)
    -- a movement of nothing pays nothing
    unfold Tx.pays
    cases he with
    | send hmove hallow =>
        rw [hmove]
        dsimp only
        split
        · subst a
          exact (hignores.movement hs hallow hmove).resolve_left fun hne => hne rfl
        · rfl
    | launch hcall => rw [Tx.movement_of_launch hcall]
    | reapprove hcall => rw [Tx.movement_of_approval hcall]
    | moveScore hcall => rw [Tx.movement_of_score hcall]

/-- **Run lemma.** -/
theorem TokenRun.kept {t t' : ℕ} {steps : List TokenStep} (hg : Good t s)
    (hrun : TokenRun evm t s steps t' s') (ha : a ≠ 0) (hpool : s'.liquidityPool ≠ a)
    (hsilent : ∀ st ∈ steps, st.label.Ignores a) (hs : s.Unspendable a) :
    s.liquidityPool ≠ a ∧ Kept a t s t' s' := by
  induction hrun with
  | nil =>
      exact ⟨hpool, hs, rfl, rfl, Nat.le_refl _, Nat.le_refl _⟩
  | @cons t t' s s₁ s' tx steps ht hnext _ ih =>
      have hhead : tx.Ignores a := hsilent ⟨s, tx, s₁⟩ List.mem_cons_self
      have htail : ∀ st ∈ steps, st.label.Ignores a := fun st hst =>
        hsilent st (List.mem_cons_of_mem _ hst)
      obtain ⟨hunspendable, -⟩ := step_unspendable (hg.later ht) hnext hhead hs
      obtain ⟨hpool₁, hrest⟩ := ih (hg.next ht hnext) hpool htail hunspendable
      have hfirst := Kept.step hg ht hnext hhead hs ha hpool₁
      have he := step_effect (hg.later ht) hnext
      exact ⟨he.pool_ne hg.inv ha hpool₁, hfirst.trans hrest⟩

/-- **An account that does nothing loses nothing**, over whole runs. It is not
the pool, has given no allowance, and in the run it sends no call and no permit
of it is used. -/
theorem silent_account_keeps {t t' : ℕ} {steps : List TokenStep}
    (hs : Reachable evm t s) (hrun : TokenRun evm t s steps t' s') (ha : a ≠ 0)
    (hpool : s'.liquidityPool ≠ a)
    (hsilent : ∀ st ∈ steps, st.label.sender ≠ a ∧ st.label.permits a = 0)
    (hallow : ∀ spender, s._allowances a spender = 0) :
    (∀ spender, s'._allowances a spender = 0) ∧
    s'._nonces a = s._nonces a ∧
    s'.outgoing a = s.outgoing a ∧
    s.burnScore a ≤ s'.burnScore a ∧
    ∀ later before after, t' ≤ later → s.balanceOf t a = .ok before →
      s'.balanceOf later a = .ok after → before ≤ after := by
  obtain ⟨-, hkept⟩ := TokenRun.kept hs.good hrun ha hpool hsilent hallow
  refine ⟨hkept.unspendable, hkept.nonce, hkept.outgoing, hkept.score, ?_⟩
  intro later before after hlater hbefore hafter
  rw [balanceOf_eq hbefore, balanceOf_eq hafter]
  exact hkept.balance.trans (s'.balanceAt_mono hlater a)

/-- Account `3` only receives. -/
theorem sample_silent_account :
    ∃ g steps, TokenRun sampleEvm 0 g steps 300 (sampleState sampleTxs) ∧
      (sampleState sampleTxs).outgoing 3 = [] := by
  obtain ⟨g, steps, hg, hrun, hlabels⟩ := sampleState_run
    (by decide +kernel : (sampleRun sampleTxs).isOk = true) (by decide)
    (by decide : (0 :: sampleTxs.map Tx.now).getLast? = some 300)
  have hpool : (sampleState sampleTxs).liquidityPool = 100 := by decide +kernel
  have hs : Reachable sampleEvm 0 g := ⟨0, 1, g, [], hg, .nil⟩
  obtain ⟨-, rfl⟩ := constructor_inv hg
  have hsilent : ∀ tx ∈ sampleTxs, tx.sender ≠ 3 ∧ tx.permits 3 = 0 := by decide
  obtain ⟨-, -, hsame, -⟩ := silent_account_keeps hs hrun
    (by decide : (3 : Address) ≠ 0) (by rw [hpool]; decide)
    (fun st hst => hsilent st.label (hlabels ▸ List.mem_map_of_mem hst))
    (fun _ => rfl)
  exact ⟨_, steps, hrun, hsame⟩

end CyberCash
