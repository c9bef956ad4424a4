import CyberCash.Results.LogReplay
import CyberCash.Results.BlockOrder

/-!
# Spending is granted

Two ledgers over whole runs. What the log moves out of an account is what its
own transfers and the transfers by others ask for, tax included, and for the
pool what is burned from it. And an allowance is what it was, plus what the
owner added to it, less what the owner took back and what was spent of it; so
others never spend more than they were granted.
-/

namespace CyberCash

open Solidity Function State TimedRun

namespace Tx

/-- What an account sends by its own transfers. -/
def sends (tx : Tx) (a : Address) : ℕ :=
  match tx.call with
  | .transfer _ x => if a = tx.sender then x.toNat else 0
  | _ => 0

/-- What the caller moves out of an account on its allowance. -/
def draws (tx : Tx) (a : Address) : ℕ :=
  match tx.call with
  | .transferFrom _from _ x => if a = _from then x.toNat else 0
  | _ => 0

theorem pays_eq (tx : Tx) (a : Address) : tx.pays a = tx.sends a + tx.draws a := by
  obtain ⟨msg, call⟩ := tx
  cases call with
  | transfer dst x => exact (Nat.add_zero _).symm
  | transferFrom src dst x => exact (Nat.zero_add _).symm
  | _ => rfl

/-- A draw is the caller's. -/
theorem draws_eq (tx : Tx) (a : Address) : tx.draws a = tx.spends a tx.sender := by
  obtain ⟨msg, call⟩ := tx
  cases call with
  | transferFrom src dst x =>
      unfold draws spends
      dsimp only
      by_cases ha : a = src
      · rw [if_pos ha, if_pos ⟨ha, rfl⟩]
      · rw [if_neg ha, if_neg fun h => ha h.1]
  | _ => rfl

end Tx

/-! ## What leaves an account -/

namespace State

variable {s s' : State} {now x : ℕ} {a src dst : Address}

theorem debited_settle (ha : a ≠ 0) (s : State) (now : ℕ) (b : Address) :
    (s.settle now b).tally (Event.debited a) = s.tally (Event.debited a) := by
  rw [tally_append (settle_logs s now b)]
  have hne : ¬(a = 0#160) := ha
  simp [settleEntries, Event.debited, hne]

theorem debited_levy (s : State) (src : Address) (x : ℕ) :
    (s.levy src x).tally (Event.debited a) = s.tally (Event.debited a) +
      ((if a = src then taxOf x else 0) +
        (if a = s.liquidityPool then s.poolBurn x else 0)) := by
  rw [tally_append (levy_logs s src x)]
  simp [levyEntries, Event.debited]

theorem debited_pay (s : State) (src dst : Address) (x : ℕ) :
    (s.pay src dst x).tally (Event.debited a) =
      s.tally (Event.debited a) + if a = src then x else 0 := by
  rw [tally_append (rfl : (s.pay src dst x).logs = s.logs ++ [.transfer src dst x])]
  simp [Event.debited]

theorem debited_reapproves (h : s.Reapproves s') :
    s'.tally (Event.debited a) = s.tally (Event.debited a) := by
  obtain ⟨_, _, entries, rfl, hentries, -⟩ := h
  rw [tally_append (rfl : _ = s.logs ++ entries),
    sum_of_approvals hentries fun _ _ _ => rfl, Nat.add_zero]

/-- The tax and the rest of a transfer are the amount. -/
theorem debited_send (h : Inv s) (ha : a ≠ 0) :
    (s.send now src dst x).tally (Event.debited a) = s.tally (Event.debited a) +
      ((if a = src then x else 0) +
        (if a = s.liquidityPool then
          (if s.taxed src dst then s.poolBurn x else 0) else 0)) := by
  rcases s.send_cases now src dst x with
    ⟨-, hexempt, hsend⟩ | ⟨-, htaxed, hsend⟩ | ⟨-, hexempt, hsend⟩
  · rw [hsend, hexempt, debited_pay, if_neg Bool.false_ne_true, ite_self, Nat.add_zero]
  · have htax := taxOf_le x
    rw [hsend, htaxed, if_pos rfl, debited_pay, debited_levy, debited_settle ha,
      poolBurn_settle (h.pool_ne_of_taxed htaxed).1, settle_liquidityPool]
    by_cases hsrc : a = src
    · rw [if_pos hsrc, if_pos hsrc, if_pos hsrc]
      omega
    · rw [if_neg hsrc, if_neg hsrc, if_neg hsrc]
      omega
  · rw [hsend, hexempt, debited_pay, debited_settle ha, if_neg Bool.false_ne_true,
      ite_self, Nat.add_zero]

end State

/-- **Step lemma.** The log takes from an account what the call asks for. -/
theorem Effect.debited {s s' : State} {tx : Tx} (hg : Good tx.now s)
    (he : Effect s tx s') {a : Address} (ha : a ≠ 0) :
    s'.tally (Event.debited a) =
      s.tally (Event.debited a) + (tx.pays a + s.poolLoss tx a) := by
  cases he with
  | launch hcall =>
      obtain ⟨hpays, -, -, -, -, hloss⟩ := s.no_flow (Tx.movement_of_launch hcall) a
      rw [hpays, hloss]
      rfl
  | reapprove hcall hs =>
      obtain ⟨hpays, -, -, -, -, hloss⟩ := s.no_flow (Tx.movement_of_approval hcall) a
      rw [hpays, hloss]
      exact debited_reapproves hs
  | send hmove =>
      have hs := s.charge_reapproves tx
      rw [debited_send (hg.charge tx).inv ha, debited_reapproves hs, hs.liquidityPool,
        taxed_reapproves hs, poolBurn_reapproves hs]
      simp only [Tx.pays, poolLoss, poolDue, hmove]
  | moveScore hcall =>
      obtain ⟨hpays, -, -, -, -, hloss⟩ := s.no_flow (Tx.movement_of_score hcall) a
      rw [hpays, hloss, Nat.add_zero]
      exact (debited_settle ha _ tx.now _).trans (debited_settle ha s tx.now _)

/-! ## What becomes of an allowance -/

namespace State

/-- What an approval call adds to an allowance. -/
def raises (s : State) (tx : Tx) (owner spender : Address) : ℕ :=
  match s.approves tx with
  | some (o, p, x) =>
      if owner = o ∧ spender = p then x - s._allowances owner spender else 0
  | none => 0

/-- What an approval call takes back. -/
def lowers (s : State) (tx : Tx) (owner spender : Address) : ℕ :=
  match s.approves tx with
  | some (o, p, x) =>
      if owner = o ∧ spender = p then s._allowances owner spender - x else 0
  | none => 0

/-- What a transfer is charged to an allowance. An infinite one is not charged. -/
def charges (s : State) (tx : Tx) (owner spender : Address) : ℕ :=
  if s._allowances owner spender = uintMax then 0 else tx.spends owner spender

theorem approves_of_not_approval {tx : Tx} (h : tx.call.isApproval = false)
    (s : State) : s.approves tx = none := by
  obtain ⟨msg, call⟩ := tx
  cases call <;> first | rfl | exact Bool.noConfusion h

theorem spends_of_approval {tx : Tx} (h : tx.call.isApproval = true)
    (owner spender : Address) : tx.spends owner spender = 0 := by
  obtain ⟨msg, call⟩ := tx
  cases call <;> first | rfl | exact Bool.noConfusion h

/-- Only the owner adds to an allowance, by a call or by a permit. -/
theorem owner_of_raises {s : State} {tx : Tx} {owner spender : Address}
    (h : s.raises tx owner spender ≠ 0) :
    tx.sender = owner ∨ tx.permits owner = 1 := by
  obtain ⟨msg, call⟩ := tx
  unfold raises at h
  cases happroves : s.approves ⟨msg, call⟩ with
  | none =>
      rw [happroves] at h
      exact absurd rfl h
  | some grant =>
      obtain ⟨o, p, x⟩ := grant
      rw [happroves] at h
      dsimp only at h
      have hparty : owner = o ∧ spender = p := by
        by_contra hne
        exact h (if_neg hne)
      obtain ⟨rfl, rfl⟩ := hparty
      cases call with
      | permit _owner _spender _ _ _ _ _ =>
          obtain ⟨rfl, -⟩ := Prod.mk.inj (Option.some.inj happroves)
          exact .inr (if_pos rfl)
      | approve _spender _ =>
          obtain ⟨rfl, -⟩ := Prod.mk.inj (Option.some.inj happroves)
          exact .inl rfl
      | increaseAllowance _spender _ =>
          obtain ⟨rfl, -⟩ := Prod.mk.inj (Option.some.inj happroves)
          exact .inl rfl
      | decreaseAllowance _spender _ =>
          obtain ⟨rfl, -⟩ := Prod.mk.inj (Option.some.inj happroves)
          exact .inl rfl
      | _ => cases happroves

end State

/-- A transfer by others is covered by the allowance it is charged to. -/
theorem Effect.covered {s s' : State} {tx : Tx} (he : Effect s tx s')
    (owner spender : Address) : s._allowances owner spender = uintMax ∨
      tx.spends owner spender ≤ s._allowances owner spender := by
  cases he with
  | launch hcall =>
      right
      simp [Tx.spends, hcall]
  | reapprove hcall =>
      right
      rw [spends_of_approval hcall]
      exact Nat.zero_le _
  | moveScore hcall =>
      right
      simp [Tx.spends, hcall]
  | send _ hallow =>
      obtain ⟨msg, call⟩ := tx
      cases call with
      | transferFrom src dst x =>
          by_cases hparty : owner = src ∧ spender = msg.sender
          · obtain ⟨rfl, rfl⟩ := hparty
            have hspends : Tx.spends ⟨msg, .transferFrom owner dst x⟩ owner msg.sender =
                x.toNat := if_pos ⟨rfl, rfl⟩
            rw [hspends]
            exact hallow
          · have hspends : Tx.spends ⟨msg, .transferFrom src dst x⟩ owner spender = 0 :=
              if_neg hparty
            right
            rw [hspends]
            exact Nat.zero_le _
      | _ => exact .inr (Nat.zero_le _)

/-- **Step lemma.** -/
theorem step_allowance {evm : Evm} {s s' : State} {tx : Tx} (hg : Good tx.now s)
    (h : step evm s tx = .ok s') (owner spender : Address) :
    s'._allowances owner spender +
        (s.charges tx owner spender + s.lowers tx owner spender) =
      s._allowances owner spender + s.raises tx owner spender := by
  cases hcall : tx.call.isApproval with
  | true =>
      obtain ⟨o, p, x, happroves, -, -, -, rfl⟩ := step_approval h hcall hg.allowance
      have hcharged : s.charges tx owner spender = 0 := by
        unfold charges
        rw [spends_of_approval hcall, ite_self]
      rw [reapproved_allowance, hcharged]
      unfold raises lowers
      rw [happroves]
      dsimp only
      by_cases hparty : owner = o ∧ spender = p
      · rw [if_pos hparty, if_pos hparty, if_pos hparty]
        omega
      · rw [if_neg hparty, if_neg hparty, if_neg hparty]
  | false =>
      have he := step_effect hg h
      have hnone := approves_of_not_approval hcall s
      rw [he.allowances hg.allowance hcall]
      unfold raises lowers charges spentDown
      rw [hnone]
      dsimp only
      by_cases hmax : s._allowances owner spender = uintMax
      · rw [if_pos hmax, if_pos hmax]
      · have hle := (he.covered owner spender).resolve_left hmax
        rw [if_neg hmax, if_neg hmax]
        omega

/-! ## Whole runs -/

section Runs

variable {evm : Evm} {t t' : ℕ} {s s' : State} {steps : List TokenStep}

/-- **Run lemma.** -/
theorem TokenRun.debited (hg : Good t s) (hrun : TokenRun evm t s steps t' s')
    {a : Address} (ha : a ≠ 0) :
    s'.tally (Event.debited a) = s.tally (Event.debited a) +
      (steps.map fun st => st.label.pays a + st.pre.poolLoss st.label a).sum := by
  have haccount := hrun.account (I := Good) (State.tally (Event.debited a)) (fun _ => 0)
    (fun st => st.label.pays a + st.pre.poolLoss st.label a)
    (fun hs ht hnext => ⟨(step_effect (hs.later ht) hnext).debited (hs.later ht) ha,
      hs.next ht hnext⟩) hg
  simpa using haccount

/-- **Run lemma.** -/
theorem TokenRun.allowance (hg : Good t s) (hrun : TokenRun evm t s steps t' s')
    (owner spender : Address) :
    s'._allowances owner spender + (steps.map fun st =>
        st.pre.charges st.label owner spender +
          st.pre.lowers st.label owner spender).sum =
      s._allowances owner spender +
        (steps.map fun st => st.pre.raises st.label owner spender).sum :=
  hrun.account (I := Good) (fun r => r._allowances owner spender)
    (fun st => st.pre.charges st.label owner spender +
      st.pre.lowers st.label owner spender)
    (fun st => st.pre.raises st.label owner spender)
    (fun hs ht hnext => ⟨step_allowance (hs.later ht) hnext owner spender,
      hs.next ht hnext⟩) hg

/-- **Spending is granted.** Along every run between reachable states, what the
log moves out of an account is what it sends itself, what others draw on its
allowances, and for the pool what is burned from it. What a spender with a
finite allowance draws is covered by the allowance at the start and what the
owner added to it; and the owner is the only one who adds. -/
theorem spending_is_granted (hs : Reachable evm t s)
    (hrun : TokenRun evm t s steps t' s') {owner : Address} (howner : owner ≠ 0) :
    s'.tally (Event.debited owner) = s.tally (Event.debited owner) +
      (steps.map fun st => st.label.sends owner).sum +
      (steps.map fun st => st.label.draws owner).sum +
      (steps.map fun st => st.pre.poolLoss st.label owner).sum ∧
    (∀ st ∈ steps, st.label.draws owner = st.label.spends owner st.label.sender) ∧
    ∀ spender,
      ((∀ st ∈ steps, st.pre._allowances owner spender ≠ uintMax) →
        s'._allowances owner spender +
            (steps.map fun st => st.label.spends owner spender).sum ≤
          s._allowances owner spender +
            (steps.map fun st => st.pre.raises st.label owner spender).sum) ∧
      ∀ st ∈ steps, st.pre.raises st.label owner spender ≠ 0 →
        st.label.sender = owner ∨ st.label.permits owner = 1 := by
  refine ⟨?_, ?_, ?_⟩
  · have hdebited := TokenRun.debited hs.good hrun howner
    simp only [Tx.pays_eq, List.sum_map_add] at hdebited
    omega
  · intro st _
    exact st.label.draws_eq owner
  · intro spender
    refine ⟨?_, fun st _ => owner_of_raises⟩
    intro hfinite
    have hallowance := TokenRun.allowance hs.good hrun owner spender
    have hcharges : (steps.map fun st => st.pre.charges st.label owner spender) =
        steps.map fun st => st.label.spends owner spender :=
      List.map_congr_left fun st hst => if_neg (hfinite st hst)
    rw [List.sum_map_add, hcharges] at hallowance
    omega

/-- The trader lets its friend draw a part of 1000 tokens. -/
def allowanceTxs : List Tx :=
  [⟨traderMsg 310, .approve 3 1000⟩, ⟨friendMsg 320, .transferFrom 2 4 300⟩]

theorem sample_spending :
    ∃ steps, TokenRun sampleEvm 300 (sampleState sampleTxs) steps 320
        (sampleState (sampleTxs ++ allowanceTxs)) ∧
      (sampleState (sampleTxs ++ allowanceTxs))._allowances 2 3 = 700 ∧
      (sampleState (sampleTxs ++ allowanceTxs)).tally (Event.debited 2) =
        (sampleState sampleTxs).tally (Event.debited 2) +
          (steps.map fun st => st.label.sends 2).sum +
          (steps.map fun st => st.label.draws 2).sum +
          (steps.map fun st => st.pre.poolLoss st.label 2).sum := by
  obtain ⟨steps, hrun, -⟩ := sampleState_more
    (by decide +kernel : (sampleRun (sampleTxs ++ allowanceTxs)).isOk = true)
    (by decide : (300 :: allowanceTxs.map Tx.now).IsChain (· ≤ ·))
    (by decide : (300 :: allowanceTxs.map Tx.now).getLast? = some 320)
  have howner : (2 : Address) ≠ 0 := by decide
  exact ⟨steps, hrun, by decide +kernel,
    (spending_is_granted sampleTxs_reachable hrun howner).1⟩

end Runs

end CyberCash
