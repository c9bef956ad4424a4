import CyberCash.Semantics.Timeline

/-!
# What the log records

The contract emits one event for each execution of `mintRewards` and one for
each burn from the pool, and the log is never shortened, so a tally over the
log is a quantity of the whole history. Before the launch the log has only the
events of an ordinary ERC20 and the supply has never moved.
-/

namespace CyberCash

open Solidity Function State TimedRun LazyIndex

/-! ## Tallies -/

namespace Event

/-- Events an ordinary ERC20 emits as well. -/
def standard : Event → Bool
  | .transfer _ _ _ => true
  | .approval _ _ _ => true
  | _ => false

def amountFromLP : Event → ℕ
  | .burnedTokensFromLP amount => amount
  | _ => 0

def amountClaimed (a : Address) : Event → ℕ
  | .rewardsClaimed user amount => if user = a then amount else 0
  | _ => 0

def claims (a : Address) : Event → ℕ
  | .rewardsClaimed user _ => if user = a then 1 else 0
  | _ => 0

end Event

namespace State

def tally (f : Event → ℕ) (s : State) : ℕ := (s.logs.map f).sum

/-- All that was ever burned from the liquidity pool. -/
def burnedFromLP (s : State) : ℕ := s.tally Event.amountFromLP

/-- All rewards ever minted to an account. -/
def claimed (s : State) (a : Address) : ℕ := s.tally (Event.amountClaimed a)

/-- How often `mintRewards` was executed for an account. -/
def mints (s : State) (a : Address) : ℕ := s.tally (Event.claims a)

/-- Only standard events in the log. -/
def Quiet (s : State) : Prop := ∀ e ∈ s.logs, e.standard = true

end State

/-- A tally that does not count standard events. -/
def Special (f : Event → ℕ) : Prop := ∀ e, e.standard = true → f e = 0

theorem special_amountFromLP : Special Event.amountFromLP := by
  intro e he
  cases e with
  | burnedTokensFromLP amount => exact Bool.noConfusion he
  | _ => rfl

theorem special_amountClaimed (a : Address) : Special (Event.amountClaimed a) := by
  intro e he
  cases e with
  | rewardsClaimed user amount => exact Bool.noConfusion he
  | _ => rfl

theorem special_claims (a : Address) : Special (Event.claims a) := by
  intro e he
  cases e with
  | rewardsClaimed user amount => exact Bool.noConfusion he
  | _ => rfl

namespace State

variable {s s' : State} {f : Event → ℕ} {now x n : ℕ} {a src dst : Address}

theorem tally_quiet (hf : Special f) (h : s.Quiet) : s.tally f = 0 := by
  unfold tally
  apply List.sum_eq_zero
  intro y hy
  obtain ⟨e, he, rfl⟩ := List.mem_map.mp hy
  exact hf e (h e he)

theorem tally_settle (hf : Special f) (s : State) (now : ℕ) (a : Address) :
    (s.settle now a).tally f =
      s.tally f + f (.rewardsClaimed a (s.rewardsAt now a)) := by
  have hlogs : (s.settle now a).logs = s.logs ++
      [.transfer 0 a (s.rewardsAt now a)] ++
        [.rewardsClaimed a (s.rewardsAt now a)] := rfl
  unfold tally
  rw [hlogs, List.map_append, List.map_append, List.sum_append, List.sum_append,
    List.map_singleton, List.map_singleton, List.sum_singleton, List.sum_singleton,
    hf (.transfer 0 a _) rfl, Nat.add_zero]

theorem tally_levy (hf : Special f) :
    (s.levy src x).tally f =
      s.tally f + f (.burnedTokensFromLP (s.poolBurn x)) := by
  have hlogs : (s.levy src x).logs = s.logs ++ [.transfer src 0 (taxOf x)] ++
      [.transfer s.liquidityPool 0 (s.poolBurn x)] ++
        [.burnedTokensFromLP (s.poolBurn x)] := rfl
  unfold tally
  simp only [hlogs, List.map_append, List.sum_append, List.map_singleton,
    List.sum_singleton]
  rw [hf (.transfer src 0 _) rfl, hf (.transfer s.liquidityPool 0 _) rfl,
    Nat.add_zero]

theorem tally_pay (hf : Special f) : (s.pay src dst x).tally f = s.tally f := by
  have hlogs : (s.pay src dst x).logs = s.logs ++ [.transfer src dst x] := rfl
  unfold tally
  rw [hlogs, List.map_append, List.sum_append, List.map_singleton,
    List.sum_singleton, hf (.transfer src dst x) rfl, Nat.add_zero]

theorem tally_reapproves (hf : Special f) (h : s.Reapproves s') :
    s'.tally f = s.tally f := by
  obtain ⟨allowances, nonces, entries, rfl, hentries, -⟩ := h
  have hnone : (entries.map f).sum = 0 := by
    apply List.sum_eq_zero
    intro y hy
    obtain ⟨e, he, rfl⟩ := List.mem_map.mp hy
    obtain ⟨owner, spender, z, rfl⟩ := hentries e he
    exact hf _ rfl
  show ((s.logs ++ entries).map f).sum = (s.logs.map f).sum
  rw [List.map_append, List.sum_append, hnone, Nat.add_zero]

theorem tally_moveScore (f : Event → ℕ) (s : State) :
    (s.moveScore now src dst n).tally f =
      ((s.settle now src).settle now dst).tally f := by
  unfold tally
  rfl

/-- A transfer claims for the payer, and burns from the pool if it is taxed. -/
theorem tally_send (hf : Special f) (h : Inv s) :
    (s.send now src dst x).tally f = s.tally f +
      (if s.liquidityPool = 0 then 0
        else f (.rewardsClaimed src (s.rewardsAt now src))) +
      (if s.taxed src dst then f (.burnedTokensFromLP (s.poolBurn x)) else 0) := by
  rcases s.send_cases now src dst x with
    ⟨hpool, hexempt, hsend⟩ | ⟨hpool, htaxed, hsend⟩ | ⟨hpool, hexempt, hsend⟩
  · rw [hsend, if_pos hpool, hexempt, if_neg Bool.false_ne_true, tally_pay hf]
    rfl
  · rw [hsend, if_neg hpool, htaxed, if_pos rfl, tally_pay hf, tally_levy hf,
      tally_settle hf, poolBurn_settle (h.pool_ne_of_taxed htaxed).1]
  · rw [hsend, if_neg hpool, hexempt, if_neg Bool.false_ne_true, tally_pay hf,
      tally_settle hf, Nat.add_zero]

end State

/-! ## Burns from the pool -/

/-- The log counts what the balance equations burn. -/
theorem Effect.burnedFromLP {s s' : State} {tx : Tx} (hg : Good tx.now s)
    (he : Effect s tx s') : s'.burnedFromLP = s.burnedFromLP + s.poolDue tx := by
  have hf := special_amountFromLP
  cases he with
  | launch hcall =>
      rw [(s.no_flow (Tx.movement_of_launch hcall) 0).2.2.2.2.1]
      rfl
  | reapprove hcall hs =>
      rw [(s.no_flow (Tx.movement_of_approval hcall) 0).2.2.2.2.1]
      exact tally_reapproves hf hs
  | @send src dst x hmove =>
      have hs := s.charge_reapproves tx
      unfold State.burnedFromLP poolDue
      rw [tally_send hf (hg.charge tx).inv, tally_reapproves hf hs, hmove,
        taxed_reapproves hs, poolBurn_reapproves hs]
      have hclaim (r : ℕ) : Event.amountFromLP (.rewardsClaimed src r) = 0 := rfl
      rw [hclaim, ite_self, Nat.add_zero]
      rfl
  | moveScore hcall =>
      rw [(s.no_flow (Tx.movement_of_score hcall) 0).2.2.2.2.1]
      unfold State.burnedFromLP
      rw [tally_moveScore, tally_settle hf, tally_settle hf]
      rfl

/-! ## Before the launch -/

/-- Nothing but plain ERC20 transfers and approvals has happened. -/
structure Untouched (s : State) : Prop where
  supply : s._totalSupply = INITIAL_SUPPLY
  quiet : s.Quiet

theorem Untouched.append {s s' : State} (h : Untouched s)
    (entries : List Event) (hsupply : s'._totalSupply = s._totalSupply)
    (hlogs : s'.logs = s.logs ++ entries)
    (hentries : ∀ e ∈ entries, e.standard = true) : Untouched s' := by
  refine ⟨hsupply.trans h.supply, ?_⟩
  intro e he
  rw [hlogs] at he
  rcases List.mem_append.mp he with he | he
  · exact h.quiet e he
  · exact hentries e he

theorem Untouched.reapproves {s s' : State} (h : Untouched s)
    (hs : s.Reapproves s') : Untouched s' := by
  obtain ⟨allowances, nonces, entries, rfl, hentries, -⟩ := hs
  refine h.append entries rfl rfl ?_
  intro e he
  obtain ⟨owner, spender, x, rfl⟩ := hentries e he
  rfl

theorem Untouched.effect {s s' : State} {tx : Tx} (h : Untouched s)
    (hinv : Inv s) (howner : s.owner ≠ 0) (he : Effect s tx s') :
    Untouched s' := by
  have hpool : s.liquidityPool = 0 := by
    by_contra hset
    exact howner (hinv.launched hset)
  cases he with
  | launch => exact ⟨h.supply, h.quiet⟩
  | reapprove _ hs => exact h.reapproves hs
  | @send src dst x =>
      have hs := s.charge_reapproves tx
      have hcharged := h.reapproves hs
      unfold send
      rw [if_pos (hs.liquidityPool.trans hpool)]
      refine hcharged.append [.transfer src dst x] rfl rfl ?_
      intro e he
      rw [List.mem_singleton] at he
      rw [he]
      rfl
  | moveScore hcall hdst hexempt hn₀ hn =>
      -- nobody has any score to move
      have hidle := (hinv.dormant howner).2.2 tx.sender
      omega

theorem untouched_of_owner {evm : Evm} {t : ℕ} {s : State}
    (hs : Reachable evm t s) (howner : s.owner ≠ 0) : Untouched s := by
  obtain ⟨t₀, owner, g, steps, hg, hrun⟩ := hs
  have hall : Good t s ∧ (s.owner ≠ 0 → Untouched s) := by
    refine hrun.invariant (I := fun t r => Good t r ∧ (r.owner ≠ 0 → Untouched r))
      ?_ ⟨constructor_good hg, ?_⟩
    · rintro t r tx r' ⟨hr, huntouched⟩ ht hnext
      have he := step_effect (hr.later ht) hnext
      refine ⟨hr.next ht hnext, ?_⟩
      intro howner'
      -- a revoked owner stays revoked, so this one has been set all along
      have hset : r.owner ≠ 0 := fun hrevoked => howner' (he.frozen hrevoked).1
      exact (huntouched hset).effect hr.inv hset he
    · intro _
      obtain ⟨-, rfl⟩ := constructor_inv hg
      refine ⟨rfl, ?_⟩
      intro e he
      rw [List.mem_singleton.mp he]
      rfl
  exact hall.2 howner

/-- **What the launch starts from.** -/
structure Start (t₀ : ℕ) (s₀ : State) : Prop where
  good : Good t₀ s₀
  owner : s₀.owner = 0
  clock : s₀.lastMintTime = t₀
  supply : s₀._totalSupply = INITIAL_SUPPLY
  pending : s₀.pendingMints = 0
  burned : s₀.totalBurned = 1
  idle : ∀ a, s₀.burnScore a = 0
  quiet : s₀.Quiet

theorem totalBurned_of_idle {s : State} (h : Inv s)
    (hidle : ∀ a, s.burnScore a = 0) : s.totalBurned = 1 := by
  have htotal : s.totalBurned = 1 + ∑ a, s.burnScore a := h.rewards.total
  rw [htotal, Finset.sum_eq_zero fun a _ => hidle a, Nat.add_zero]

theorem Launched.start {evm : Evm} {t₀ : ℕ} {s₀ : State}
    (h : Launched evm t₀ s₀) : Start t₀ s₀ := by
  have hgood := h.reachable.good
  obtain ⟨t, s, tx, hs, ht, hcall, hstep, rfl⟩ := h
  obtain ⟨pool, migrator, hlaunch⟩ := Call.eq_initialise hcall
  have hg := hs.good
  obtain ⟨howner, rfl⟩ := (step_effect (hg.later ht) hstep).of_launch hlaunch
  have huntouched := untouched_of_owner hs howner
  obtain ⟨-, hpending, hidle⟩ := hg.inv.dormant howner
  exact ⟨hgood, rfl, rfl, huntouched.supply, hpending,
    totalBurned_of_idle (s := s) hg.inv hidle, hidle, huntouched.quiet⟩

/-- And the index starts from zero. -/
theorem Launched.index_zero {evm : Evm} {t₀ : ℕ} {s₀ : State}
    (h : Launched evm t₀ s₀) : s₀.rewardsPerTokenBurned = 0 := by
  obtain ⟨t, s, tx, hs, ht, hcall, hstep, rfl⟩ := h
  obtain ⟨pool, migrator, hlaunch⟩ := Call.eq_initialise hcall
  obtain ⟨howner, rfl⟩ := (step_effect (hs.good.later ht) hstep).of_launch hlaunch
  exact (hs.good.inv.dormant howner).1

end CyberCash
