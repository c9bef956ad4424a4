import CyberCash.Semantics.EventLog
import CyberCash.Results.Solvency

/-!
# The log tells the storage

Along every run the log is the concatenation of the entries of the calls, so an
indexer that was right once stays right by reading on, and one that reads from
the constructor on has the minted balances, the allowances and the supply. Two
sums over the log give what was burned and what was claimed. Burn scores cannot
be read off: a score move does not log its amount.
-/

namespace CyberCash

open Solidity Function State TimedRun

/-! ## Sums over the log -/

namespace Event

/-- What was minted, the initial supply included. -/
def amountMinted : Event → ℕ
  | .transfer src _ x => if src = 0 then x else 0
  | _ => 0

/-- What was burned, from payers and from the pool. -/
def amountBurned : Event → ℕ
  | .transfer _ dst x => if dst = 0 then x else 0
  | _ => 0

/-- What was claimed by anybody. -/
def amountRewarded : Event → ℕ
  | .rewardsClaimed _ x => x
  | _ => 0

def credited (a : Address) : Event → ℕ
  | .transfer _ dst x => if a = dst then x else 0
  | _ => 0

def debited (a : Address) : Event → ℕ
  | .transfer src _ x => if a = src then x else 0
  | _ => 0

end Event

theorem tally_append {f : Event → ℕ} {s s' : State} {entries : List Event}
    (h : s'.logs = s.logs ++ entries) :
    s'.tally f = s.tally f + (entries.map f).sum := by
  unfold tally
  rw [h, List.map_append, List.sum_append]

/-- Approvals do not count. -/
theorem sum_of_approvals {entries : List Event} {f : Event → ℕ}
    (hentries : ∀ e ∈ entries, ∃ owner spender x, e = .approval owner spender x)
    (hf : ∀ owner spender x, f (.approval owner spender x) = 0) :
    (entries.map f).sum = 0 := by
  apply List.sum_eq_zero
  intro y hy
  obtain ⟨e, he, rfl⟩ := List.mem_map.mp hy
  obtain ⟨owner, spender, x, rfl⟩ := hentries e he
  exact hf owner spender x

section Sums

variable {a src dst pool : Address}

theorem sums_of_claim (ha : a ≠ 0) (r : ℕ) :
    let entries : List Event := [.transfer 0 a r, .rewardsClaimed a r]
    (entries.map Event.amountFromLP).sum = 0 ∧
      (entries.map Event.amountBurned).sum = 0 ∧
      (entries.map Event.amountMinted).sum = r ∧
      (entries.map Event.amountRewarded).sum = r := by
  simp only [List.map_cons, List.map_nil, List.sum_cons, List.sum_nil,
    Event.amountFromLP, Event.amountBurned, Event.amountMinted, Event.amountRewarded,
    if_neg ha, if_true, Nat.add_zero, Nat.zero_add, and_self]

theorem sums_of_levy (hsrc : src ≠ 0) (hpool : pool ≠ 0) (tax burn : ℕ) :
    let entries : List Event :=
      [.transfer src 0 tax, .transfer pool 0 burn, .burnedTokensFromLP burn]
    (entries.map Event.amountFromLP).sum = burn ∧
      (entries.map Event.amountBurned).sum = tax + burn ∧
      (entries.map Event.amountMinted).sum = 0 ∧
      (entries.map Event.amountRewarded).sum = 0 := by
  simp only [List.map_cons, List.map_nil, List.sum_cons, List.sum_nil,
    Event.amountFromLP, Event.amountBurned, Event.amountMinted, Event.amountRewarded,
    if_neg hsrc, if_neg hpool, if_true, Nat.add_zero, Nat.zero_add, and_self]

theorem sums_of_transfer (hsrc : src ≠ 0) (hdst : dst ≠ 0) (x : ℕ) :
    let entries : List Event := [.transfer src dst x]
    (entries.map Event.amountFromLP).sum = 0 ∧
      (entries.map Event.amountBurned).sum = 0 ∧
      (entries.map Event.amountMinted).sum = 0 ∧
      (entries.map Event.amountRewarded).sum = 0 := by
  simp only [List.map_singleton, List.sum_singleton, Event.amountFromLP,
    Event.amountBurned, Event.amountMinted, Event.amountRewarded, if_neg hsrc,
    if_neg hdst, and_self]

end Sums

/-- The burned amounts and the claims add up. -/
structure Booked (s : State) : Prop where
  burned : s.totalBurned + s.burnedFromLP = 1 + s.tally Event.amountBurned
  minted : s.tally Event.amountMinted =
    INITIAL_SUPPLY + s.tally Event.amountRewarded

namespace Booked

variable {s s' : State} {now x n : ℕ} {a src dst : Address}

/-- Entries that add to both sides of the two equations. -/
theorem append {entries : List Event} (h : Booked s)
    (hlogs : s'.logs = s.logs ++ entries)
    (hburned : s'.totalBurned + (entries.map Event.amountFromLP).sum =
      s.totalBurned + (entries.map Event.amountBurned).sum)
    (hminted : (entries.map Event.amountMinted).sum =
      (entries.map Event.amountRewarded).sum) : Booked s' := by
  have hb := h.burned
  have hm := h.minted
  unfold burnedFromLP at hb
  constructor
  · unfold burnedFromLP
    rw [tally_append hlogs, tally_append hlogs]
    omega
  · rw [tally_append hlogs, tally_append hlogs, hm, hminted, Nat.add_assoc]

theorem settle (h : Booked s) (now : ℕ) (ha : a ≠ 0) : Booked (s.settle now a) := by
  obtain ⟨hlp, hburned, hminted, hrewarded⟩ := sums_of_claim ha (s.rewardsAt now a)
  refine h.append (settle_logs s now a) ?_ ?_
  · unfold settleEntries
    rw [hlp, hburned, settle_totalBurned]
  · unfold settleEntries
    rw [hminted, hrewarded]

theorem levy (h : Booked s) (hsrc : src ≠ 0) (hpool : s.liquidityPool ≠ 0) :
    Booked (s.levy src x) := by
  obtain ⟨hlp, hburned, hminted, hrewarded⟩ :=
    sums_of_levy hsrc hpool (taxOf x) (s.poolBurn x)
  refine h.append (levy_logs s src x) ?_ ?_
  · unfold levyEntries
    rw [hlp, hburned, levy_totalBurned, Nat.add_assoc]
  · unfold levyEntries
    rw [hminted, hrewarded]

theorem pay (h : Booked s) (hsrc : src ≠ 0) (hdst : dst ≠ 0) :
    Booked (s.pay src dst x) := by
  obtain ⟨hlp, hburned, hminted, hrewarded⟩ := sums_of_transfer hsrc hdst x
  refine h.append (rfl : (s.pay src dst x).logs = s.logs ++ [.transfer src dst x]) ?_ ?_
  · rw [hlp, hburned, pay_totalBurned]
  · rw [hminted, hrewarded]

theorem send (h : Booked s) (hsrc : src ≠ 0) (hdst : dst ≠ 0) :
    Booked (s.send now src dst x) := by
  rcases s.send_cases now src dst x with
    ⟨-, -, hsend⟩ | ⟨hpool, -, hsend⟩ | ⟨-, -, hsend⟩
  · rw [hsend]
    exact h.pay hsrc hdst
  · rw [hsend]
    exact ((h.settle now hsrc).levy hsrc hpool).pay hsrc hdst
  · rw [hsend]
    exact (h.settle now hsrc).pay hsrc hdst

theorem reapproves (h : Booked s) (hs : s.Reapproves s') : Booked s' := by
  have hlp : s'.burnedFromLP = s.burnedFromLP :=
    tally_reapproves special_amountFromLP hs
  obtain ⟨allowances, nonces, entries, rfl, hentries, -⟩ := hs
  refine h.append (rfl : _ = s.logs ++ entries) ?_ ?_
  · rw [sum_of_approvals hentries fun _ _ _ => rfl,
      sum_of_approvals hentries fun _ _ _ => rfl]
  · rw [sum_of_approvals hentries fun _ _ _ => rfl,
      sum_of_approvals hentries fun _ _ _ => rfl]

/-- **Step lemma.** -/
theorem effect {tx : Tx} (h : Booked s) (he : Effect s tx s') : Booked s' := by
  cases he with
  | launch => exact ⟨h.burned, h.minted⟩
  | reapprove _ hs => exact h.reapproves hs
  | send _ _ hsrc hdst =>
      exact (h.reapproves (s.charge_reapproves tx)).send hsrc hdst
  | moveScore _ hdst =>
      have hsettled := (h.settle tx.now tx.msg.sender_ne_zero).settle tx.now hdst
      exact ⟨hsettled.burned, hsettled.minted⟩

theorem constructor {t : ℕ} {owner : Address} {g : State}
    (h : State.constructor t owner = .ok g) : Booked g := by
  obtain ⟨howner, rfl⟩ := constructor_inv h
  constructor
  · simp only [burnedFromLP, tally, blank, List.map_singleton, List.sum_singleton,
      Event.amountFromLP, Event.amountBurned, if_neg howner]
  · simp only [tally, List.map_singleton, List.sum_singleton, Event.amountMinted,
      Event.amountRewarded, if_true, Nat.add_zero]

end Booked

/-! ## The balance of one account -/

/-- What an account holds is what it received less what left it. -/
def Balanced (a : Address) (s : State) : Prop :=
  s._balances a + s.tally (Event.debited a) = s.tally (Event.credited a)

namespace Balanced

variable {s s' : State} {now x n : ℕ} {a b src dst : Address}

theorem append {entries : List Event} (h : Balanced a s)
    (hlogs : s'.logs = s.logs ++ entries)
    (hentries : s'._balances a + (entries.map (Event.debited a)).sum =
      s._balances a + (entries.map (Event.credited a)).sum) : Balanced a s' := by
  unfold Balanced at h ⊢
  rw [tally_append hlogs, tally_append hlogs, ← h]
  omega

theorem settle (h : Balanced a s) (ha : a ≠ 0) (now : ℕ) (b : Address) :
    Balanced a (s.settle now b) := by
  refine h.append (settle_logs s now b) ?_
  have hbalance : (s.settle now b)._balances a =
      s._balances a + if a = b then s.rewardsAt now b else 0 := by
    show update s._balances b _ a = _
    by_cases hab : a = b
    · rw [hab, update_self, if_pos rfl]
    · rw [update_of_ne hab, if_neg hab, Nat.add_zero]
  unfold settleEntries
  simp only [List.map_cons, List.map_nil, List.sum_cons, List.sum_nil,
    Event.debited, Event.credited, if_neg ha, Nat.add_zero]
  exact hbalance

theorem levy (h : Balanced a s) (ha : a ≠ 0) (hne : s.liquidityPool ≠ src)
    (htax : taxOf x ≤ s._balances src) : Balanced a (s.levy src x) := by
  have hburn := s.poolBurn_le x
  refine h.append (levy_logs s src x) ?_
  have hbalance : (s.levy src x)._balances a + ((if a = src then taxOf x else 0) +
      (if a = s.liquidityPool then s.poolBurn x else 0)) = s._balances a := by
    show update (update s._balances src _) s.liquidityPool _ a + _ = _
    by_cases hpool : a = s.liquidityPool
    · subst hpool
      rw [update_self, update_of_ne hne, if_neg hne, if_pos rfl, Nat.zero_add,
        Nat.sub_add_cancel hburn]
    · rw [update_of_ne hpool, if_neg hpool, Nat.add_zero]
      by_cases hsrc : a = src
      · subst hsrc
        rw [update_self, if_pos rfl, Nat.sub_add_cancel htax]
      · rw [update_of_ne hsrc, if_neg hsrc, Nat.add_zero]
  unfold levyEntries
  simp only [List.map_cons, List.map_nil, List.sum_cons, List.sum_nil,
    Event.debited, Event.credited, if_neg ha, Nat.add_zero]
  exact hbalance

theorem pay (h : Balanced a s) (hx : x ≤ s._balances src) :
    Balanced a (s.pay src dst x) := by
  refine h.append (rfl : (s.pay src dst x).logs = s.logs ++ [.transfer src dst x]) ?_
  rw [List.map_singleton, List.map_singleton, List.sum_singleton, List.sum_singleton]
  exact moved_add hx dst a

theorem reapproves (h : Balanced a s) (hs : s.Reapproves s') : Balanced a s' := by
  have hsame := hs.balances
  obtain ⟨allowances, nonces, entries, rfl, hentries, -⟩ := hs
  refine h.append (rfl : _ = s.logs ++ entries) ?_
  rw [sum_of_approvals hentries fun _ _ _ => rfl,
    sum_of_approvals hentries fun _ _ _ => rfl]

theorem send (h : Balanced a s) (hinv : Inv s) (ha : a ≠ 0)
    (hx : x ≤ s.balanceAt now src) : Balanced a (s.send now src dst x) := by
  rcases s.send_cases now src dst x with
    ⟨hpool, -, hsend⟩ | ⟨-, htaxed, hsend⟩ | ⟨-, -, hsend⟩
  · rw [hinv.balanceAt_no_pool hpool] at hx
    rw [hsend]
    exact h.pay hx
  · rw [hsend]
    exact ((h.settle ha now src).levy ha (hinv.pool_ne_of_taxed htaxed).1
      (Inv.tax_le_settled hx)).pay (hinv.levy_balance_src htaxed hx)
  · rw [← Inv.settle_balance s now src] at hx
    rw [hsend]
    exact (h.settle ha now src).pay hx

/-- **Step lemma.** -/
theorem effect {tx : Tx} (h : Balanced a s) (hg : Good tx.now s) (ha : a ≠ 0)
    (he : Effect s tx s') : Balanced a s' := by
  cases he with
  | launch => exact h
  | reapprove _ hs => exact h.reapproves hs
  | send _ _ _ _ hx =>
      rw [← balanceAt_charge s tx] at hx
      exact (h.reapproves (s.charge_reapproves tx)).send (hg.charge tx).inv ha hx
  | moveScore => exact (h.settle ha _ _).settle ha _ _

theorem constructor {t : ℕ} {owner : Address} {g : State} (ha : a ≠ 0)
    (h : State.constructor t owner = .ok g) : Balanced a g := by
  obtain ⟨-, rfl⟩ := constructor_inv h
  unfold Balanced
  simp only [tally, List.map_singleton, List.sum_singleton, Event.debited,
    Event.credited, if_neg ha, Nat.add_zero]
  by_cases hab : a = owner
  · rw [hab, update_self, if_pos rfl]
  · rw [update_of_ne hab, if_neg hab]

end Balanced

/-! ## Runs -/

/-- The entries of a history. -/
def historyEntries (steps : List TokenStep) : List Event :=
  steps.flatMap fun st => st.pre.entries st.label

/-- **Run lemma.** -/
theorem TokenRun.logs {evm : Evm} {t t' : ℕ} {s s' : State} {steps : List TokenStep}
    (hg : Good t s) (hrun : TokenRun evm t s steps t' s') :
    s'.logs = s.logs ++ historyEntries steps ∧
      s.replayed.events (historyEntries steps) = s'.replayed := by
  unfold historyEntries
  induction hrun with
  | nil => exact ⟨(List.append_nil _).symm, rfl⟩
  | @cons t t' s s₁ s' tx steps ht hnext _ ih =>
      have hg' := hg.later ht
      obtain ⟨hlogs, hreplay⟩ := ih (hg.next ht hnext)
      rw [List.flatMap_cons]
      constructor
      · rw [hlogs, step_logs hg' hnext, List.append_assoc]
      · rw [Replay.events_append, replay_step hg' hnext, hreplay]

theorem constructor_replayed {t : ℕ} {owner : Address} {g : State}
    (h : State.constructor t owner = .ok g) :
    Replay.empty.events g.logs = g.replayed := by
  obtain ⟨-, rfl⟩ := constructor_inv h
  simp [Replay.events, Replay.event, Replay.empty, replayed, blank]

theorem Reachable.replayed {evm : Evm} {t : ℕ} {s : State}
    (h : Reachable evm t s) : Replay.empty.events s.logs = s.replayed := by
  obtain ⟨t₀, owner, g, steps, hg, hrun⟩ := h
  obtain ⟨hlogs, hreplay⟩ := TokenRun.logs (constructor_good hg) hrun
  rw [hlogs, Replay.events_append, constructor_replayed hg, hreplay]

theorem Reachable.booked {evm : Evm} {t : ℕ} {s : State}
    (h : Reachable evm t s) : Booked s := by
  obtain ⟨t₀, owner, g, steps, hg, hrun⟩ := h
  have hboth := hrun.invariant (I := fun t r => Good t r ∧ Booked r)
    (fun hr ht hnext => ⟨hr.1.next ht hnext,
      hr.2.effect (step_effect (hr.1.later ht) hnext)⟩)
    ⟨constructor_good hg, Booked.constructor hg⟩
  exact hboth.2

theorem Reachable.balanced {evm : Evm} {t : ℕ} {s : State} {a : Address}
    (h : Reachable evm t s) (ha : a ≠ 0) : Balanced a s := by
  obtain ⟨t₀, owner, g, steps, hg, hrun⟩ := h
  have hboth := hrun.invariant (I := fun t r => Good t r ∧ Balanced a r)
    (fun hr ht hnext => ⟨hr.1.next ht hnext,
      hr.2.effect (hr.1.later ht) ha (step_effect (hr.1.later ht) hnext)⟩)
    ⟨constructor_good hg, Balanced.constructor ha hg⟩
  exact hboth.2

/-- **The log determines the storage of the token.** Between two moments of a
run the log grows by exactly the entries of the calls; replaying them leads
from the one storage to the other, and replaying the whole log from nothing
leads to the storage. What an account holds, what was burned and what was
claimed are sums over it. -/
theorem log_determines_storage {evm : Evm} {t t' : ℕ} {s s' : State}
    {steps : List TokenStep} (hs : Reachable evm t s)
    (hrun : TokenRun evm t s steps t' s') :
    s'.logs = s.logs ++ historyEntries steps ∧
    s.replayed.events (historyEntries steps) = s'.replayed ∧
    Replay.empty.events s'.logs = ⟨s'._balances, s'._allowances, s'._totalSupply⟩ ∧
    (∀ a, a ≠ 0 → s'._balances a + s'.tally (Event.debited a) =
      s'.tally (Event.credited a)) ∧
    s'.totalBurned + s'.burnedFromLP = 1 + s'.tally Event.amountBurned ∧
    s'.tally Event.amountMinted =
      INITIAL_SUPPLY + s'.tally Event.amountRewarded := by
  have hs' := hs.run hrun
  obtain ⟨hlogs, hreplay⟩ := TokenRun.logs hs.good hrun
  exact ⟨hlogs, hreplay, hs'.replayed, fun a ha => hs'.balanced ha,
    hs'.booked.burned, hs'.booked.minted⟩

/-- The trades after the launch of the sample history. -/
theorem sample_log :
    ∃ steps, TokenRun sampleEvm 100 (sampleState launchTxs) steps 300
        (sampleState sampleTxs) ∧
      (sampleState launchTxs).replayed.events (historyEntries steps) =
        (sampleState sampleTxs).replayed := by
  obtain ⟨steps, hrun, -⟩ := sampleState_more
    (by decide +kernel : (sampleRun (launchTxs ++ tradingTxs)).isOk = true)
    (by decide) (by decide : (100 :: tradingTxs.map Tx.now).getLast? = some 300)
  exact ⟨steps, hrun,
    (log_determines_storage launchTxs_launched.reachable hrun).2.1⟩

end CyberCash
