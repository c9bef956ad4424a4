import CyberCash.Semantics.Approvals
import CyberCash.Semantics.History

/-!
# The event log

What each successful call appends to the log, to the last entry, and the state
that somebody who only reads the log reconstructs from it. The storage of the
inherited token is a function of its log.
-/

namespace CyberCash

open Solidity Function State TimedRun

/-! ## The entries of a call -/

namespace State

/-- What `mintRewards` logs. -/
def settleEntries (s : State) (now : ℕ) (a : Address) : List Event :=
  [.transfer 0 a (s.rewardsAt now a), .rewardsClaimed a (s.rewardsAt now a)]

/-- What `burnOnTransfer` logs. -/
def levyEntries (s : State) (sender : Address) (x : ℕ) : List Event :=
  [.transfer sender 0 (taxOf x), .transfer s.liquidityPool 0 (s.poolBurn x),
    .burnedTokensFromLP (s.poolBurn x)]

/-- What the common body of `transfer` and `transferFrom` logs. -/
def sendEntries (s : State) (now : ℕ) (src dst : Address) (x : ℕ) : List Event :=
  if s.liquidityPool = 0 then [.transfer src dst x]
  else if s.taxed src dst then
    s.settleEntries now src ++ (s.settle now src).levyEntries src x ++
      [.transfer src dst (x - taxOf x)]
  else s.settleEntries now src ++ [.transfer src dst x]

/-- What `_spendAllowance` logs. -/
def spendEntries (s : State) (owner spender : Address) (x : ℕ) : List Event :=
  if s._allowances owner spender = uintMax then []
  else [.approval owner spender (uncheckedSub (s._allowances owner spender) x)]

/-- What a successful call logs. -/
def entries (s : State) (tx : Tx) : List Event :=
  match tx.call with
  | .initialise _ _ => []
  | .transfer _to _amount => s.sendEntries tx.now tx.sender _to _amount.toNat
  | .transferFrom _from _to _amount =>
      s.spendEntries _from tx.sender _amount.toNat ++
        (s.spend _from tx.sender _amount.toNat).sendEntries tx.now _from _to
          _amount.toNat
  | .transferBurnScore _to _ =>
      s.settleEntries tx.now tx.sender ++
        (s.settle tx.now tx.sender).settleEntries tx.now _to
  | _ =>
      match s.approves tx with
      | some (owner, spender, x) => [.approval owner spender x]
      | none => []

theorem settle_logs (s : State) (now : ℕ) (a : Address) :
    (s.settle now a).logs = s.logs ++ s.settleEntries now a :=
  List.append_assoc _ _ _

theorem levy_logs (s : State) (sender : Address) (x : ℕ) :
    (s.levy sender x).logs = s.logs ++ s.levyEntries sender x := by
  show s.logs ++ _ ++ _ ++ _ = _
  rw [List.append_assoc, List.append_assoc]
  rfl

theorem send_logs (s : State) (now : ℕ) (src dst : Address) (x : ℕ) :
    (s.send now src dst x).logs = s.logs ++ s.sendEntries now src dst x := by
  unfold send sendEntries
  split
  · rfl
  · split
    · show ((s.settle now src).levy src x).logs ++ _ = _
      rw [levy_logs, settle_logs]
      simp only [List.append_assoc]
    · show (s.settle now src).logs ++ _ = _
      rw [settle_logs, List.append_assoc]

theorem spend_logs (s : State) (owner spender : Address) (x : ℕ) :
    (s.spend owner spender x).logs = s.logs ++ s.spendEntries owner spender x := by
  unfold spend spendEntries ERC20.spent
  split
  · exact (List.append_nil _).symm
  · rfl

theorem moveScore_logs (s : State) (now : ℕ) (src dst : Address) (n : ℕ) :
    (s.moveScore now src dst n).logs =
      s.logs ++ (s.settleEntries now src ++ (s.settle now src).settleEntries now dst) := by
  show ((s.settle now src).settle now dst).logs = _
  rw [settle_logs, settle_logs, List.append_assoc]

end State

/-- **The log of a step**: a call that succeeds appends its entries. -/
theorem step_logs {evm : Evm} {s s' : State} {tx : Tx} (hg : Good tx.now s)
    (h : step evm s tx = .ok s') : s'.logs = s.logs ++ s.entries tx := by
  cases hcall : tx.call.isApproval with
  | true =>
      obtain ⟨owner, spender, x, happroves, -, -, -, rfl⟩ :=
        step_approval h hcall hg.allowance
      have hentries : s.entries tx = [.approval owner spender x] := by
        obtain ⟨msg, call⟩ := tx
        cases call <;> first
          | exact Bool.noConfusion hcall
          | (unfold entries; dsimp only; rw [happroves])
      rw [hentries]
      rfl
  | false =>
      have he := step_effect hg h
      obtain ⟨msg, call⟩ := tx
      cases he with
      | launch hlaunch =>
          cases hlaunch
          exact (List.append_nil _).symm
      | reapprove happroval =>
          rw [happroval] at hcall
          exact Bool.noConfusion hcall
      | send hmove =>
          cases call with
          | transfer _to _amount =>
              cases hmove
              exact send_logs _ _ _ _ _
          | transferFrom _from _to _amount =>
              cases hmove
              rw [send_logs]
              show (s.spend _ _ _).logs ++ _ = _
              rw [spend_logs, List.append_assoc]
              rfl
          | _ => cases hmove
      | moveScore hscore =>
          cases hscore
          exact moveScore_logs _ _ _ _ _

/-! ## Replaying the log -/

/-- What a reader of the log keeps of the token. -/
@[ext] structure Replay where
  balances : Address → ℕ
  allowances : Address → Address → ℕ
  supply : ℕ

namespace Replay

def empty : Replay := ⟨fun _ => 0, fun _ _ => 0, 0⟩

/-- A transfer from the zero address is a mint, one to it a burn. -/
def event (r : Replay) : Event → Replay
  | .transfer src dst x =>
      if src = 0 then
        { r with
          balances := update r.balances dst (r.balances dst + x)
          supply := r.supply + x }
      else if dst = 0 then
        { r with
          balances := update r.balances src (r.balances src - x)
          supply := r.supply - x }
      else { r with balances := moved r.balances src dst x }
  | .approval owner spender x =>
      { r with allowances :=
          update r.allowances owner (update (r.allowances owner) spender x) }
  | .rewardsClaimed _ _ => r
  | .burnedTokensFromLP _ => r

def events (r : Replay) (entries : List Event) : Replay := entries.foldl event r

theorem events_append (r : Replay) (xs ys : List Event) :
    r.events (xs ++ ys) = (r.events xs).events ys := List.foldl_append

end Replay

namespace State

/-- The part of the storage that the log determines. -/
def replayed (s : State) : Replay := ⟨s._balances, s._allowances, s._totalSupply⟩

variable {s : State} {now x n : ℕ} {a src dst : Address}

theorem replay_settle (s : State) (now : ℕ) (a : Address) :
    s.replayed.events (s.settleEntries now a) = (s.settle now a).replayed := rfl

theorem replay_levy (hsrc : src ≠ 0) (hpool : s.liquidityPool ≠ 0) :
    s.replayed.events (s.levyEntries src x) = (s.levy src x).replayed := by
  simp only [Replay.events, levyEntries, List.foldl_cons, List.foldl_nil, Replay.event,
    if_neg hsrc, if_neg hpool, if_true]
  rfl

theorem replay_pay (hsrc : src ≠ 0) (hdst : dst ≠ 0) :
    s.replayed.events [.transfer src dst x] = (s.pay src dst x).replayed := by
  simp only [Replay.events, List.foldl_cons, List.foldl_nil, Replay.event,
    if_neg hsrc, if_neg hdst]
  rfl

theorem replay_send (hsrc : src ≠ 0) (hdst : dst ≠ 0) (now x : ℕ) :
    s.replayed.events (s.sendEntries now src dst x) =
      (s.send now src dst x).replayed := by
  unfold send sendEntries
  split
  · exact replay_pay hsrc hdst
  · split
    · rw [Replay.events_append, Replay.events_append, replay_settle,
        replay_levy hsrc ‹_›]
      exact replay_pay hsrc hdst
    · rw [Replay.events_append, replay_settle]
      exact replay_pay hsrc hdst

theorem replay_spend (s : State) (owner spender : Address) (x : ℕ) :
    s.replayed.events (s.spendEntries owner spender x) =
      (s.spend owner spender x).replayed := by
  unfold spend spendEntries ERC20.spent
  split <;> rfl

end State

/-- **Step lemma.** The entries of a call turn what the storage was into what it
is. -/
theorem replay_step {evm : Evm} {s s' : State} {tx : Tx} (hg : Good tx.now s)
    (h : step evm s tx = .ok s') : s.replayed.events (s.entries tx) = s'.replayed := by
  cases hcall : tx.call.isApproval with
  | true =>
      obtain ⟨owner, spender, x, happroves, -, -, -, rfl⟩ :=
        step_approval h hcall hg.allowance
      obtain ⟨msg, call⟩ := tx
      cases call <;> first
        | exact Bool.noConfusion hcall
        | (unfold entries; dsimp only; rw [happroves]; rfl)
  | false =>
      have he := step_effect hg h
      obtain ⟨msg, call⟩ := tx
      cases he with
      | launch hlaunch =>
          cases hlaunch
          rfl
      | reapprove happroval =>
          rw [happroval] at hcall
          exact Bool.noConfusion hcall
      | send hmove _ hsrc hdst =>
          cases call with
          | transfer _to _amount =>
              cases hmove
              exact replay_send hsrc hdst _ _
          | transferFrom _from _to _amount =>
              cases hmove
              unfold entries
              dsimp only
              rw [Replay.events_append, replay_spend]
              exact replay_send hsrc hdst _ _
          | _ => cases hmove
      | moveScore hscore =>
          cases hscore
          unfold entries
          dsimp only
          rw [Replay.events_append, replay_settle, replay_settle]
          rfl

end CyberCash
