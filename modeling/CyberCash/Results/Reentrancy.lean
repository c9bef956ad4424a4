import Mathlib.Algebra.BigOperators.Ring.List
import CyberCash.Contract.Reentrancy
import CyberCash.Results.MigratorAccounting

/-!
# Re-entrant migrations

`migrate` calls the token between its quote and its payment, and a token that
calls back can migrate again in between. Whatever code runs there, listings stay
frozen and every payment in the log is at the listed ratio, within one unit. On a
chain of contracts that call nobody back the re-entrant executions are the runs
of `MigratorRun`.
-/

namespace CyberCash

open Solidity Reentrancy TimedRun CappedExchange

/-! ## The quote -/

namespace Migrator

variable {ω : Type} {chain : Chain ω} {this sender : Caller} {m m' : Migrator}
  {w : ω} {_token : Address} {x spend received : ℕ}

theorem quote_eq_ok :
    m.quote chain this w _token x = .ok (spend, received) ↔
      m.allowedTokens _token = true ∧ x ≠ 0 ∧
      (∃ balance, balance ≠ 0 ∧
        IERC20.balanceOf chain w m.cyberCash this.1 = .ok balance) ∧
      m.migrationResult chain this w _token x = .ok (spend, received) := by
  simp only [quote, bind_eq_ok, require_eq_ok]
  constructor
  · rintro ⟨_, hlisted, _, hamount, balance, hbalance, _, hpos, hresult⟩
    exact ⟨hlisted, hamount, ⟨balance, hpos, hbalance⟩, hresult⟩
  · rintro ⟨hlisted, hamount, ⟨balance, hpos, hbalance⟩, hresult⟩
    exact ⟨(), hlisted, (), hamount, balance, hbalance, (), hpos, hresult⟩

/-- `migrate` starts with its quote. -/
theorem migrate_eq_quote :
    m.migrate chain this w sender _token x = (do
      let (spendToken, receivedCash) ← m.quote chain this w _token x
      let w ← SafeERC20.safeTransferFrom chain w _token this sender.1 this.1 spendToken
      let (w, _) ← IERC20.transfer chain w m.cyberCash this sender.1 receivedCash
      return (w, m.settled sender _token spendToken receivedCash)) := by
  unfold migrate quote settled
  simp only [bind_assoc]

/-- The CASH paid is what the tokens taken cost at the listed ratio: not more than
for one unit of the token more, and less by less than one unit. -/
structure AtRatio (m : Migrator) (token : Address) (amountIn cashOut : ℕ) : Prop where
  le : 10 ^ m.tokenDecimals token * cashOut ≤
    m.cashPerWholeTokens token * (amountIn + 1)
  lt : m.cashPerWholeTokens token * amountIn <
    10 ^ m.tokenDecimals token * (cashOut + 1)

theorem AtRatio.fixed (h : m.AtRatio _token spend received) (hfixed : m.Fixed m')
    (hlisted : m.allowedTokens _token = true) : m'.AtRatio _token spend received := by
  obtain ⟨-, hratio, hdecimals⟩ := hfixed.listed _token hlisted
  constructor
  · rw [hratio, hdecimals]
    exact h.le
  · rw [hratio, hdecimals]
    exact h.lt

/-- A quote is at the listed ratio. -/
theorem Checked.quote_priced (hm : m.Checked)
    (h : m.quote chain this w _token x = .ok (spend, received)) :
    m.allowedTokens _token = true ∧ m.AtRatio _token spend received := by
  obtain ⟨hlisted, -, ⟨balance, -, hbalance⟩, hresult⟩ := quote_eq_ok.mp h
  have hratio := hm.ratio _token hlisted
  obtain ⟨-, -, rfl, rfl⟩ := (migrationResult_eq_ok hlisted hratio
    (hm.decimals _token hlisted).2 hbalance).mp hresult
  refine ⟨hlisted, ?_, ?_⟩
  · refine ((m.price _token hratio).scale_mul_payout_le balance x).trans ?_
    apply Nat.mul_le_mul_left
    apply Nat.add_le_add_left
    split
    · exact Nat.le_refl 1
    · exact Nat.zero_le 1
  · exact (m.price _token hratio).rate_mul_charge_lt balance x

/-! ## What the log says -/

/-- A listing in the log is in force, and a migration in the log was paid at the
ratio in force. -/
def Honours (m : Migrator) : MigratorEvent → Prop
  | .tokenMigrationAdded token r d =>
      m.allowedTokens token = true ∧ m.cashPerWholeTokens token = r ∧
        m.tokenDecimals token = d
  | .tokenMigrated _ token amountIn cashOut =>
      m.allowedTokens token = true ∧ m.AtRatio token amountIn cashOut

theorem Honours.fixed {e : MigratorEvent} (h : m.Honours e) (hfixed : m.Fixed m') :
    m'.Honours e := by
  cases e with
  | tokenMigrationAdded token r d =>
      obtain ⟨hlisted, hratio, hdecimals⟩ := h
      obtain ⟨hlisted', hratio', hdecimals'⟩ := hfixed.listed token hlisted
      exact ⟨hlisted', hratio'.trans hratio, hdecimals'.trans hdecimals⟩
  | tokenMigrated user token amountIn cashOut =>
      obtain ⟨hlisted, hpriced⟩ := h
      exact ⟨(hfixed.listed token hlisted).1, hpriced.fixed hfixed hlisted⟩

/-- Listings are checked and the log is honoured. -/
structure Faithful (m : Migrator) : Prop where
  checked : m.Checked
  honours : ∀ e ∈ m.logs, m.Honours e

theorem Faithful.constructor (_owner : Address) :
    (Migrator.constructor _owner).Faithful :=
  ⟨constructor_checked _owner, fun _ h => nomatch h⟩

/-- One entry more. -/
theorem Faithful.append {e : MigratorEvent} (h : m.Faithful) (hchecked : m'.Checked)
    (hfixed : m.Fixed m') (hlogs : m'.logs = m.logs ++ [e]) (he : m'.Honours e) :
    m'.Faithful := by
  refine ⟨hchecked, ?_⟩
  intro e' he'
  rw [hlogs, List.mem_append, List.mem_singleton] at he'
  rcases he' with hold | rfl
  · exact (h.honours e' hold).fixed hfixed
  · exact he

theorem Faithful.settled (h : m.Faithful) (hlisted : m.allowedTokens _token = true)
    (hpriced : m.AtRatio _token spend received) :
    (m.settled sender _token spend received).Faithful :=
  h.append ⟨h.checked.ratio, h.checked.decimals⟩ .settled rfl
    ⟨hlisted, hpriced.fixed .settled hlisted⟩

/-- The calls that end without calling out. -/
theorem Faithful.effect {s' : ω × Migrator} {call : MigratorCall} (h : m.Faithful)
    (hcall : ∀ token amount, call ≠ .migrate token amount)
    (he : MigratorEffect chain this sender w m call s') : s'.2.Faithful := by
  have hchecked := MigratorEffect.checked (s := (w, m)) he h.checked
  have hfixed := MigratorEffect.fixed (s := (w, m)) he
  cases he with
  | setCash => exact ⟨hchecked, fun e he => (h.honours e he).fixed hfixed⟩
  | list =>
      refine h.append hchecked hfixed rfl ⟨?_, listing_self.1, listing_self.2⟩
      exact Function.update_self _ _ _
  | settle => exact absurd rfl (hcall _ _)

/-! ## Sums over an honoured log -/

end Migrator

def MigratorEvent.migrates (_token : Address) : MigratorEvent → ℕ
  | .tokenMigrated _ token _ _ => if token = _token then 1 else 0
  | _ => 0

/-- How often a token was migrated. -/
def Migrator.migrations (m : Migrator) (_token : Address) : ℕ :=
  m.tally (MigratorEvent.migrates _token)

/-- A bound on every entry bounds the sums. -/
theorem Migrator.tally_le {m : Migrator} {a b : ℕ} {f g h : MigratorEvent → ℕ}
    (hentries : ∀ e ∈ m.logs, a * f e ≤ b * (g e + h e)) :
    a * m.tally f ≤ b * (m.tally g + m.tally h) := by
  unfold tally
  rw [← List.sum_map_mul_left, ← List.sum_map_add, ← List.sum_map_mul_left]
  exact List.sum_le_sum hentries

/-- Entry by entry, and so for all migrations of a token together. -/
theorem Migrator.Faithful.sums_at_ratio {m : Migrator} (h : m.Faithful)
    (_token : Address) :
    10 ^ m.tokenDecimals _token * m.cashPaidFor _token ≤
        m.cashPerWholeTokens _token *
          (m.tokensTaken _token + m.migrations _token) ∧
      m.cashPerWholeTokens _token * m.tokensTaken _token ≤
        10 ^ m.tokenDecimals _token *
          (m.cashPaidFor _token + m.migrations _token) := by
  have hentry : ∀ e ∈ m.logs,
      10 ^ m.tokenDecimals _token * MigratorEvent.paidFor _token e ≤
          m.cashPerWholeTokens _token * (MigratorEvent.takenFor _token e +
            MigratorEvent.migrates _token e) ∧
        m.cashPerWholeTokens _token * MigratorEvent.takenFor _token e ≤
          10 ^ m.tokenDecimals _token * (MigratorEvent.paidFor _token e +
            MigratorEvent.migrates _token e) := by
    intro e he
    have hhonoured := h.honours e he
    cases e with
    | tokenMigrationAdded => exact ⟨Nat.zero_le _, Nat.zero_le _⟩
    | tokenMigrated user token amountIn cashOut =>
        simp only [MigratorEvent.paidFor, MigratorEvent.takenFor,
          MigratorEvent.migrates]
        split
        · subst token
          exact ⟨hhonoured.2.le, hhonoured.2.lt.le⟩
        · exact ⟨Nat.zero_le _, Nat.zero_le _⟩
  exact ⟨tally_le fun e he => (hentry e he).1, tally_le fun e he => (hentry e he).2⟩

/-! ## Any code may run during a migration -/

section Activities

variable {ω ε : Type} {chain : Chain ω} {isOpen : Address → Bool}
  {this sender : Caller} {act : ω → ε → Result ω} {s s₀ s' : ω × Migrator}

section Rules

variable {I : ω × Migrator → Prop} {R : ω × Migrator → ω × Migrator → Prop}
  {next : ω × Migrator → MigratorProgram ω} {token src dst : Address} {x : ℕ}

/-- Taking tokens: from an open token anything may come back. -/
theorem safeTransferFromThen_keeps
    (hopen : isOpen token = true → I s ∧ R s₀ s ∧
      ∀ s', I s' → R s s' → (next s').Keeps I R s₀)
    (hclosed : isOpen token = false → ∀ w,
      SafeERC20.safeTransferFrom chain s.1 token this src dst x = .ok w →
        (next (w, s.2)).Keeps I R s₀) :
    (SafeERC20.safeTransferFromThen chain isOpen s token this src dst x
      next).Keeps I R s₀ := by
  unfold SafeERC20.safeTransferFromThen
  split
  · obtain ⟨hs, hr, hnext⟩ := hopen ‹_›
    refine .callOut hs hr ?_
    intro s' returndata hs' hr'
    apply Program.Keeps.check
    intro w hw
    obtain ⟨data, hdata, -⟩ := SafeERC20._callOptionalReturn_eq_ok.mp hw
    cases hdata
    exact hnext s' hs' hr'
  · apply Program.Keeps.check
    exact hclosed (Bool.eq_false_iff.mpr ‹_›)

/-- Paying CASH. -/
theorem transferThen_keeps
    (hopen : isOpen token = true → chain.isContract s.1 token = true →
      I s ∧ R s₀ s ∧ ∀ s', I s' → R s s' → (next s').Keeps I R s₀)
    (hclosed : isOpen token = false → ∀ w flag,
      IERC20.transfer chain s.1 token this dst x = .ok (w, flag) →
        (next (w, s.2)).Keeps I R s₀) :
    (IERC20.transferThen chain isOpen s token this dst x next).Keeps I R s₀ := by
  unfold IERC20.transferThen
  split
  · apply Program.Keeps.check
    intro _ hcode
    obtain ⟨hs, hr, hnext⟩ := hopen ‹_› (require_eq_ok.mp hcode)
    refine .callOut hs hr ?_
    intro s' returndata hs' hr'
    apply Program.Keeps.check
    intro _ _
    exact hnext s' hs' hr'
  · apply Program.Keeps.check
    rintro ⟨w, flag⟩ hw
    exact hclosed (Bool.eq_false_iff.mpr ‹_›) w flag hw

end Rules

/-- **Step lemma.** What `migrate` logs was quoted before it called out, at a
listing that nothing could change meanwhile. -/
theorem Migrator.Faithful.migrateProgram {_token : Address} {_amount : ℕ}
    (h : s.2.Faithful) :
    (Migrator.migrateProgram chain isOpen this sender _token _amount s).Keeps
      (fun r => r.2.Faithful) (fun r r' => r.2.Fixed r'.2) s := by
  apply Program.Keeps.check
  rintro ⟨spend, received⟩ hquote
  obtain ⟨hlisted, hpriced⟩ := h.checked.quote_priced hquote
  -- the end of the program, from any state whose listings are those of `s`
  have hend {r : ω × Migrator} (hr : r.2.Faithful) (hfixed : s.2.Fixed r.2) :
      (Program.finish (.ok (r.1, r.2.settled sender _token spend received)) :
        MigratorProgram ω).Keeps (fun r => r.2.Faithful)
          (fun r r' => r.2.Fixed r'.2) s := by
    refine .finish ?_
    rintro _ ⟨⟩
    exact ⟨hr.settled (hfixed.listed _token hlisted).1 (hpriced.fixed hfixed hlisted),
      hfixed.trans .settled⟩
  have hpay {r : ω × Migrator} (hr : r.2.Faithful) (hfixed : s.2.Fixed r.2) :
      (IERC20.transferThen chain isOpen r r.2.cyberCash this sender.1 received
        fun r => .finish (.ok (r.1, r.2.settled sender _token spend received))).Keeps
          (fun r => r.2.Faithful) (fun r r' => r.2.Fixed r'.2) s := by
    apply transferThen_keeps
    · exact fun _ _ => ⟨hr, hfixed, fun r' hr' hsame => hend hr' (hfixed.trans hsame)⟩
    · exact fun _ w _ _ => hend hr hfixed
  apply safeTransferFromThen_keeps
  · exact fun _ => ⟨h, .refl _, fun r hr hfixed => hpay hr hfixed⟩
  · exact fun _ w _ => hpay h (.refl _)

theorem reentrantMigrator_stable :
    (reentrantMigrator chain isOpen this act).Stable (fun r => r.2.Faithful)
      (fun r r' => r.2.Fixed r'.2) where
  refl r := .refl r.2
  trans := .trans
  event {e r r'} hr h := by
    obtain ⟨w, -, heq⟩ := bind_eq_ok.mp h
    cases heq
    exact ⟨hr, .refl _⟩
  code {entry r} hr := by
    obtain ⟨sender, call⟩ := entry
    cases call with
    | migrate _token _amount => exact hr.migrateProgram
    | setCashAddress _cash =>
        refine .finish fun r' h => ?_
        have he := MigratorEffect.of_step h
        refine ⟨hr.effect ?_ he, he.fixed⟩
        intro _ _ hcall
        cases hcall
    | addTokenMigration _token r d =>
        refine .finish fun r' h => ?_
        have he := MigratorEffect.of_step h
        refine ⟨hr.effect ?_ he, he.fixed⟩
        intro _ _ hcall
        cases hcall

/-- **Re-entrancy changes no price.** Two moments of an execution from the
constructor, with arbitrary code at the open addresses: what was set or listed
at the first is the same at the second, every listing in the log is in force,
and every migration in the log was paid at its ratio, within one unit, so that
the sums are at the ratio within one unit for each migration. -/
theorem reentrancy_changes_no_price {_owner : Address} {w₀ w₁ w₂ : ω}
    {m₁ m₂ : Migrator} (first second : MigratorActivity this ε)
    (hfirst : first.run (reentrantMigrator chain isOpen this act)
      (w₀, Migrator.constructor _owner) = .ok (w₁, m₁))
    (hsecond : second.run (reentrantMigrator chain isOpen this act) (w₁, m₁) =
      .ok (w₂, m₂)) :
    m₁.Fixed m₂ ∧ (∀ e ∈ m₂.logs, m₂.Honours e) ∧
    ∀ token, 10 ^ m₂.tokenDecimals token * m₂.cashPaidFor token ≤
        m₂.cashPerWholeTokens token * (m₂.tokensTaken token + m₂.migrations token) ∧
      m₂.cashPerWholeTokens token * m₂.tokensTaken token ≤
        10 ^ m₂.tokenDecimals token * (m₂.cashPaidFor token + m₂.migrations token) := by
  have hstable : (reentrantMigrator chain isOpen this act).Stable
    (fun r => r.2.Faithful) (fun r r' => r.2.Fixed r'.2) := reentrantMigrator_stable
  obtain ⟨hfaithful, -⟩ := hstable.run first (.constructor _owner) hfirst
  obtain ⟨hfaithful', hfixed⟩ := hstable.run second hfaithful hsecond
  exact ⟨hfixed, hfaithful'.honours, hfaithful'.sums_at_ratio⟩

/-! ## A chain of contracts that call nobody back -/

/-- With nothing open, the program is the function. -/
theorem migrateProgram_closed {_token : Address} {_amount : ℕ} :
    Migrator.migrateProgram chain (fun _ => false) this sender _token _amount s =
      .finish (s.2.migrate chain this s.1 sender _token _amount) := by
  rw [Migrator.migrate_eq_quote]
  unfold Migrator.migrateProgram SafeERC20.safeTransferFromThen IERC20.transferThen
  simp only [Bool.false_eq_true, if_false]
  cases s.2.quote chain this s.1 _token _amount with
  | error reason => rfl
  | ok amounts =>
      simp only [Program.check, ok_bind]
      cases SafeERC20.safeTransferFrom chain s.1 _token this sender.1 this.1
        amounts.1 with
      | error reason => rfl
      | ok w =>
          simp only [ok_bind]
          cases IERC20.transfer chain w s.2.cyberCash this sender.1 amounts.2 with
          | error reason => rfl
          | ok paid => rfl

theorem reentrantMigrator_closed (entry : Outsider this × MigratorCall) :
    (reentrantMigrator chain (fun _ => false) this act).code entry s =
      .finish (migratorStep chain this entry.1 entry.2 s) := by
  obtain ⟨sender, call⟩ := entry
  cases call with
  | migrate _token _amount => exact migrateProgram_closed
  | _ => rfl

/-- Every run is an activity, one call after the other. -/
theorem exists_activity {t t' : ℕ} {steps : List (MigratorStep ω ε)}
    (hrun : Run (MigratorNext chain this fun w e w' => act w e = .ok w')
      (fun _ => 0) t s steps t' s') :
    ∃ a : MigratorActivity this ε,
      a.run (reentrantMigrator chain (fun _ => false) this act) s = .ok s' := by
  induction hrun with
  | nil => exact ⟨.done, rfl⟩
  | @cons _ _ s s₁ s' x steps _ hnext _ ih =>
      obtain ⟨rest, hrest⟩ := ih
      cases x with
      | call sender call =>
          have hentered : (Activity.enter (⟨sender, hnext.1⟩, call) (fun _ => .done)
              (fun _ => []) : MigratorActivity this ε).run
              (reentrantMigrator chain (fun _ => false) this act) s = .ok s₁ := by
            unfold Activity.run
            rw [reentrantMigrator_closed]
            exact hnext.2
          exact ⟨.seq _ rest, bind_eq_ok.mpr ⟨s₁, hentered, hrest⟩⟩
      | outside e =>
          have hevent : (Activity.event e : MigratorActivity this ε).run
              (reentrantMigrator chain (fun _ => false) this act) s = .ok s₁ := by
            obtain ⟨w₁, m₁⟩ := s₁
            obtain ⟨hw, hm⟩ := hnext
            cases hm
            exact bind_eq_ok.mpr ⟨w₁, hw, rfl⟩
          exact ⟨.seq _ rest, bind_eq_ok.mpr ⟨s₁, hevent, hrest⟩⟩

/-- **The atomic model is the closed case.** Where no contract calls back, the
executions of the re-entrant Migrator are its runs. -/
theorem closed_activity_iff_run :
    (∃ a : MigratorActivity this ε,
      a.run (reentrantMigrator chain (fun _ => false) this act) s = .ok s') ↔
    ∃ steps, MigratorRun chain this (fun w e w' => act w e = .ok w') s steps s' := by
  constructor
  · rintro ⟨a, ha⟩
    have hone {r r' : ω × Migrator} {x : Action ε}
        (h : MigratorNext chain this (fun w e w' => act w e = .ok w') r x r') :
        ∃ steps, MigratorRun chain this (fun w e w' => act w e = .ok w') r steps r' :=
      ⟨_, .cons (Nat.le_refl 0) h .nil⟩
    have hstable : (reentrantMigrator chain (fun _ => false) this act).Stable
        (fun _ => True) (fun r r' => ∃ steps,
          MigratorRun chain this (fun w e w' => act w e = .ok w') r steps r') := by
      refine ⟨fun r => ⟨[], .nil⟩, ?_, ?_, ?_⟩
      · rintro _ _ _ ⟨xs, hxs⟩ ⟨ys, hys⟩
        exact ⟨xs ++ ys, hxs.append hys⟩
      · rintro e r r' - h
        obtain ⟨w, hw, heq⟩ := bind_eq_ok.mp h
        cases heq
        exact ⟨trivial, hone (x := .outside e) ⟨hw, rfl⟩⟩
      · rintro entry r -
        rw [reentrantMigrator_closed]
        refine .finish fun r' h => ⟨trivial, ?_⟩
        exact hone (x := .call entry.1 entry.2) ⟨entry.1.2, h⟩
    exact (hstable.run a trivial ha).2
  · rintro ⟨steps, hrun⟩
    exact exists_activity hrun

end Activities

/-! ## A token that calls back -/

/-- The token at address `30` runs code of its own. -/
def sampleReentrant : Contract (Tokens × Migrator) (Revert CustomError) (List Byte)
    (Outsider sampleMigrator × MigratorCall) Unit :=
  reentrantMigrator tokenChain (fun a => decide (a = 30)) sampleMigrator
    fun w _ => .ok w

def sampleListingOwner : Outsider sampleMigrator := ⟨sampleOwner, by decide⟩

def sampleHolder : Outsider sampleMigrator := ⟨sampleUser, by decide⟩

def sampleEntry (sender : Outsider sampleMigrator) (call : MigratorCall)
    (during : MigratorActivity sampleMigrator Unit) :
    MigratorActivity sampleMigrator Unit :=
  .enter (sender, call) (fun _ => during) (fun _ => wordBytes 1)

def sampleSetup : MigratorActivity sampleMigrator Unit :=
  .seq (sampleEntry sampleListingOwner (.setCashAddress 20) .done)
    (sampleEntry sampleListingOwner
      (.addTokenMigration 30 1000000000000000000 6) .done)

/-- While two units are taken, the token has a third one migrated. -/
def sampleCallback : MigratorActivity sampleMigrator Unit :=
  sampleEntry sampleHolder (.migrate 30 2)
    (sampleEntry sampleHolder (.migrate 30 1) .done)

def sampleExecution : Result (Tokens × Migrator) :=
  (Activity.seq sampleSetup sampleCallback).run sampleReentrant
    (sampleTokens 5000000000000, Migrator.constructor sampleOwner.1)

/-- Both are paid, in the order in which they end. -/
theorem sample_callback :
    ∃ w m, sampleExecution = .ok (w, m) ∧
      m.logs = [.tokenMigrationAdded 30 1000000000000000000 6,
        .tokenMigrated 12 30 1 1000000000000, .tokenMigrated 12 30 2 2000000000000] ∧
      10 ^ m.tokenDecimals 30 * m.cashPaidFor 30 ≤
        m.cashPerWholeTokens 30 * (m.tokensTaken 30 + m.migrations 30) ∧
      m.cashPerWholeTokens 30 * m.tokensTaken 30 ≤
        10 ^ m.tokenDecimals 30 * (m.cashPaidFor 30 + m.migrations 30) := by
  have hlogs : sampleExecution.toOption.map (fun r => r.2.logs) =
      some [.tokenMigrationAdded 30 1000000000000000000 6,
        .tokenMigrated 12 30 1 1000000000000,
        .tokenMigrated 12 30 2 2000000000000] := by decide +kernel
  obtain ⟨⟨w, m⟩, hrun⟩ := exists_of_isOk
    (by decide +kernel : sampleExecution.isOk = true)
  rw [hrun] at hlogs
  obtain ⟨⟨w₁, m₁⟩, hfirst, hsecond⟩ := bind_eq_ok.mp hrun
  obtain ⟨-, -, hpriced⟩ :=
    reentrancy_changes_no_price sampleSetup sampleCallback hfirst hsecond
  exact ⟨w, m, hrun, Option.some.inj hlogs, hpriced 30⟩

end CyberCash
