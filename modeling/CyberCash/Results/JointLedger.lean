import CyberCash.Results.Migration
import CyberCash.Results.Reentrancy
import CyberCash.Results.SilentAccount

/-!
# The ledgers of the two contracts agree

CyberCash and the Migrator among arbitrary contracts that may call either of
them at any point, in the middle of a migration too. What CyberCash logs as
moved out of the Migrator is, entry by entry and in order, what the Migrator
logs as paid; so the CASH it holds is all it ever received less those payments.
-/

namespace CyberCash

open Solidity Function State Reentrancy

/-- A payment in the log of the Migrator. -/
def MigratorEvent.payment : MigratorEvent → Option (Address × ℕ)
  | .tokenMigrated user _ _ cashOut => if cashOut ≠ 0 then some (user, cashOut) else none
  | _ => none

/-- Everything the Migrator logged as paid, in order. -/
def Migrator.payments (m : Migrator) : List (Address × ℕ) :=
  m.logs.filterMap MigratorEvent.payment

/-- All that an account ever received. -/
def State.incoming (s : State) (a : Address) : ℕ := s.tally (Event.credited a)

/-! ## Sums of the two lists -/

theorem sum_filterMap {α : Type} {g : α → Option (Address × ℕ)} {f : α → ℕ}
    (h : ∀ e, f e = ((g e).map Prod.snd).getD 0) (entries : List α) :
    ((entries.filterMap g).map Prod.snd).sum = (entries.map f).sum := by
  induction entries with
  | nil => rfl
  | cons e rest ih =>
      rw [List.map_cons, List.sum_cons, ← ih, h e]
      cases hg : g e with
      | none =>
          rw [List.filterMap_cons_none hg]
          exact (Nat.zero_add _).symm
      | some p =>
          rw [List.filterMap_cons_some hg]
          rfl

theorem sum_outgoing (s : State) (a : Address) :
    ((s.outgoing a).map Prod.snd).sum = s.tally (Event.debited a) := by
  refine sum_filterMap ?_ s.logs
  intro e
  cases e with
  | transfer src dst x =>
      unfold Event.debited Event.outgoing
      by_cases hsrc : a = src
      · by_cases hx : x = 0
        · simp [hsrc, hx]
        · simp [hsrc, hx]
      · simp [hsrc, Ne.symm hsrc]
  | _ => rfl

theorem sum_payments (m : Migrator) : (m.payments.map Prod.snd).sum = m.cashPaid := by
  refine sum_filterMap ?_ m.logs
  intro e
  cases e with
  | tokenMigrationAdded => rfl
  | tokenMigrated user token amountIn cashOut =>
      unfold MigratorEvent.paid MigratorEvent.payment
      by_cases hout : cashOut = 0
      · simp [hout]
      · simp [hout]

/-- A last entry that counts as `p`, if at all. -/
theorem filterMap_singleton_ite {α : Type} {g : α → Option (Address × ℕ)} {e : α}
    {p : Address × ℕ} {c : Prop} [Decidable c] (h : g e = if c then some p else none) :
    [e].filterMap g = if c then [p] else [] := by
  by_cases hc : c
  · rw [if_pos hc] at h ⊢
    rw [List.filterMap_cons_some h, List.filterMap_nil]
  · rw [if_neg hc] at h ⊢
    rw [List.filterMap_cons_none h, List.filterMap_nil]

theorem payments_settled (m : Migrator) (sender : Caller) (token : Address)
    (spend received : ℕ) :
    (m.settled sender token spend received).payments =
      m.payments ++ if received ≠ 0 then [(sender.1, received)] else [] := by
  unfold Migrator.payments Migrator.settled
  rw [List.filterMap_append, filterMap_singleton_ite
    (g := MigratorEvent.payment) (p := (sender.1, received)) (c := received ≠ 0) rfl]

/-! ## Transfers of CyberCash -/

section Transfers

variable {s s' : State} {msg : Msg} {a src dst : Address} {now x : ℕ}

/-- An untaxed payment out of the account is all that it logs. -/
theorem outgoing_paid (ha : a ≠ 0) (huntaxed : s.taxed a dst = false) (now x : ℕ) :
    (s.send now a dst x).outgoing a =
      s.outgoing a ++ if x ≠ 0 then [(dst, x)] else [] := by
  have hlast : [Event.transfer a dst x].filterMap (Event.outgoing a) =
      if x ≠ 0 then [(dst, x)] else [] :=
    filterMap_singleton_ite (by simp only [Event.outgoing, true_and])
  rw [outgoing_append (send_logs s now a dst x)]
  unfold sendEntries
  split
  · rw [hlast]
  · rw [huntaxed, if_neg Bool.false_ne_true, List.filterMap_append,
      outgoing_settleEntries ha, hlast, List.nil_append]

/-- `transferFrom` out of another account. -/
theorem transferFrom_aside (hg : Good msg.timestamp s)
    (h : s.transferFrom msg src dst x = .ok s') (hsrc : src ≠ a) (ha : a ≠ 0)
    (hpool : s.liquidityPool ≠ a) (hs : s.Unspendable a) :
    s'.Unspendable a ∧ s'.liquidityPool = s.liquidityPool ∧
      s'.outgoing a = s.outgoing a ∧ (Balanced a s → Balanced a s') := by
  rw [transferFrom_eq_sendBody, bind_eq_ok] at h
  obtain ⟨s₁, hspend, h⟩ := h
  obtain ⟨e, he, rfl⟩ := onERC20_eq_ok.mp hspend
  obtain ⟨-, rfl⟩ := ERC20._spendAllowance_eq_ok.mp he
  have hsame := s.spend_reapproves src msg.sender x
  have hcharged := hg.reapproves hsame
  obtain ⟨-, -, hx, -, rfl⟩ := sendBody_inv hcharged h
  refine ⟨?_, ?_, ?_, fun hb => (hb.reapproves hsame).send hcharged.inv ha hx⟩
  · intro p
    rw [send_allowances]
    exact (ERC20.spent_other fun hparty => hsrc hparty.1.symm).trans (hs p)
  · rw [send_liquidityPool, hsame.liquidityPool]
  · have hcharged : (s.spend src msg.sender x).outgoing a = s.outgoing a := by
      rw [outgoing_append (spend_logs s _ _ _)]
      unfold spendEntries
      split
      · exact List.append_nil _
      · rw [outgoing_singleton rfl, List.append_nil]
    rw [outgoing_append (send_logs _ _ _ _ _), hcharged,
      outgoing_sendEntries ha (by rwa [hsame.liquidityPool]) (.inl hsrc),
      List.append_nil]

/-- `transfer` out of the account, which is untaxed. -/
theorem transfer_paid (hg : Good msg.timestamp s)
    (h : s.transfer msg dst x = .ok s') (huntaxed : s.taxed msg.sender dst = false)
    (hs : s.Unspendable msg.sender) :
    s'.Unspendable msg.sender ∧ s'.liquidityPool = s.liquidityPool ∧
      s'.outgoing msg.sender =
        s.outgoing msg.sender ++ (if x ≠ 0 then [(dst, x)] else []) ∧
      (Balanced msg.sender s → Balanced msg.sender s') := by
  rw [transfer_eq_sendBody] at h
  obtain ⟨hsrc, -, hx, -, rfl⟩ := sendBody_inv hg h
  refine ⟨?_, send_liquidityPool .., outgoing_paid hsrc huntaxed _ _,
    fun hb => hb.send hg.inv hsrc hx⟩
  intro p
  rw [send_allowances]
  exact hs p

end Transfers

/-! ## The agreement -/

/-- CyberCash keeps what the Migrator relies on, and the logs agree. -/
structure Agrees {τ : Type} (this : Caller) (site : Site τ) (m : Migrator) :
    Prop where
  deployed : Deployed this site
  unspendable : ∀ s, site.token = some s → s.Unspendable this.1
  apart : ∀ s, site.token = some s → s.liquidityPool ≠ this.1
  balanced : ∀ s, site.token = some s → Balanced this.1 s
  logs : ∀ s, site.token = some s → s.outgoing this.1 = m.payments
  unborn : site.token = none → m.payments = []

variable {τ : Type} {evm : Evm} {cash this sender : Caller} {others : ℕ → Chain τ}
  {site site' : Site τ} {m m' : Migrator} {token : Address} {x : ℕ}

/-- The state of CyberCash changes, and the log of the Migrator with it. -/
theorem Agrees.update {s s' : State} (h : Agrees this site m)
    (hs : site.token = some s)
    (hdeployed : Deployed this { site with token := some s' })
    (hunspendable : s'.Unspendable this.1) (hapart : s'.liquidityPool ≠ this.1)
    (hbalanced : Balanced this.1 s')
    {more : List (Address × ℕ)} (hlogs : s'.outgoing this.1 = s.outgoing this.1 ++ more)
    (hm : m'.payments = m.payments ++ more) :
    Agrees this { site with token := some s' } m' := by
  refine ⟨hdeployed, ?_, ?_, ?_, ?_, ?_⟩
  · rintro _ ⟨⟩
    exact hunspendable
  · rintro _ ⟨⟩
    exact hapart
  · rintro _ ⟨⟩
    exact hbalanced
  · rintro _ ⟨⟩
    rw [hlogs, hm, h.logs s hs]
  · intro hnone
    cases hnone

/-- Nothing about CyberCash or the payments has changed. -/
theorem Agrees.congr (h : Agrees this site m) (hdeployed : Deployed this site')
    (htoken : site'.token = site.token) (hm : m'.payments = m.payments) :
    Agrees this site' m' := by
  refine ⟨hdeployed, ?_, ?_, ?_, ?_, ?_⟩
  · rw [htoken]
    exact h.unspendable
  · rw [htoken]
    exact h.apart
  · rw [htoken]
    exact h.balanced
  · rw [htoken, hm]
    exact h.logs
  · rw [htoken, hm]
    exact h.unborn

/-! ## What keeps it -/

/-- An account without a key has no permits. -/
theorem permits_of_keyless {s s' : State} {tx : Tx} {a : Address}
    (hkey : ∀ hash v r sig, evm.ecrecover hash v r sig ≠ a)
    (h : step evm s tx = .ok s') : tx.permits a = 0 := by
  obtain ⟨msg, call⟩ := tx
  cases call with
  | permit owner spender value deadline v r sig =>
      obtain ⟨hpermitted, -⟩ := permit_inv h
      apply if_neg
      rintro rfl
      have hsigned := hpermitted.signer
      simp only [ECDSA.recover, bind_eq_ok, require_eq_ok, pure_eq_ok,
        Except.ok.injEq] at hsigned
      obtain ⟨_, -, _, -, hsigner⟩ := hsigned
      exact hkey _ _ _ _ hsigner
  | _ => rfl

/-- The pool is what it was, or the call names it. -/
theorem Effect.pool_cases {s s' : State} {tx : Tx} (he : Effect s tx s') :
    s'.liquidityPool = s.liquidityPool ∨
      ∃ migrator, tx.call = .initialise s'.liquidityPool migrator := by
  cases hcall : tx.call.isInitialise with
  | false => exact .inl (he.frame hcall).2.1
  | true =>
      obtain ⟨pool, migrator, hlaunch⟩ := Call.eq_initialise hcall
      obtain ⟨-, rfl⟩ := he.of_launch hlaunch
      exact .inr ⟨migrator, hlaunch⟩

theorem siteAct_next {e : JointEvent τ this} (h : siteAct evm site e.1 = .ok site') :
    SiteNext evm this site e.1 site' := by
  obtain ⟨e, hallowed⟩ := e
  cases e with
  | deploy _owner =>
      simp only [siteAct, bind_eq_ok, require_eq_ok, pure_eq_ok, Except.ok.injEq] at h
      obtain ⟨_, hnone, s, hs, rfl⟩ := h
      exact ⟨Option.isNone_iff_eq_none.mp hnone, s, hs, rfl⟩
  | cash sender call =>
      unfold siteAct at h
      dsimp only at h
      obtain ⟨hsender, hnames, -⟩ := hallowed
      split at h
      · obtain ⟨s', hstep, heq⟩ := bind_eq_ok.mp h
        cases heq
        exact ⟨hsender, hnames, _, s', ‹_›, hstep, rfl⟩
      · cases h
  | others o =>
      cases h
      rfl
  | wait seconds =>
      cases h
      rfl

/-- **The environment.** -/
theorem Agrees.event {e : JointEvent τ this}
    (hkey : ∀ hash v r sig, evm.ecrecover hash v r sig ≠ this.1)
    (h : Agrees this site m) (hact : siteAct evm site e.1 = .ok site') :
    Agrees this site' m := by
  have hnext := siteAct_next hact
  have hdeployed := h.deployed.outside hnext
  obtain ⟨e, hallowed⟩ := e
  cases e with
  | deploy _owner =>
      obtain ⟨hnone, s, hs, rfl⟩ := hnext
      have hbalanced := Balanced.constructor this.2 hs
      obtain ⟨-, rfl⟩ := constructor_inv hs
      refine ⟨hdeployed, ?_, ?_, ?_, ?_, ?_⟩
      · rintro _ ⟨⟩ p
        rfl
      · rintro _ ⟨⟩
        exact this.2.symm
      · rintro _ ⟨⟩
        exact hbalanced
      · rintro _ ⟨⟩
        rw [h.unborn hnone]
        exact outgoing_transfer (.inl this.2.symm)
      · intro hborn
        cases hborn
  | cash sender call =>
      obtain ⟨hsender, hnames, s, s', hs, hstep, rfl⟩ := hnext
      obtain ⟨-, -, hpools⟩ := hallowed
      have hg : Good (Tx.now ⟨site.msg sender, call⟩) s := h.deployed.good s hs
      have he := step_effect hg hstep
      have hignores : Tx.Ignores ⟨site.msg sender, call⟩ this.1 :=
        ⟨fun heq => hsender (Subtype.ext heq), permits_of_keyless hkey hstep⟩
      have hpool' : s'.liquidityPool ≠ this.1 := by
        rcases he.pool_cases with hsame | ⟨migrator, hlaunch⟩
        · rw [hsame]
          exact h.apart s hs
        · exact hpools _ migrator hlaunch
      refine h.update hs hdeployed
        (step_unspendable hg hstep hignores (h.unspendable s hs)).1 hpool'
        ((h.balanced s hs).effect hg this.2 he) ?_ (List.append_nil _).symm
      rw [List.append_nil]
      exact step_outgoing hg hstep hignores (h.unspendable s hs) this.2 (h.apart s hs)
  | others o =>
      cases hnext
      exact h.congr hdeployed rfl rfl
  | wait seconds =>
      cases hnext
      exact h.congr hdeployed rfl rfl

/-- The agreement, as long as the Migrator pays with CyberCash. -/
def Agreed (cash this : Caller) (r : Site τ × Migrator) : Prop :=
  (r.2.cyberCash = 0 ∨ r.2.cyberCash = cash.1) → Agrees this r.1 r.2

/-- CyberCash takes tokens for the Migrator. -/
theorem Agrees.taken {w : Site τ} (h : Agrees this site m) (hsender : sender ≠ this)
    (htaken : SafeERC20.safeTransferFrom (siteChain cash others) site token this
      sender.1 this.1 x = .ok w) : Agrees this w m := by
  obtain ⟨data, htransfer, -⟩ := SafeERC20.safeTransferFrom_eq_ok.mp htaken
  have hdeployed := h.deployed.transferFrom htransfer
  rcases siteChain_transferFrom_cases htransfer with ⟨s, s', hs, hsend, rfl⟩ | ⟨o, rfl⟩
  · obtain ⟨hunspendable, hpool, houtgoing, hbalanced⟩ := transferFrom_aside
      (h.deployed.good s hs) hsend (fun heq => hsender (Subtype.ext heq)) this.2
      (h.apart s hs) (h.unspendable s hs)
    refine h.update hs hdeployed hunspendable (hpool ▸ h.apart s hs)
      (hbalanced (h.balanced s hs)) ?_ (List.append_nil _).symm
    rw [houtgoing, List.append_nil]
  · exact h.congr hdeployed rfl rfl

/-- CyberCash pays for the Migrator, which logs it. -/
theorem Agrees.paid {w : Site τ} {flag : Bool} {spend received : ℕ}
    (h : Agrees this site m)
    (hpaid : IERC20.transfer (siteChain cash others) site cash.1 this sender.1 received =
      .ok (w, flag)) :
    Agrees this w (m.settled sender token spend received) := by
  obtain ⟨-, htransfer⟩ := IERC20.transfer_eq_ok.mp hpaid
  have hdeployed := h.deployed.transfer htransfer
  rcases siteChain_transfer_cases htransfer with ⟨s, s', -, hs, hsend, rfl⟩ | ⟨o, hne, -⟩
  · obtain ⟨hunspendable, hpool, houtgoing, hbalanced⟩ := transfer_paid
      (h.deployed.good s hs) hsend (h.deployed.untaxed hs sender.1) (h.unspendable s hs)
    exact h.update hs hdeployed hunspendable
      (fun heq => h.apart s hs (hpool.symm.trans heq)) (hbalanced (h.balanced s hs))
      houtgoing (payments_settled m sender token spend received)
  · exact absurd rfl hne

/-- **Step lemma.** A migration keeps the agreement whatever happens while it
waits. -/
theorem Agreed.migrateProgram {s : Site τ × Migrator} {_amount : ℕ}
    (h : Agreed cash this s) (hsender : sender ≠ this) :
    (Migrator.migrateProgram (siteChain cash others) (fun a => decide (a ≠ cash.1))
      this sender token _amount s).Keeps (Agreed cash this)
        (fun r r' => r.2.Fixed r'.2) s := by
  apply Program.Keeps.check
  rintro ⟨spend, received⟩ -
  have hpay {r : Site τ × Migrator} (hr : Agreed cash this r) (hfixed : s.2.Fixed r.2) :
      (IERC20.transferThen (siteChain cash others) (fun a => decide (a ≠ cash.1)) r
        r.2.cyberCash this sender.1 received fun r =>
          .finish (.ok (r.1, r.2.settled sender token spend received))).Keeps
            (Agreed cash this) (fun r r' => r.2.Fixed r'.2) s := by
    apply transferThen_keeps
    · intro hopen hcode
      have hother : r.2.cyberCash ≠ cash.1 := of_decide_eq_true hopen
      have hset : r.2.cyberCash ≠ 0 := by
        intro hzero
        rw [hzero, (siteChain cash others).isContract_zero] at hcode
        exact Bool.noConfusion hcode
      -- paid with another token, once and for all
      refine ⟨hr, hfixed, fun r' _ hsame => .finish ?_⟩
      rintro _ ⟨⟩
      refine ⟨fun hcash => ?_, hfixed.trans (hsame.trans Migrator.Fixed.settled)⟩
      have hkept : r'.2.cyberCash = r.2.cyberCash := hsame.cyberCash hset
      rcases hcash with hzero | hcash
      · exact absurd (hkept.symm.trans hzero) hset
      · exact absurd (hkept.symm.trans hcash) hother
    · intro hclosed w flag hpaid
      have hcash : r.2.cyberCash = cash.1 := not_ne_iff.mp (of_decide_eq_false hclosed)
      rw [hcash] at hpaid
      refine .finish ?_
      rintro _ ⟨⟩
      exact ⟨fun _ => (hr (.inr hcash)).paid hpaid, hfixed.trans Migrator.Fixed.settled⟩
  apply safeTransferFromThen_keeps
  · exact fun _ => ⟨h, .refl _, fun r hr hfixed => hpay hr hfixed⟩
  · intro _ w htaken
    exact hpay (r := (w, s.2)) (fun hcash => (h hcash).taken hsender htaken) (.refl _)

theorem jointContract_stable (hkey : ∀ hash v r sig, evm.ecrecover hash v r sig ≠ this.1) :
    (jointContract evm cash this others).Stable (Agreed cash this)
      (fun r r' => r.2.Fixed r'.2) where
  refl r := .refl r.2
  trans := .trans
  event {e r r'} hr h := by
    obtain ⟨w, hact, heq⟩ := bind_eq_ok.mp h
    cases heq
    exact ⟨fun hcash => (hr hcash).event hkey hact, .refl _⟩
  code {entry r} hr := by
    obtain ⟨sender, call⟩ := entry
    cases call with
    | migrate _token _amount => exact hr.migrateProgram sender.2
    | setCashAddress _cash =>
        refine .finish fun r' h => ?_
        have he := MigratorEffect.of_step h
        refine ⟨fun _ => ?_, he.fixed⟩
        cases he with
        | setCash _ hunset => exact (hr (.inl hunset)).congr (hr (.inl hunset)).deployed rfl rfl
    | addTokenMigration _token r d =>
        refine .finish fun r' h => ?_
        have he := MigratorEffect.of_step h
        refine ⟨fun hcash => ?_, he.fixed⟩
        cases he with
        | list =>
            refine (hr hcash).congr (hr hcash).deployed rfl ?_
            unfold Migrator.payments Migrator.listing
            rw [List.filterMap_append]
            exact List.append_nil _

/-- **CASH leaves the Migrator only by its migrations.** In every execution of
both contracts among arbitrary others, re-entrant calls included: what CyberCash
logs as moved out of the Migrator is, in order and up to entries of nothing, what
the Migrator logs as paid, and the balance it is shown is all it received less
these payments. Nobody can sign for the Migrator, CyberCash is launched, if at
all, with this Migrator and another address as the pool, and the CASH address of
the Migrator is unset or CyberCash. -/
theorem cash_leaves_by_migration {site₀ : Site τ} {_owner : Address} {s : State}
    (hkey : ∀ hash v r sig, evm.ecrecover hash v r sig ≠ this.1)
    (hbefore : site₀.token = none) (history : MigratorActivity this (JointEvent τ this))
    (hrun : history.run (jointContract evm cash this others)
      (site₀, Migrator.constructor _owner) = .ok (site, m))
    (hcash : m.cyberCash = 0 ∨ m.cyberCash = cash.1) (hs : site.token = some s) :
    s.outgoing this.1 = m.payments ∧
    s._balances this.1 + m.cashPaid = s.incoming this.1 ∧
    (∀ now x, s.balanceOf now this.1 = .ok x → x = s._balances this.1) ∧
    ∀ spender, s._allowances this.1 spender = 0 := by
  have hstart : Agreed cash this (site₀, Migrator.constructor _owner) := by
    have hnever {P : State → Prop} (s : State) (hs : site₀.token = some s) : P s := by
      rw [hbefore] at hs
      cases hs
    exact fun _ => ⟨⟨hnever, hnever⟩, hnever, hnever, hnever, hnever, fun _ => rfl⟩
  obtain ⟨hagreed, -⟩ := (jointContract_stable hkey).run history hstart hrun
  have hagrees := hagreed hcash
  have hlogs := hagrees.logs s hs
  have hbalance := hagrees.balanced s hs
  refine ⟨hlogs, ?_, ?_, hagrees.unspendable s hs⟩
  · unfold Balanced at hbalance
    rw [← sum_outgoing, hlogs, sum_payments] at hbalance
    exact hbalance
  · intro now x hx
    have hinv := (hagrees.deployed.good s hs).inv
    have hidle : s.burnScore this.1 = 0 := by
      by_cases howner : s.owner = 0
      · exact hinv.exemptIdle _ (hagrees.deployed.exempt s hs howner)
      · exact (hinv.dormant howner).2.2 _
    rw [balanceOf_eq hx, balanceAt_of_idle hidle]

/-! ## A sample execution -/

section Sample

def sampleFundingCall : Call := .transfer 9 5000000000000

def sampleLaunchCall : Call := .initialise 100 9

/-- The owner of CyberCash calls it. -/
def sampleCashCall (call : Call) : SiteEvent Tokens :=
  .cash ⟨(ownerMsg 0).sender, (ownerMsg 0).sender_ne_zero⟩ call

theorem sampleFundingCall_allowed : (sampleCashCall sampleFundingCall).Allowed sampleMigrator :=
  ⟨by decide, nofun, nofun⟩

theorem sampleLaunchCall_allowed : (sampleCashCall sampleLaunchCall).Allowed sampleMigrator := by
  refine ⟨by decide, ?_, ?_⟩
  · rintro _ _ ⟨⟩
    rfl
  · rintro _ _ ⟨⟩
    decide

def sampleJointEntry (sender : Outsider sampleMigrator) (call : MigratorCall)
    (during : MigratorActivity sampleMigrator (JointEvent Tokens sampleMigrator)) :
    MigratorActivity sampleMigrator (JointEvent Tokens sampleMigrator) :=
  .enter (sender, call) (fun _ => during) (fun _ => wordBytes 1)

/-- Both contracts are set up and the Migrator is funded; then a token that
calls back is migrated. -/
def sampleHistory : MigratorActivity sampleMigrator (JointEvent Tokens sampleMigrator) :=
  .seq (sampleJointEntry sampleListingOwner (.setCashAddress 20) .done) <|
  .seq (sampleJointEntry sampleListingOwner
    (.addTokenMigration 30 1000000000000000000 6) .done) <|
  .seq (.event ⟨.deploy 1, trivial⟩) <|
  .seq (.event ⟨sampleCashCall sampleFundingCall, sampleFundingCall_allowed⟩) <|
  .seq (.event ⟨sampleCashCall sampleLaunchCall, sampleLaunchCall_allowed⟩) <|
  sampleJointEntry sampleHolder (.migrate 30 2)
    (sampleJointEntry sampleHolder (.migrate 30 1) .done)

def sampleOutcome : Result (Site Tokens × Migrator) :=
  sampleHistory.run (jointContract sampleEvm sampleCash sampleMigrator fun _ => tokenChain)
    (⟨0, none, sampleSupply⟩, Migrator.constructor sampleOwner.1)

theorem sample_ledgers_agree :
    ∃ site m s, sampleOutcome = .ok (site, m) ∧ site.token = some s ∧
      s.outgoing 9 = [(12, 1000000000000), (12, 2000000000000)] ∧
      s._balances 9 + 3000000000000 = s.incoming 9 := by
  have hpayments : sampleOutcome.toOption.map (fun r => (r.2.payments, r.2.cyberCash)) =
      some ([(12, 1000000000000), (12, 2000000000000)], 20) := by decide +kernel
  have hborn : sampleOutcome.toOption.map (fun r => r.1.token.isSome) = some true := by
    decide +kernel
  obtain ⟨⟨site, m⟩, hrun⟩ := exists_of_isOk
    (by decide +kernel : sampleOutcome.isOk = true)
  rw [hrun] at hpayments hborn
  obtain ⟨hpaid, hcash⟩ := Prod.mk.inj (Option.some.inj hpayments)
  obtain ⟨s, hs⟩ := Option.isSome_iff_exists.mp (Option.some.inj hborn)
  dsimp only at hpaid hcash hs
  have hkeyless : (0 : Address) ≠ sampleMigrator.1 := by decide
  obtain ⟨hsame, hbalance, -⟩ := cash_leaves_by_migration
    (fun _ _ _ _ => hkeyless) rfl sampleHistory hrun (.inr hcash) hs
  rw [hpaid] at hsame
  refine ⟨site, m, s, hrun, hs, hsame, ?_⟩
  rw [← sum_payments, hpaid] at hbalance
  exact hbalance

end Sample

end CyberCash
