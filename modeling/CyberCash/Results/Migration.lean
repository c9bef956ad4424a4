import CyberCash.Contract.Site
import CyberCash.Results.Pricing
import CyberCash.Results.Transfers

/-!
# Migration end to end

The Migrator priced against the real CyberCash. The Migrator never earns burn
score and is exempt from the launch on, so the balance its preview reads is what
it can pay, to the last unit, and neither the claim nor the tax inside the
payment moves anything else.
-/

namespace CyberCash

open Solidity Function State TimedRun CappedExchange

/-! ## Payments of an untaxed account -/

/-- The views around a payment on which no burn is due. -/
theorem Good.send_untaxed {now x : ℕ} {s : State} {src dst : Address}
    (h : Good now s) (hnow : now < 2 ^ 64) (hsrc : src ≠ 0) (hne : src ≠ dst)
    (huntaxed : s.taxed src dst = false) (hx : x ≤ s.balanceAt now src) :
    Good now (s.send now src dst x) ∧
    (s.send now src dst x).balanceOf now src = .ok (s.balanceAt now src - x) ∧
    (s.send now src dst x).balanceOf now dst = .ok (s.balanceAt now dst + x) ∧
    (∀ a, a ≠ src → a ≠ dst →
      (s.send now src dst x).balanceOf now a = s.balanceOf now a) ∧
    (s.send now src dst x).totalSupply now = s.totalSupply now := by
  have hinv : Inv (s.send now src dst x) := h.inv.send h.clock hsrc hx
  have hclock : (s.send now src dst x).lastMintTime ≤ now :=
    send_lastMintTime_le h.clock
  have hgood := h.send hsrc hx (hinv.word hclock hnow)
  have hfits := h.fits (Nat.le_refl now) hnow
  have hfits' := hgood.fits (Nat.le_refl now) hnow
  obtain ⟨hdistinct, -, hothers, hsupply, -, -⟩ := h.inv.send_untaxed h.clock hx huntaxed
  obtain ⟨hfall, hrise⟩ := hdistinct hne
  refine ⟨hgood, ?_, ?_, ?_, ?_⟩
  · rw [hfits'.balanceOf, ← hfall, Nat.add_sub_cancel]
  · rw [hfits'.balanceOf, hrise]
  · intro a ha ha'
    rw [hfits'.balanceOf, hfits.balanceOf, hothers a ha ha']
  · rw [hfits'.totalSupply, hfits.totalSupply, hsupply]

/-! ## What every joint run keeps -/

/-- CyberCash is in a good state at the time of the block, and the Migrator is
exempt as soon as the owner is revoked. -/
structure Deployed {τ : Type} (this : Caller) (site : Site τ) : Prop where
  good : ∀ s, site.token = some s → Good site.timestamp s
  exempt : ∀ s, site.token = some s → s.owner = 0 →
    s.exemptedAddresses this.1 = true

variable {τ : Type} {evm : Evm} {cash this sender : Caller} {others : ℕ → Chain τ}
  {site site' : Site τ} {m m' : Migrator} {token src dst : Address} {x : ℕ}

/-- A call that leaves the phase of CyberCash as it was. -/
theorem Deployed.update {s s' : State} (h : Deployed this site)
    (hs : site.token = some s) (hgood : Good site.timestamp s')
    (howner : s'.owner = s.owner)
    (hexempt : s'.exemptedAddresses = s.exemptedAddresses) :
    Deployed this { site with token := some s' } := by
  constructor
  · rintro _ ⟨⟩
    exact hgood
  · rintro _ ⟨⟩ hrevoked
    rw [hexempt]
    rw [howner] at hrevoked
    exact h.exempt s hs hrevoked

/-- A transfer goes to CyberCash or leaves it alone. -/
theorem siteChain_transfer_cases {flag : Bool}
    (h : (siteChain cash others).transfer site token sender dst x =
      .ok (site', flag)) :
    (∃ s s', token = cash.1 ∧ site.token = some s ∧
      s.transfer (site.msg sender) dst x = .ok s' ∧
      site' = { site with token := some s' }) ∨
    ∃ o, token ≠ cash.1 ∧ site' = { site with others := o } := by
  unfold siteChain at h
  dsimp only at h
  split at h
  · cases hs : site.token with
    | none =>
        rw [hs] at h
        cases h
    | some s =>
        rw [hs] at h
        obtain ⟨s', hsend, heq⟩ := bind_eq_ok.mp h
        cases heq
        exact .inl ⟨s, s', ‹_›, rfl, hsend, rfl⟩
  · obtain ⟨⟨o, flag'⟩, -, heq⟩ := bind_eq_ok.mp h
    cases heq
    exact .inr ⟨o, ‹_›, rfl⟩

theorem siteChain_transferFrom_cases {data : List Byte}
    (h : (siteChain cash others).transferFrom site token sender src dst x =
      .returned site' data) :
    (∃ s s', site.token = some s ∧
      s.transferFrom (site.msg sender) src dst x = .ok s' ∧
      site' = { site with token := some s' }) ∨
    ∃ o, site' = { site with others := o } := by
  unfold siteChain at h
  dsimp only at h
  split at h
  · cases hs : site.token with
    | none =>
        rw [hs] at h
        cases h
        right
        use site.others
        rw [← hs]
    | some s =>
        rw [hs] at h
        dsimp only at h
        split at h
        · cases h
          exact .inl ⟨s, _, rfl, ‹_›, rfl⟩
        · cases h
  · split at h
    · cases h
      exact .inr ⟨_, rfl⟩
    · cases h

theorem Deployed.transfer {flag : Bool} (h : Deployed this site)
    (hpaid : (siteChain cash others).transfer site token sender dst x =
      .ok (site', flag)) : Deployed this site' := by
  rcases siteChain_transfer_cases hpaid with
    ⟨s, s', -, hs, hsend, rfl⟩ | ⟨o, -, rfl⟩
  · have hg := h.good s hs
    rw [transfer_eq_sendBody] at hsend
    obtain ⟨hsrc, -, hx, hword, rfl⟩ := sendBody_inv hg hsend
    exact h.update hs (hg.send hsrc hx hword) (send_owner ..)
      (send_exemptedAddresses ..)
  · exact ⟨h.good, h.exempt⟩

theorem Deployed.transferFrom {data : List Byte} (h : Deployed this site)
    (htaken : (siteChain cash others).transferFrom site token sender src dst x =
      .returned site' data) : Deployed this site' := by
  rcases siteChain_transferFrom_cases htaken with ⟨s, s', hs, hsend, rfl⟩ | ⟨o, rfl⟩
  · rw [transferFrom_eq_sendBody, bind_eq_ok] at hsend
    obtain ⟨s₁, hspend, hsend⟩ := hsend
    obtain ⟨e, he, rfl⟩ := onERC20_eq_ok.mp hspend
    obtain ⟨-, rfl⟩ := ERC20._spendAllowance_eq_ok.mp he
    have hsame := s.spend_reapproves src sender.1 x
    have hg := (h.good s hs).reapproves hsame
    obtain ⟨hsrc, -, hx, hword, rfl⟩ := sendBody_inv hg hsend
    refine h.update hs (hg.send hsrc hx hword) ?_ ?_
    · exact (send_owner ..).trans hsame.owner
    · exact (send_exemptedAddresses ..).trans hsame.exemptedAddresses
  · exact ⟨h.good, h.exempt⟩

/-- The environment of the Migrator. -/
theorem Deployed.outside {e : SiteEvent τ} (h : Deployed this site)
    (hnext : SiteNext evm this site e site') : Deployed this site' := by
  cases e with
  | deploy _owner =>
      obtain ⟨-, s, hs, rfl⟩ := hnext
      constructor
      · rintro _ ⟨⟩
        exact constructor_good hs
      · rintro _ ⟨⟩ hrevoked
        obtain ⟨howner, rfl⟩ := constructor_inv hs
        exact absurd hrevoked howner
  | cash sender call =>
      obtain ⟨-, hnames, s, s', hs, hstep, rfl⟩ := hnext
      have hg : Good (Tx.now ⟨site.msg sender, call⟩) s := h.good s hs
      have heffect := step_effect hg hstep
      have hg' : Good site.timestamp s' := hg.next (Nat.le_refl _) hstep
      cases hcall : call.isInitialise with
      | false =>
          obtain ⟨howner, -, hexempt⟩ := heffect.frame hcall
          exact h.update hs hg' howner hexempt
      | true =>
          obtain ⟨pool, migrator, rfl⟩ := Call.eq_initialise hcall
          obtain ⟨-, rfl⟩ := heffect.of_launch rfl
          constructor
          · rintro _ ⟨⟩
            exact hg'
          · rintro _ ⟨⟩ -
            rw [← hnames pool migrator rfl]
            exact update_self _ _ _
  | others o =>
      cases hnext
      exact ⟨h.good, h.exempt⟩
  | wait seconds =>
      cases hnext
      exact ⟨fun s hs => (h.good s hs).later (Nat.le_add_right _ _), h.exempt⟩

/-- **Step lemma.** -/
theorem Deployed.next {s s' : Site τ × Migrator} {a : Action (SiteEvent τ)}
    (h : Deployed this s.1)
    (hnext : MigratorNext (siteChain cash others) this (SiteNext evm this) s a s') :
    Deployed this s'.1 := by
  cases a with
  | call sender call =>
      have heffect := MigratorEffect.of_step hnext.2
      cases heffect with
      | setCash => exact h
      | list => exact h
      | settle hs =>
          obtain ⟨w₁, data, flag, htaken, -, hpaid⟩ := hs.flow
          obtain ⟨-, hpaid⟩ := IERC20.transfer_eq_ok.mp hpaid
          exact (h.transferFrom htaken).transfer hpaid
  | outside e => exact h.outside hnext.1

theorem JointReachable.deployed (h : JointReachable evm cash this others site m) :
    Deployed this site := by
  obtain ⟨site₀, _owner, steps, hnone, hrun⟩ := h
  refine hrun.invariant (I := fun _ r => Deployed this r.1)
    (fun hr _ hnext => hr.next hnext) ?_
  constructor
  · intro s hs
    rw [hnone] at hs
    cases hs
  · intro s hs
    rw [hnone] at hs
    cases hs

theorem JointReachable.checked (h : JointReachable evm cash this others site m) :
    m.Checked := by
  obtain ⟨site₀, _owner, steps, -, hrun⟩ := h
  exact MigratorRun.checked hrun (Migrator.constructor_checked _owner)

/-- The Migrator never holds burn score, and its payments are never taxed. -/
theorem Deployed.untaxed {s : State} (h : Deployed this site)
    (hs : site.token = some s) (dst : Address) : s.taxed this.1 dst = false := by
  by_cases hpool : s.liquidityPool = 0
  · exact not_taxed_of_no_pool hpool this.1 dst
  · have howner := (h.good s hs).inv.launched hpool
    exact (taxed_of_launched hpool).mpr (.inl (h.exempt s hs howner))

/-! ## The chain at and beside CyberCash -/

section Dispatch

variable {s : State}

theorem siteChain_shows (hs : site.token = some s) (a : Address) :
    (siteChain cash others).balanceOf site cash.1 a = s.balanceOf site.timestamp a := by
  unfold siteChain
  dsimp only
  rw [if_pos rfl, hs]

theorem siteChain_balanceOf (hs : site.token = some s) (a : Address) :
    IERC20.balanceOf (siteChain cash others) site cash.1 a =
      s.balanceOf site.timestamp a := by
  have hshows : (siteChain cash others).balanceOf site cash.1 a =
      s.balanceOf site.timestamp a := siteChain_shows hs a
  rw [← hshows]
  unfold IERC20.balanceOf siteChain
  simp only [if_true, hs, Option.isSome_some, require, ok_bind]

theorem siteChain_transfer (hs : site.token = some s) {flag : Bool} :
    IERC20.transfer (siteChain cash others) site cash.1 sender dst x =
        .ok (site', flag) ↔
      ∃ s', s.transfer (site.msg sender) dst x = .ok s' ∧
        site' = { site with token := some s' } ∧ flag = true := by
  unfold IERC20.transfer siteChain
  simp only [if_true, hs, Option.isSome_some, require, ok_bind, bind_eq_ok,
    pure_eq_ok, Except.ok.injEq, Prod.mk.injEq, eq_comm (b := site'),
    eq_comm (b := flag)]

theorem siteChain_transferFrom (htoken : token ≠ cash.1) {data : List Byte} :
    (siteChain cash others).transferFrom site token sender src dst x =
        .returned site' data ↔
      ∃ o, (others site.timestamp).transferFrom site.others token sender src dst x =
          .returned o data ∧ site' = { site with others := o } := by
  unfold siteChain
  dsimp only
  rw [if_neg htoken]
  cases (others site.timestamp).transferFrom site.others token sender src dst x with
  | reverted reason => simp
  | returned o data' =>
      simp only [Outcome.returned.injEq]
      constructor
      · rintro ⟨rfl, rfl⟩
        exact ⟨o, ⟨rfl, rfl⟩, rfl⟩
      · rintro ⟨_, ⟨rfl, rfl⟩, rfl⟩
        exact ⟨rfl, rfl⟩

theorem siteChain_other (htoken : token ≠ cash.1) (a : Address) :
    (siteChain cash others).balanceOf site token a =
      (others site.timestamp).balanceOf site.others token a := if_neg htoken

theorem siteChain_accepted (htoken : token ≠ cash.1) {data : List Byte} :
    SafeERC20.Accepted (siteChain cash others) site token data ↔
      SafeERC20.Accepted (others site.timestamp) site.others token data := by
  unfold SafeERC20.Accepted siteChain
  dsimp only
  rw [if_neg htoken]

end Dispatch

/-! ## CyberCash pays exactly -/

/-- A site that joint runs reach, at a 64-bit timestamp. Calls stay within the
block, so they lead to such a site again. -/
abbrev LiveSite (τ : Type) (this : Caller) : Type :=
  {site : Site τ // Deployed this site ∧ site.timestamp < 2 ^ 64}

theorem live_transfer {site : LiveSite τ this} {flag : Bool}
    (h : (siteChain cash others).transfer site.1 token sender dst x =
      .ok (site', flag)) : Deployed this site' ∧ site'.timestamp < 2 ^ 64 := by
  refine ⟨site.2.1.transfer h, ?_⟩
  rcases siteChain_transfer_cases h with ⟨_, _, -, -, -, rfl⟩ | ⟨_, -, rfl⟩
  · exact site.2.2
  · exact site.2.2

theorem live_transferFrom {site : LiveSite τ this} {data : List Byte}
    (h : (siteChain cash others).transferFrom site.1 token sender src dst x =
      .returned site' data) : Deployed this site' ∧ site'.timestamp < 2 ^ 64 := by
  refine ⟨site.2.1.transferFrom h, ?_⟩
  rcases siteChain_transferFrom_cases h with ⟨_, _, -, -, rfl⟩ | ⟨_, rfl⟩
  · exact site.2.2
  · exact site.2.2

/-- The chain of both contracts on the sites that can occur. -/
def liveChain (cash this : Caller) (others : ℕ → Chain τ) :
    Chain (LiveSite τ this) where
  isContract site := (siteChain cash others).isContract site.1
  isContract_zero site := (siteChain cash others).isContract_zero site.1
  balanceOf site := (siteChain cash others).balanceOf site.1
  transfer site token sender _to amount :=
    match h : (siteChain cash others).transfer site.1 token sender _to amount with
    | .ok (site', flag) => .ok (⟨site', live_transfer h⟩, flag)
    | .error reason => .error reason
  transferFrom site token sender _from _to amount :=
    match h : (siteChain cash others).transferFrom site.1 token sender _from _to
      amount with
    | .returned site' data => .returned ⟨site', live_transferFrom h⟩ data
    | .reverted reason => .reverted reason

/-- **CyberCash pays exactly** what the Migrator asks it to. -/
theorem liveChain_pays (cash this : Caller) (others : ℕ → Chain τ) :
    PaysExactly (liveChain cash this others) cash.1 this := by
  have hpay {w w' : LiveSite τ this} {dst : Address} {x : ℕ} {flag : Bool}
      (h : (liveChain cash this others).transfer w cash.1 this dst x =
        .ok (w', flag)) :
      ∃ s s', w.1.token = some s ∧ s.transfer (w.1.msg this) dst x = .ok s' ∧
        w'.1 = { w.1 with token := some s' } := by
    unfold liveChain at h
    dsimp only at h
    split at h
    · cases h
      rcases siteChain_transfer_cases ‹_› with
        ⟨s, s', -, hs, hsend, hw⟩ | ⟨_, hne, -⟩
      · exact ⟨s, s', hs, hsend, hw⟩
      · exact absurd rfl hne
    · cases h
  constructor
  · intro w dst x w' flag b h hne hb
    obtain ⟨s, s', hs, hsend, hw⟩ := hpay h
    have hg := w.2.1.good s hs
    rw [transfer_eq_sendBody] at hsend
    obtain ⟨-, -, hx, -, rfl⟩ := sendBody_inv hg hsend
    obtain ⟨-, hfalls, -⟩ := hg.send_untaxed w.2.2 this.2 hne.symm
      (w.2.1.untaxed hs dst) hx
    have hb' : s.balanceOf w.1.timestamp this.1 = .ok b :=
      (siteChain_shows hs this.1).symm.trans hb
    have hshown := balanceOf_eq hb'
    subst hshown
    refine ⟨_, Nat.sub_add_cancel hx, ?_⟩
    show (siteChain cash others).balanceOf w'.1 cash.1 this.1 = _
    rw [hw, siteChain_shows rfl]
    exact hfalls
  · intro w dst x w' flag h other account hother
    obtain ⟨s, s', -, -, hw⟩ := hpay h
    show (siteChain cash others).balanceOf w'.1 other account =
      (siteChain cash others).balanceOf w.1 other account
    rw [siteChain_other hother, siteChain_other hother, hw]

/-! ## The migration -/

/-- The two transfers of a migration: the payment goes through whenever the
tokens do. -/
theorem Deployed.flow_iff {s : State} {spend received : ℕ}
    (h : Deployed this site) (hs : site.token = some s)
    (hnow : site.timestamp < 2 ^ 64) (htoken : token ≠ cash.1)
    (hstandard : ∀ now, Standard (others now) token)
    (hcover : received ≤ s.balanceAt site.timestamp this.1) :
    (∃ w₁ data flag,
      (siteChain cash others).transferFrom site token this sender.1 this.1 spend =
        .returned w₁ data ∧
      SafeERC20.Accepted (siteChain cash others) w₁ token data ∧
      IERC20.transfer (siteChain cash others) w₁ cash.1 this sender.1 received =
        .ok (site', flag)) ↔
      ∃ o data, (others site.timestamp).transferFrom site.others token this sender.1
          this.1 spend = .returned o data ∧
        site' = ⟨site.timestamp,
          some (s.send site.timestamp this.1 sender.1 received), o⟩ := by
  have hg := h.good s hs
  constructor
  · rintro ⟨w₁, data, flag, htaken, -, hpaid⟩
    obtain ⟨o, hmoved, rfl⟩ := (siteChain_transferFrom htoken).mp htaken
    have hs₁ : ({ site with others := o } : Site τ).token = some s := hs
    obtain ⟨s', hsend, rfl, -⟩ := (siteChain_transfer hs₁).mp hpaid
    rw [transfer_eq_sendBody] at hsend
    obtain ⟨-, -, -, -, rfl⟩ := sendBody_inv hg hsend
    exact ⟨o, data, hmoved, rfl⟩
  · rintro ⟨o, data, htaken, rfl⟩
    have hs₁ : ({ site with others := o } : Site τ).token = some s := hs
    refine ⟨{ site with others := o }, data, true,
      (siteChain_transferFrom htoken).mpr ⟨o, htaken, rfl⟩,
      (siteChain_accepted htoken).mpr ((hstandard _).accepted htaken), ?_⟩
    exact (siteChain_transfer hs₁).mpr
      ⟨_, sendBody_ok hg hnow this.2 sender.2 hcover, rfl, rfl⟩

/-- What the preview reads is what CyberCash shows. -/
theorem Deployed.preview_read {s : State} (h : Deployed this site)
    (hs : site.token = some s) (hnow : site.timestamp < 2 ^ 64)
    (hcash : m.cyberCash = cash.1) (others : ℕ → Chain τ) :
    IERC20.balanceOf (siteChain cash others) site m.cyberCash this.1 =
      .ok (s.balanceAt site.timestamp this.1) := by
  rw [hcash, siteChain_balanceOf hs]
  exact ((h.good s hs).fits (Nat.le_refl _) hnow).balanceOf this.1

/-- **A migration on the site** is its preview, the tokens taken, and an untaxed
payment of CyberCash. -/
theorem Deployed.migrate_eq_ok {s : State} (h : Deployed this site)
    (hm : m.Checked) (hs : site.token = some s) (hnow : site.timestamp < 2 ^ 64)
    (hcash : m.cyberCash = cash.1) (hlisted : m.allowedTokens token = true)
    (htoken : token ≠ cash.1) (hstandard : ∀ now, Standard (others now) token) :
    m.migrate (siteChain cash others) this site sender token x = .ok (site', m') ↔
      ∃ spend received o data, x ≠ 0 ∧ s.balanceAt site.timestamp this.1 ≠ 0 ∧
        m.migrationResult (siteChain cash others) this site token x =
          .ok (spend, received) ∧
        (others site.timestamp).transferFrom site.others token this sender.1 this.1
          spend = .returned o data ∧
        site' = ⟨site.timestamp,
          some (s.send site.timestamp this.1 sender.1 received), o⟩ ∧
        m' = m.settled sender token spend received := by
  have hread := h.preview_read hs hnow hcash others
  rw [Migrator.migrate_eq_ok]
  constructor
  · rintro ⟨spend, received, hsettles, rfl⟩
    obtain ⟨balance, hstock, hbalance⟩ := hsettles.balance
    rw [hread] at hbalance
    cases hbalance
    have hcover := (hm.migrationResult_le hlisted hread hsettles.preview).2
    have hflow := hsettles.flow
    rw [hcash, h.flow_iff hs hnow htoken hstandard hcover] at hflow
    obtain ⟨o, data, htaken, rfl⟩ := hflow
    exact ⟨spend, received, o, data, hsettles.amount, hstock, hsettles.preview,
      htaken, rfl, rfl⟩
  · rintro ⟨spend, received, o, data, hamount, hstock, hpreview, htaken, rfl, rfl⟩
    have hcover := (hm.migrationResult_le hlisted hread hpreview).2
    have hflow := (h.flow_iff hs hnow htoken hstandard hcover).mpr
      ⟨o, data, htaken, rfl⟩
    rw [← hcash] at hflow
    exact ⟨spend, received,
      ⟨hlisted, hamount, ⟨_, hstock, hread⟩, hpreview, hflow⟩, rfl⟩

/-- **Migration end to end**: when it succeeds, and what it moves. -/
theorem migration_end_to_end {s : State} {_token : Address}
    (hjoint : JointReachable evm cash this others site m)
    (hnow : site.timestamp < 2 ^ 64) (hs : site.token = some s)
    (hcash : m.cyberCash = cash.1) (hlisted : m.allowedTokens _token = true)
    (htoken : _token ≠ cash.1)
    (hstandard : ∀ now, Standard (others now) _token)
    (hsender : sender ≠ this) (_amount : Uint256) :
    let chain := siteChain cash others
    let now := site.timestamp
    let amount := _amount.toNat
    let ratio := m.cashPerWholeTokens _token
    let requested := amount * ratio / 10 ^ m.tokenDecimals _token
    ∃ balance, s.balanceOf now this.1 = .ok balance ∧
    ((∃ site' m', m.migrate chain this site sender _token amount = .ok (site', m')) ↔
      0 < amount ∧ balance ≠ 0 ∧ amount * ratio < 2 ^ 256 ∧
      (balance ≤ requested → amount * balance < 2 ^ 256) ∧
      ∃ o data, (others now).transferFrom site.others _token this sender.1 this.1
        (if requested < balance then amount else amount * balance / requested) =
          .returned o data) ∧
    (∀ site' m', m.migrate chain this site sender _token amount = .ok (site', m') →
      ∃ spend received s',
        m.migrationResult chain this site _token amount = .ok (spend, received) ∧
        spend ≤ amount ∧ received ≤ balance ∧
        site'.timestamp = now ∧ site'.token = some s' ∧
        (∃ a b, chain.balanceOf site _token sender.1 = .ok (a + spend) ∧
          chain.balanceOf site _token this.1 = .ok b ∧
          chain.balanceOf site' _token sender.1 = .ok a ∧
          chain.balanceOf site' _token this.1 = .ok (b + spend)) ∧
        (∀ a, a ≠ sender.1 → a ≠ this.1 →
          chain.balanceOf site' _token a = chain.balanceOf site _token a) ∧
        (∃ x, s.balanceOf now sender.1 = .ok x ∧
          s'.balanceOf now sender.1 = .ok (x + received)) ∧
        s'.balanceOf now this.1 = .ok (balance - received) ∧
        (∀ a, a ≠ sender.1 → a ≠ this.1 → s'.balanceOf now a = s.balanceOf now a) ∧
        s'.totalSupply now = s.totalSupply now) := by
  have hd := hjoint.deployed
  have hm := hjoint.checked
  have hg := hd.good s hs
  have hfits := hg.fits (Nat.le_refl _) hnow
  have hread := hd.preview_read hs hnow hcash others
  have hmigrate (site' : Site τ) (m' : Migrator) :
      m.migrate (siteChain cash others) this site sender _token _amount.toNat =
        .ok (site', m') ↔ _ :=
    hd.migrate_eq_ok hm hs hnow hcash hlisted htoken hstandard
  have hratio := hm.ratio _token hlisted
  have hdecimals := (hm.decimals _token hlisted).2
  dsimp only
  refine ⟨_, hfits.balanceOf this.1, ?_, ?_⟩
  · constructor
    · rintro ⟨site', m', h⟩
      obtain ⟨spend, received, o, data, hamount, hstock, hpreview, htaken, -, -⟩ :=
        (hmigrate _ _).mp h
      obtain ⟨hscaled, hcapped, rfl, -⟩ :=
        (Migrator.migrationResult_eq_ok hlisted hratio hdecimals hread).mp hpreview
      exact ⟨Nat.pos_of_ne_zero hamount, hstock, hscaled,
        fun hreached => (hcapped hreached).1, o, data, htaken⟩
    · rintro ⟨hamount, hstock, hscaled, hpart, o, data, htaken⟩
      have hpreview :=
        (Migrator.migrationResult_eq_ok hlisted hratio hdecimals hread).mpr
          ⟨hscaled, fun hreached => ⟨hpart hreached,
            ((Nat.pos_of_ne_zero hstock).trans_le hreached).ne'⟩, rfl, rfl⟩
      exact ⟨_, _, (hmigrate _ _).mpr ⟨_, _, o, data, hamount.ne', hstock, hpreview,
        htaken, rfl, rfl⟩⟩
  · intro site' m' h
    obtain ⟨spend, received, o, data, -, -, hpreview, htaken, rfl, -⟩ :=
      (hmigrate _ _).mp h
    obtain ⟨hspend, hreceived⟩ := hm.migrationResult_le hlisted hread hpreview
    have hdistinct : this.1 ≠ sender.1 := fun heq => hsender (Subtype.ext heq.symm)
    obtain ⟨-, hfalls, hrises, hothers, hsupply⟩ := hg.send_untaxed hnow this.2
      hdistinct (hd.untaxed hs sender.1) hreceived
    refine ⟨spend, received, _, hpreview, hspend, hreceived, rfl, rfl, ?_, ?_,
      ⟨_, hfits.balanceOf sender.1, hrises⟩, hfalls, ?_, hsupply⟩
    · simp only [siteChain_other htoken]
      exact (hstandard _).moves htaken hdistinct.symm
    · intro a ha ha'
      simp only [siteChain_other htoken]
      exact (hstandard _).others htaken a ha ha'
    · intro a ha ha'
      exact hothers a ha' ha

/-! ## A sample deployment -/

/-- Transactions of CyberCash within one block. -/
theorem exists_run_of_block {s s' : State} {txs : List Tx}
    (h : execute evm s txs = .ok s') (hs : site.token = some s)
    (htxs : ∀ tx ∈ txs, tx.now = site.timestamp ∧ tx.sender ≠ this.1 ∧
      tx.call.Names this) :
    ∃ steps, MigratorRun (siteChain cash others) this (SiteNext evm this) (site, m)
      steps ({ site with token := some s' }, m) := by
  induction txs generalizing site s with
  | nil =>
      cases h
      rw [← hs]
      exact ⟨[], .nil⟩
  | cons tx txs ih =>
      obtain ⟨s₁, hstep, hrest⟩ := execute_cons_eq_ok.mp h
      obtain ⟨⟨hclock, hsender, hnames⟩, htxs⟩ := List.forall_mem_cons.mp htxs
      have hs₁ : ({ site with token := some s₁ } : Site τ).token = some s₁ := rfl
      obtain ⟨steps, hrun⟩ := ih hrest hs₁ htxs
      rcases tx with ⟨⟨sender, hsender₀, timestamp⟩, call⟩
      cases hclock
      have hnext : MigratorNext (siteChain cash others) this (SiteNext evm this)
          (site, m) (.outside (.cash ⟨sender, hsender₀⟩ call))
          ({ site with token := some s₁ }, m) :=
        ⟨⟨fun heq => hsender (congrArg Subtype.val heq), hnames, s, s₁, hs, hstep, rfl⟩,
          rfl⟩
      exact ⟨_, .cons (Nat.le_refl 0) hnext hrun⟩

/-- The owner funds the Migrator with what five units of the token are worth
and initialises CyberCash. -/
def migrationTxs : List Tx :=
  [ ⟨ownerMsg 0, .transfer 9 5000000000000⟩
  , ⟨ownerMsg 0, .initialise 100 9⟩ ]

def sampleCash : Caller := ⟨20, by decide⟩

/-- A hundred seconds later, with the other token held by account `12`. -/
def sampleSite : Site Tokens where
  timestamp := 0 + 100
  token := some (sampleState migrationTxs)
  others := sampleSupply

theorem sampleSite_reachable :
    JointReachable sampleEvm sampleCash sampleMigrator (fun _ => tokenChain)
      sampleSite sampleListed := by
  obtain ⟨g, hg, hexecute⟩ := bind_eq_ok.mp (sampleRun_eq
    (by decide +kernel : (sampleRun migrationTxs).isOk = true))
  obtain ⟨listing, hlisting⟩ := sampleListed_run
    (siteChain sampleCash fun _ => tokenChain) (SiteNext sampleEvm sampleMigrator)
    ⟨0, none, sampleSupply⟩
  have hdeploy : MigratorNext (siteChain sampleCash fun _ => tokenChain)
      sampleMigrator (SiteNext sampleEvm sampleMigrator)
      (⟨0, none, sampleSupply⟩, sampleListed) (.outside (.deploy 1))
      (⟨0, some g, sampleSupply⟩, sampleListed) := ⟨⟨rfl, g, hg, rfl⟩, rfl⟩
  obtain ⟨block, hblock⟩ : ∃ steps, MigratorRun
      (siteChain sampleCash fun _ => tokenChain) sampleMigrator
      (SiteNext sampleEvm sampleMigrator)
      (⟨0, some g, sampleSupply⟩, sampleListed) steps
      (⟨0, some (sampleState migrationTxs), sampleSupply⟩, sampleListed) := by
    apply exists_run_of_block hexecute rfl
    intro tx htx
    rcases List.mem_cons.mp htx with rfl | htx
    · exact ⟨rfl, by decide, fun _ _ h => by cases h⟩
    · rw [List.mem_singleton] at htx
      subst htx
      refine ⟨rfl, by decide, ?_⟩
      rintro _ _ ⟨⟩
      rfl
  have hwait : MigratorNext (siteChain sampleCash fun _ => tokenChain)
      sampleMigrator (SiteNext sampleEvm sampleMigrator)
      (⟨0, some (sampleState migrationTxs), sampleSupply⟩, sampleListed)
      (.outside (.wait 100)) (sampleSite, sampleListed) := ⟨rfl, rfl⟩
  refine ⟨⟨0, none, sampleSupply⟩, sampleOwner.1, _, rfl,
    hlisting.append (.cons (Nat.le_refl 0) hdeploy (hblock.append
      (.cons (Nat.le_refl 0) hwait .nil)))⟩

/-- Account `12` migrates seventy units, of which five are taken, and the
Migrator is left without CASH. -/
theorem sample_migration :
    ∃ site' m' s',
      sampleListed.migrate (siteChain sampleCash fun _ => tokenChain) sampleMigrator
        sampleSite sampleUser 30 70 = .ok (site', m') ∧
      site'.token = some s' ∧
      s'.balanceOf 100 sampleMigrator.1 = .ok 0 ∧
      s'.totalSupply 100 = (sampleState migrationTxs).totalSupply 100 := by
  have hheld : (sampleState migrationTxs).balanceOf 100 9 = .ok 5000000000000 := by
    decide +kernel
  have hresult : sampleListed.migrationResult
      (siteChain sampleCash fun _ => tokenChain) sampleMigrator sampleSite 30 70 =
        .ok (5, 5000000000000) := by decide +kernel
  obtain ⟨w, htaken⟩ := exists_of_isOk (by decide +kernel :
    (Tokens.run sampleSupply 30 (transferFromCall sampleMigrator 12 9
      (70 * 5000000000000 / (70 * 1000000000000000000 / 10 ^ 6)))).isOk = true)
  obtain ⟨balance, hbalance, hiff, heffect⟩ := migration_end_to_end
    sampleSite_reachable (by decide) rfl rfl rfl (by decide)
    (fun _ => tokenChain_standard 30) (by decide : sampleUser ≠ sampleMigrator) 70
  have heq : (5000000000000 : ℕ) = balance := Except.ok.inj (hheld.symm.trans hbalance)
  subst heq
  obtain ⟨site', m', hmigrate⟩ := hiff.mpr ⟨by decide, by decide, by decide +kernel,
    fun _ => by decide, w, wordBytes 1, tokenChain_returns htaken⟩
  obtain ⟨spend, received, s', hsame, -, -, -, hs', -, -, -, hleft, -, hsupply⟩ :=
    heffect site' m' hmigrate
  obtain ⟨-, rfl⟩ := Prod.mk.inj (Except.ok.inj (hresult.symm.trans hsame))
  exact ⟨site', m', s', hmigrate, hs', hleft, hsupply⟩

end CyberCash
