import CyberCash.Results.Solvency

/-!
# Before the launch: a plain ERC20

Until `initialize` succeeds, CyberCash is the inherited token with its supply
minted to the owner: the overridden views still go through index, clock and
score, and the overridden transfers through their branches, but none of it
shows. The reference runs the inherited functions alone.
-/

namespace CyberCash

open Solidity Function State TimedRun

/-! ## The reference -/

/-- The inherited token alone, its supply minted to the owner. -/
def plainConstructor (_owner : Address) : Result ERC20Permit := do
  let e ← blank.toERC20._mint _owner INITIAL_SUPPLY
  return { blank.toERC20Permit with toERC20 := e }

def ERC20Permit.onERC20 (e : ERC20Permit) (f : ERC20 → Result ERC20) :
    Result ERC20Permit := do
  let base ← f e.toERC20
  return { e with toERC20 := base }

/-- The same calls on the inherited token, which has no `initialize` and no
`transferBurnScore`. -/
def plainStep (evm : Evm) (e : ERC20Permit) (tx : Tx) : Result ERC20Permit :=
  match tx.call with
  | .initialise _ _ => .error (.error "")
  | .transferBurnScore _ _ => .error (.error "")
  | .transfer _to _amount => e.onERC20 (·.transfer tx.msg _to _amount.toNat)
  | .transferFrom _from _to _amount =>
      e.onERC20 (·.transferFrom tx.msg _from _to _amount.toNat)
  | .approve spender amount => e.onERC20 (·.approve tx.msg spender amount.toNat)
  | .increaseAllowance spender addedValue =>
      e.onERC20 (·.increaseAllowance tx.msg spender addedValue.toNat)
  | .decreaseAllowance spender subtractedValue =>
      e.onERC20 (·.decreaseAllowance tx.msg spender subtractedValue.toNat)
  | .permit owner spender value deadline v r sig =>
      e.permit evm tx.msg owner spender value.toNat deadline.toNat v r sig

def PlainNext (evm : Evm) (e : ERC20Permit) (tx : Tx) (e' : ERC20Permit) : Prop :=
  plainStep evm e tx = .ok e'

abbrev PlainRun (evm : Evm) :
    ℕ → ERC20Permit → List (Step ERC20Permit Tx) → ℕ → ERC20Permit → Prop :=
  Run (PlainNext evm) Tx.now

/-- Everything an ERC20 shows is the same, at any time. -/
structure LooksLike (s : State) (e : ERC20Permit) : Prop where
  balanceOf : ∀ now a, s.balanceOf now a = .ok (e.balanceOf a)
  totalSupply : ∀ now, s.totalSupply now = .ok e.totalSupply
  allowance : ∀ owner spender, s.allowance owner spender = e.allowance owner spender

/-! ## The views while nothing accrues -/

namespace State

/-- Nothing has accrued by `now` and there is no score to accrue to. -/
structure Idle (s : State) (now : ℕ) : Prop where
  books : s.toERC20.Books
  elapsed : s.owner = 0 → s.lastMintTime ≤ now
  accrued : s.accrued now = 0
  index : s.rewardsPerTokenBurned = 0
  checkpoint : ∀ a, s.userRewardsPerTokenBurned a = 0
  pending : s.pendingMints = 0
  divisor : 0 < s.totalBurned
  score : ∀ a, s.burnScore a = 0

namespace Idle

variable {s : State} {now : ℕ}

theorem indexAt (h : s.Idle now) : s.indexAt now = 0 := by
  unfold State.indexAt
  rw [h.index, h.accrued, Nat.zero_mul, Nat.zero_div]

theorem supplyAt (h : s.Idle now) : s.supplyAt now = s._totalSupply := by
  unfold State.supplyAt
  rw [h.pending, h.accrued]
  rfl

theorem fits (h : s.Idle now) : s.Fits now := by
  have hzero : 0 < 2 ^ 256 := Nat.two_pow_pos 256
  refine ⟨h.elapsed, ?_, h.divisor, ?_, ?_, ?_, ?_, ?_⟩
  · rwa [h.accrued, Nat.zero_mul]
  · rwa [h.indexAt]
  · intro a
    rw [h.checkpoint]
    exact Nat.zero_le _
  · intro a
    rwa [h.score, Nat.zero_mul]
  · intro a
    rw [balanceAt_of_idle (h.score a)]
    exact (h.books.balance_le a).trans_lt h.books.word
  · rw [h.supplyAt]
    exact h.books.word

theorem balanceOf (h : s.Idle now) (a : Address) :
    s.balanceOf now a = .ok (s._balances a) := by
  rw [h.fits.balanceOf, balanceAt_of_idle (h.score a)]

theorem totalSupply (h : s.Idle now) :
    s.totalSupply now = .ok s._totalSupply := by
  rw [h.fits.totalSupply, h.supplyAt]

end Idle

variable {s s' : State} {t now : ℕ}

theorem idle_of_owner (hg : Good t s) (howner : s.owner ≠ 0) (now : ℕ) :
    s.Idle now := by
  obtain ⟨hindex, hpending, hscore⟩ := hg.inv.dormant howner
  refine ⟨hg.books, fun h => absurd h howner, accrued_of_owner howner now, hindex,
    ?_, hpending, hg.inv.totalBurned_pos, hscore⟩
  intro a
  exact Nat.le_zero.mp (hindex ▸ hg.inv.rewards.behind a)

/-- The launch starts the clock, at its own timestamp. -/
theorem idle_launch (hg : Good t s) (howner : s.owner ≠ 0) (now : ℕ)
    (pool migrator : Address) : (s.launch now pool migrator).Idle now := by
  have h := idle_of_owner hg howner now
  exact ⟨h.books, fun _ => Nat.le_refl now,
    accrued_self (s := s.launch now pool migrator) rfl, h.index, h.checkpoint,
    h.pending, h.divisor, h.score⟩

end State

theorem looksLike_of_owner {t : ℕ} {s : State} (hg : Good t s)
    (howner : s.owner ≠ 0) : LooksLike s s.toERC20Permit where
  balanceOf now a := (idle_of_owner hg howner now).balanceOf a
  totalSupply now := (idle_of_owner hg howner now).totalSupply
  allowance _ _ := rfl

/-! ## The calls while there is no pool -/

section Calls

variable {s : State}

theorem onERC20_toERC20Permit (s : State) (f : ERC20 → Result ERC20) :
    (s.onERC20 f).map State.toERC20Permit = s.toERC20Permit.onERC20 f := by
  unfold State.onERC20 ERC20Permit.onERC20
  cases f s.toERC20 with
  | error e => rfl
  | ok e => rfl

theorem onPermit_toERC20Permit (s : State)
    (f : ERC20Permit → Result ERC20Permit) :
    (s.onPermit f).map State.toERC20Permit = f s.toERC20Permit := by
  unfold State.onPermit
  cases f s.toERC20Permit with
  | error e => rfl
  | ok e => rfl

theorem sendBody_of_no_pool (hpool : s.liquidityPool = 0) (now : ℕ)
    (src dst : Address) (x : ℕ) :
    s.sendBody now src dst x = s.onERC20 (·._transfer src dst x) :=
  if_neg (not_not_intro hpool)

theorem transferFrom_plain (hpool : s.liquidityPool = 0) (msg : Msg)
    (_from _to : Address) (_amount : ℕ) :
    (s.transferFrom msg _from _to _amount).map State.toERC20Permit =
      s.toERC20Permit.onERC20 (·.transferFrom msg _from _to _amount) := by
  rw [transferFrom_eq_sendBody]
  unfold ERC20Permit.onERC20 ERC20.transferFrom
  dsimp only
  cases hspend : s.toERC20._spendAllowance _from msg.sender _amount with
  | error e =>
      have hfails : s.onERC20 (·._spendAllowance _from msg.sender _amount) =
          .error e := by
        unfold State.onERC20
        dsimp only
        rw [hspend]
        rfl
      rw [hfails]
      rfl
  | ok e =>
      have hcharged : s.onERC20 (·._spendAllowance _from msg.sender _amount) =
          .ok { s with toERC20 := e } := onERC20_eq_ok.mpr ⟨e, hspend, rfl⟩
      rw [hcharged, ok_bind, sendBody_of_no_pool (s := { s with toERC20 := e }) hpool,
        onERC20_toERC20Permit]
      rfl

/-- **Every call of the standard** does to the inherited storage what the
inherited function does, or reverts for the same reason. -/
theorem step_plain (evm : Evm) (hpool : s.liquidityPool = 0) {tx : Tx}
    (hlaunch : tx.call.isInitialise = false)
    (hscore : ∀ _to _amount, tx.call ≠ .transferBurnScore _to _amount) :
    (step evm s tx).map State.toERC20Permit = plainStep evm s.toERC20Permit tx := by
  obtain ⟨msg, call⟩ := tx
  cases call with
  | initialise pool migrator => exact Bool.noConfusion hlaunch
  | transferBurnScore _to _amount => exact absurd rfl (hscore _to _amount)
  | transfer _to _amount =>
      show (s.transfer msg _to _amount.toNat).map State.toERC20Permit =
        s.toERC20Permit.onERC20 (·.transfer msg _to _amount.toNat)
      rw [transfer_eq_sendBody, sendBody_of_no_pool hpool, onERC20_toERC20Permit]
      rfl
  | transferFrom _from _to _amount => exact transferFrom_plain hpool msg _from _to _
  | approve spender amount =>
      exact onERC20_toERC20Permit s (·.approve msg spender amount.toNat)
  | increaseAllowance spender addedValue =>
      exact onERC20_toERC20Permit s (·.increaseAllowance msg spender addedValue.toNat)
  | decreaseAllowance spender subtractedValue =>
      exact onERC20_toERC20Permit s
        (·.decreaseAllowance msg spender subtractedValue.toNat)
  | permit owner spender value deadline v r sig =>
      exact onPermit_toERC20Permit s
        (·.permit evm msg owner spender value.toNat deadline.toNat v r sig)

/-- Without any score there is none to move. -/
theorem transferBurnScore_reverts (hidle : ∀ a, s.burnScore a = 0) (msg : Msg)
    (_to : Address) (_amount : ℕ) (s' : State) :
    s.transferBurnScore msg _to _amount ≠ .ok s' := by
  intro h
  simp only [transferBurnScore, bind_eq_ok, require_eq_ok] at h
  obtain ⟨_, -, _, -, _, hn₀, _, hn, -⟩ := h
  rw [hidle] at hn
  exact hn₀ (Nat.le_zero.mp hn)

/-- A call succeeds on both or on neither. -/
theorem step_succeeds_iff (evm : Evm) (hpool : s.liquidityPool = 0)
    (hidle : ∀ a, s.burnScore a = 0) {tx : Tx}
    (hlaunch : tx.call.isInitialise = false) :
    (∃ s', step evm s tx = .ok s') ↔
      ∃ e, plainStep evm s.toERC20Permit tx = .ok e := by
  by_cases hscore : ∃ _to _amount, tx.call = .transferBurnScore _to _amount
  · obtain ⟨_to, _amount, hcall⟩ := hscore
    have hstep : step evm s tx = s.transferBurnScore tx.msg _to _amount.toNat := by
      unfold step
      rw [hcall]
    have hplain : plainStep evm s.toERC20Permit tx = .error (.error "") := by
      unfold plainStep
      rw [hcall]
    rw [hstep, hplain]
    constructor
    · rintro ⟨s', h⟩
      exact absurd h (transferBurnScore_reverts hidle tx.msg _to _amount.toNat s')
    · rintro ⟨e, h⟩
      cases h
  · rw [← step_plain evm hpool hlaunch fun _to _amount hcall =>
      hscore ⟨_to, _amount, hcall⟩]
    constructor
    · rintro ⟨s', h⟩
      exact ⟨_, map_eq_ok.mpr ⟨s', h, rfl⟩⟩
    · rintro ⟨e, h⟩
      obtain ⟨s', h, -⟩ := map_eq_ok.mp h
      exact ⟨s', h⟩

end Calls

/-! ## The refinement along a run -/

/-- The storage of the inherited token is the whole state that matters. -/
structure PreLaunch (t : ℕ) (s : State) (e : ERC20Permit) : Prop where
  good : Good t s
  owner : s.owner ≠ 0
  storage : e = s.toERC20Permit

namespace PreLaunch

variable {t : ℕ} {s s' : State} {e : ERC20Permit} {tx : Tx}

theorem looksLike (h : PreLaunch t s e) : LooksLike s e := by
  rw [h.storage]
  exact looksLike_of_owner h.good h.owner

theorem no_pool (h : PreLaunch t s e) : s.liquidityPool = 0 := by
  by_contra hpool
  exact h.owner (h.good.inv.launched hpool)

theorem idle (h : PreLaunch t s e) (a : Address) : s.burnScore a = 0 :=
  (h.good.inv.dormant h.owner).2.2 a

theorem next {evm : Evm} (h : PreLaunch t s e) (ht : t ≤ tx.now)
    (hlaunch : tx.call.isInitialise = false) (hnext : Next evm s tx s') :
    ∃ e', PlainNext evm e tx e' ∧ PreLaunch tx.now s' e' := by
  have he := step_effect (h.good.later ht) hnext
  have howner : s'.owner ≠ 0 := by
    rw [(he.frame hlaunch).1]
    exact h.owner
  refine ⟨s'.toERC20Permit, ?_, h.good.next ht hnext, howner, rfl⟩
  unfold PlainNext
  rw [h.storage, ← step_plain evm h.no_pool hlaunch, map_eq_ok]
  · exact ⟨s', hnext, rfl⟩
  · intro _to _amount hcall
    unfold Next step at hnext
    rw [hcall] at hnext
    exact transferBurnScore_reverts h.idle _ _ _ s' hnext

end PreLaunch

theorem plainConstructor_ok {t₀ : ℕ} {owner : Address} {g : State}
    (hg : State.constructor t₀ owner = .ok g) :
    plainConstructor owner = .ok g.toERC20Permit := by
  have hbooks : blank.toERC20.Books := ⟨by simp [blank], Nat.two_pow_pos 256⟩
  obtain ⟨howner, rfl⟩ := constructor_inv hg
  have hword : blank.toERC20._totalSupply + INITIAL_SUPPLY < 2 ^ 256 := by
    decide +kernel
  unfold plainConstructor
  rw [(ERC20._mint_eq_ok hbooks).mpr ⟨howner, hword, rfl⟩, ok_bind]
  simp [ERC20.minted, blank]

/-- **Plain ERC20 before `initialize`.** -/
theorem plain_before_launch {evm : Evm} {t₀ t : ℕ} {owner : Address}
    {g s : State} {steps : List TokenStep}
    (hg : State.constructor t₀ owner = .ok g)
    (hrun : TokenRun evm t₀ g steps t s)
    (hnone : ∀ st ∈ steps, st.label.call.isInitialise = false) :
    ∃ e₀ plainSteps e, plainConstructor owner = .ok e₀ ∧
      PlainRun evm t₀ e₀ plainSteps t e ∧
      LooksLike g e₀ ∧ LooksLike s e ∧
      List.Forall₂ (fun st plain => st.label = plain.label ∧
        LooksLike st.post plain.post) steps plainSteps ∧
      (∀ tx, tx.call.isInitialise = false →
        ((∃ s', step evm s tx = .ok s') ↔ ∃ e', plainStep evm e tx = .ok e')) ∧
      (∀ msg _to _amount s', s.transferBurnScore msg _to _amount ≠ .ok s') ∧
      ∀ msg pool migrator s', s.initialise msg pool migrator = .ok s' →
        (∀ a, s'.balanceOf msg.timestamp a = .ok (e.balanceOf a)) ∧
        s'.totalSupply msg.timestamp = .ok e.totalSupply := by
  have hset : g.owner ≠ 0 := by
    obtain ⟨howner, rfl⟩ := constructor_inv hg
    exact howner
  have hstart : PreLaunch t₀ g g.toERC20Permit := ⟨constructor_good hg, hset, rfl⟩
  have hmatch : ∀ {t s tx s' e}, PreLaunch t s e → t ≤ tx.now →
      tx.call.isInitialise = false → Next evm s tx s' →
        ∃ e', PlainNext evm e tx e' ∧ PreLaunch tx.now s' e' :=
    fun h ht hlaunch hnext => h.next ht hlaunch hnext
  obtain ⟨plainSteps, e, hplain, hall, hlast⟩ := hrun.lockstep hmatch hnone hstart
  refine ⟨_, plainSteps, e, plainConstructor_ok hg, hplain, hstart.looksLike,
    hlast.looksLike, hall.imp fun _ _ h => ⟨h.1, h.2.looksLike⟩, ?_, ?_, ?_⟩
  · intro tx hlaunch
    rw [hlast.storage]
    exact step_succeeds_iff evm hlast.no_pool hlast.idle hlaunch
  · exact transferBurnScore_reverts hlast.idle
  · intro msg pool migrator s' hlaunch
    obtain ⟨-, -, -, rfl⟩ := initialise_inv hlaunch
    have hidle := idle_launch hlast.good hlast.owner msg.timestamp pool migrator
    rw [hlast.storage]
    exact ⟨hidle.balanceOf, hidle.totalSupply⟩

/-- The two transfers of the sample history before its launch. -/
theorem sample_plain :
    ∃ e, LooksLike (sampleState fundingTxs) e ∧
      (∀ msg _to _amount s',
        (sampleState fundingTxs).transferBurnScore msg _to _amount ≠ .ok s') := by
  obtain ⟨g, steps, hg, hrun, hlabels⟩ := sampleState_run
    (by decide +kernel : (sampleRun fundingTxs).isOk = true) (by decide)
    (by decide : (0 :: fundingTxs.map Tx.now).getLast? = some 50)
  have hnone : ∀ st ∈ steps, st.label.call.isInitialise = false := by
    intro st hst
    have hmem : st.label ∈ fundingTxs := hlabels ▸ List.mem_map_of_mem hst
    simp only [fundingTxs, List.mem_cons, List.not_mem_nil, or_false] at hmem
    rcases hmem with h | h <;> rw [h] <;> rfl
  obtain ⟨-, -, e, -, -, -, hlike, -, -, hscore, -⟩ := plain_before_launch hg hrun hnone
  exact ⟨e, hlike, hscore⟩

end CyberCash
