import CyberCash.Results.Solvency

/-!
# The life cycle of the token

The owner and the liquidity pool are two flags for one phase: the owner is
revoked exactly when the pool is set, once, and nothing changes either of them
afterwards. Exempt accounts never hold burn score, although an address may
become exempt after it has traded: before the launch nobody holds any.
-/

namespace CyberCash

open Solidity Function State TimedRun

def isLaunch (st : TokenStep) : Bool := st.label.call.isInitialise

/-- What a run from the constructor knows about its launch. -/
structure LaunchedOnce (past : List TokenStep) (t : ℕ) (s : State) : Prop where
  good : Good t s
  count : past.countP isLaunch = if s.owner = 0 then 1 else 0
  routers : ∀ a ∈ dexRouters, s.exemptedAddresses a = true
  parties : ∀ st ∈ past, ∀ pool migrator,
    st.label.call = .initialise pool migrator →
      s.liquidityPool = pool ∧ s.exemptedAddresses migrator = true

theorem launch_exempts (s : State) (now : ℕ) (pool migrator a : Address) :
    (s.launch now pool migrator).exemptedAddresses a = true ↔
      a = migrator ∨ a = pool ∨ s.exemptedAddresses a = true := by
  show update (update s.exemptedAddresses pool true) migrator true a = true ↔ _
  by_cases hm : a = migrator
  · subst hm
    simp
  · by_cases hp : a = pool
    · subst hp
      simp [hm]
    · simp [hm, hp]

namespace LaunchedOnce

variable {past : List TokenStep} {t : ℕ} {s s' : State} {tx : Tx}

/-- A call that is no launch leaves everything about the launch alone. -/
theorem keep (h : LaunchedOnce past t s) (hg : Good tx.now s')
    (he : Effect s tx s') (hcall : tx.call.isInitialise = false) :
    LaunchedOnce (past ++ [⟨s, tx, s'⟩]) tx.now s' := by
  obtain ⟨howner, hpool, hexempt⟩ := he.frame hcall
  have hno : isLaunch ⟨s, tx, s'⟩ = false := hcall
  refine ⟨hg, ?_, ?_, ?_⟩
  · rw [List.countP_append, h.count, howner, List.countP_singleton, hno]
    rfl
  · rw [hexempt]
    exact h.routers
  · intro st hst pool migrator hlaunch
    rw [hpool, hexempt]
    rcases List.mem_append.mp hst with hst | hst
    · exact h.parties st hst pool migrator hlaunch
    · rw [List.mem_singleton] at hst
      subst hst
      rw [show tx.call = .initialise pool migrator from hlaunch] at hcall
      exact Bool.noConfusion hcall

/-- The launch itself: the owner was still set, so it is the first one. -/
theorem launch (h : LaunchedOnce past t s) {pool migrator : Address}
    (hcall : tx.call = .initialise pool migrator) (howner : s.owner ≠ 0)
    (hg : Good tx.now (s.launch tx.now pool migrator)) :
    LaunchedOnce (past ++ [⟨s, tx, s.launch tx.now pool migrator⟩]) tx.now
      (s.launch tx.now pool migrator) := by
  have hnone := h.count
  rw [if_neg howner] at hnone
  have hyes : isLaunch ⟨s, tx, s.launch tx.now pool migrator⟩ = true := by
    unfold isLaunch
    rw [show (⟨s, tx, _⟩ : TokenStep).label.call = _ from hcall]
    rfl
  refine ⟨hg, ?_, ?_, ?_⟩
  · rw [List.countP_append, hnone, List.countP_singleton, hyes]
    rfl
  · intro a ha
    exact (launch_exempts s tx.now pool migrator a).mpr (.inr (.inr (h.routers a ha)))
  · intro st hst pool' migrator' hlaunch
    rcases List.mem_append.mp hst with hst | hst
    · -- there was no launch in the past
      have hpast := List.countP_eq_zero.mp hnone st hst
      unfold isLaunch at hpast
      rw [hlaunch] at hpast
      exact absurd rfl hpast
    · rw [List.mem_singleton] at hst
      subst hst
      obtain ⟨rfl, rfl⟩ := Call.initialise.inj (hcall.symm.trans hlaunch)
      exact ⟨rfl, (launch_exempts s tx.now pool migrator migrator).mpr (.inl rfl)⟩

theorem next {evm : Evm} (h : LaunchedOnce past t s) (ht : t ≤ tx.now)
    (hnext : Next evm s tx s') :
    LaunchedOnce (past ++ [⟨s, tx, s'⟩]) tx.now s' := by
  have hg := h.good.next ht hnext
  have he := step_effect (h.good.later ht) hnext
  cases hcall : tx.call.isInitialise with
  | false => exact h.keep hg he hcall
  | true =>
      obtain ⟨pool, migrator, hlaunch⟩ := Call.eq_initialise hcall
      obtain ⟨howner, rfl⟩ := he.of_launch hlaunch
      exact h.launch hlaunch howner hg

end LaunchedOnce

theorem launchedOnce_of_run {evm : Evm} {t₀ t : ℕ} {owner : Address}
    {g s : State} {steps : List TokenStep}
    (hg : State.constructor t₀ owner = .ok g)
    (hrun : TokenRun evm t₀ g steps t s) : LaunchedOnce steps t s := by
  apply hrun.history (fun h ht hnext => h.next ht hnext)
  have hgood := constructor_good hg
  obtain ⟨howner, rfl⟩ := constructor_inv hg
  refine ⟨hgood, ?_, ?_, ?_⟩
  · exact (if_neg howner).symm
  · intro a ha
    exact decide_eq_true ha
  · intro st hst
    exact absurd hst List.not_mem_nil

/-- After the launch the owner, the pool and the exemptions are fixed. -/
theorem frozen_of_run {evm : Evm} {t t' : ℕ} {s s' : State}
    {steps : List TokenStep} (hg : Good t s) (howner : s.owner = 0)
    (hrun : TokenRun evm t s steps t' s') :
    s'.owner = 0 ∧ s'.liquidityPool = s.liquidityPool ∧
      s'.exemptedAddresses = s.exemptedAddresses := by
  have hall : Good t' s' ∧ s'.owner = 0 ∧ s'.liquidityPool = s.liquidityPool ∧
      s'.exemptedAddresses = s.exemptedAddresses := by
    refine hrun.invariant (I := fun t r => Good t r ∧ r.owner = 0 ∧
      r.liquidityPool = s.liquidityPool ∧
        r.exemptedAddresses = s.exemptedAddresses) ?_ ⟨hg, howner, rfl, rfl⟩
    rintro t r tx r' ⟨hr, hrowner, hrpool, hrexempt⟩ ht hnext
    obtain ⟨howner', hpool', hexempt'⟩ :=
      (step_effect (hr.later ht) hnext).frozen hrowner
    exact ⟨hr.next ht hnext, howner', hpool'.trans hrpool, hexempt'.trans hrexempt⟩
  exact hall.2

/-- An account without score is shown what it holds. -/
theorem balanceOf_of_idle {s : State} {a : Address} (h : s.burnScore a = 0)
    {now x : ℕ} (hx : s.balanceOf now a = .ok x) : x = s._balances a := by
  rw [balanceOf_eq hx, balanceAt_of_idle h]

/-- **Life cycle.** -/
theorem life_cycle {evm : Evm} {t₀ t : ℕ} {owner : Address} {g s : State}
    {steps : List TokenStep} (hg : State.constructor t₀ owner = .ok g)
    (hrun : TokenRun evm t₀ g steps t s) :
    (s.owner = 0 ↔ s.liquidityPool ≠ 0) ∧
    (s.liquidityPool ≠ 0 → s.exemptedAddresses s.liquidityPool = true) ∧
    (∀ a ∈ dexRouters, s.exemptedAddresses a = true) ∧
    (∀ st ∈ steps, ∀ pool migrator,
      st.label.call = .initialise pool migrator →
        s.liquidityPool = pool ∧ s.exemptedAddresses migrator = true) ∧
    (∀ a, a = 0 ∨ s.exemptedAddresses a = true →
      s.burnScore a = 0 ∧
      (∀ now x, s.balanceOf now a = .ok x → x = s._balances a) ∧
      ∀ now, t ≤ now → now < 2 ^ 64 →
        s.balanceOf now a = .ok (s._balances a)) ∧
    steps.countP isLaunch ≤ 1 ∧
    (s.owner = 0 → ∀ more t' s', TokenRun evm t s more t' s' →
      s'.owner = 0 ∧ s'.liquidityPool = s.liquidityPool ∧
        s'.exemptedAddresses = s.exemptedAddresses) := by
  have hlife := launchedOnce_of_run hg hrun
  have hgood := hlife.good
  have hinv := hgood.inv
  refine ⟨hinv.phase, hinv.poolExempt, hlife.routers, hlife.parties, ?_, ?_, ?_⟩
  · intro a ha
    have hidle : s.burnScore a = 0 := by
      rcases ha with rfl | hexempt
      · exact hinv.zeroIdle
      · exact hinv.exemptIdle a hexempt
    refine ⟨hidle, fun now x hx => balanceOf_of_idle hidle hx, ?_⟩
    intro now ht hnow
    rw [(hgood.fits ht hnow).balanceOf a, balanceAt_of_idle hidle]
  · rw [hlife.count]
    split <;> decide
  · intro howner more t' s' hmore
    exact frozen_of_run hgood howner hmore

/-- The sample history launches once, and its migrator is shown no rewards. -/
theorem sample_life_cycle :
    ∃ steps : List TokenStep, steps.map Step.label = sampleTxs ∧
      steps.countP isLaunch ≤ 1 ∧
      (sampleState sampleTxs).balanceOf 400 101 =
        .ok ((sampleState sampleTxs)._balances 101) := by
  obtain ⟨g, steps, hg, hrun, hlabels⟩ := sampleState_run
    (by decide +kernel : (sampleRun sampleTxs).isOk = true) (by decide)
    (by decide : (0 :: sampleTxs.map Tx.now).getLast? = some 300)
  obtain ⟨-, -, -, -, hexempt, honce, -⟩ := life_cycle hg hrun
  refine ⟨steps, hlabels, honce, ?_⟩
  have hmigrator : (sampleState sampleTxs).exemptedAddresses 101 = true := by
    decide +kernel
  exact (hexempt 101 (.inr hmigrator)).2.2 400 (by decide) (by decide)

end CyberCash
