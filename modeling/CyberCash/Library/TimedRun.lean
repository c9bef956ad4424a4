import Mathlib.Data.List.Basic
import Mathlib.Algebra.GroupWithZero.Nat
import Mathlib.Algebra.Order.BigOperators.Group.List

/-!
# Runs with a clock

A system whose labels carry a timestamp: steps are taken one after the other
and time never goes back. A run remembers every step with the states around
it, so that a history quantity is a sum over the steps, and a bound that
depends on the state at some moment can name that moment.

Five induction rules cover what is proved about runs: an invariant of the
current state (`Run.invariant`), an invariant that also reads the past
(`Run.history`), a quantity with what each step adds to it and takes from it
(`Run.account`), a run of another system with the same labels (`Run.lockstep`),
and a relation between two runs of which the second takes extra steps
(`Inserted`, `simulation`).
-/

namespace TimedRun

variable {σ τ : Type}

/-- One step with the states before and after it. -/
structure Step (σ τ : Type) where
  pre : σ
  label : τ
  post : σ

/-- `Run next clock t s steps t' s'`: from `s` at time `t`, taking `steps`
leads to `s'`, the last step having been taken at `t'`. -/
inductive Run (next : σ → τ → σ → Prop) (clock : τ → ℕ) :
    ℕ → σ → List (Step σ τ) → ℕ → σ → Prop where
  | nil {t : ℕ} {s : σ} : Run next clock t s [] t s
  | cons {t t' : ℕ} {s s₁ s' : σ} {x : τ} {steps : List (Step σ τ)} :
      t ≤ clock x → next s x s₁ →
      Run next clock (clock x) s₁ steps t' s' →
      Run next clock t s (⟨s, x, s₁⟩ :: steps) t' s'

variable {next : σ → τ → σ → Prop} {clock : τ → ℕ}

theorem Run.append {t t₁ t' : ℕ} {s s₁ s' : σ}
    {xs ys : List (Step σ τ)} (h : Run next clock t s xs t₁ s₁)
    (h' : Run next clock t₁ s₁ ys t' s') :
    Run next clock t s (xs ++ ys) t' s' := by
  induction h with
  | nil => exact h'
  | cons hle hstep _ ih => exact .cons hle hstep (ih h')

/-- **Invariant rule.** What every step keeps, with the clock, holds at the
end of every run. -/
theorem Run.invariant {I : ℕ → σ → Prop}
    (hstep : ∀ {t s x s'}, I t s → t ≤ clock x → next s x s' → I (clock x) s')
    {t t' : ℕ} {s s' : σ} {steps : List (Step σ τ)}
    (h : Run next clock t s steps t' s') (h₀ : I t s) : I t' s' := by
  induction h with
  | nil => exact h₀
  | cons hle hnext _ ih => exact ih (hstep h₀ hle hnext)

/-- **History rule.** As the invariant rule, for a statement that also reads
the steps taken so far. -/
theorem Run.history {I : List (Step σ τ) → ℕ → σ → Prop}
    (hstep : ∀ {past t s x s'}, I past t s → t ≤ clock x → next s x s' →
      I (past ++ [⟨s, x, s'⟩]) (clock x) s')
    {t t' : ℕ} {s s' : σ} {steps : List (Step σ τ)}
    (h : Run next clock t s steps t' s') (h₀ : I [] t s) : I steps t' s' := by
  suffices go : ∀ past, I past t s → I (past ++ steps) t' s' from go [] h₀
  clear h₀
  induction h with
  | nil =>
      intro past hpast
      simpa using hpast
  | @cons t t' s s₁ s' x steps hle hnext _ ih =>
      intro past hpast
      have h := ih _ (hstep hpast hle hnext)
      rwa [List.append_assoc] at h

/-- **Accounting rule.** When every step balances a quantity, the run balances
it with the sums over its steps. -/
theorem Run.account {I : ℕ → σ → Prop} (f : σ → ℕ) (taken added : Step σ τ → ℕ)
    (hstep : ∀ {t s x s'}, I t s → t ≤ clock x → next s x s' →
      f s' + taken ⟨s, x, s'⟩ = f s + added ⟨s, x, s'⟩ ∧ I (clock x) s')
    {t t' : ℕ} {s s' : σ} {steps : List (Step σ τ)}
    (h : Run next clock t s steps t' s') (h₀ : I t s) :
    f s' + (steps.map taken).sum = f s + (steps.map added).sum := by
  induction h with
  | nil => rfl
  | cons hle hnext _ ih =>
      obtain ⟨hbalance, hI⟩ := hstep h₀ hle hnext
      have hrest := ih hI
      simp only [List.map_cons, List.sum_cons]
      omega

/-- **Lock-step rule.** When another system answers every step with one of the
same label, it answers every run, state by state. -/
theorem Run.lockstep {ρ : Type} {next' : ρ → τ → ρ → Prop} {P : τ → Prop}
    {R : ℕ → σ → ρ → Prop}
    (hstep : ∀ {t s x s₁ r}, R t s r → t ≤ clock x → P x → next s x s₁ →
      ∃ r₁, next' r x r₁ ∧ R (clock x) s₁ r₁)
    {t t' : ℕ} {s s' : σ} {r : ρ} {steps : List (Step σ τ)}
    (h : Run next clock t s steps t' s') (hP : ∀ st ∈ steps, P st.label)
    (h₀ : R t s r) :
    ∃ steps' r', Run next' clock t r steps' t' r' ∧
      List.Forall₂ (fun st st' => st.label = st'.label ∧
        R (clock st.label) st.post st'.post) steps steps' ∧
      R t' s' r' := by
  induction h generalizing r with
  | nil => exact ⟨[], r, .nil, .nil, h₀⟩
  | @cons t t' s s₁ s' x steps hle hnext _ ih =>
      have hhead : P x := hP ⟨s, x, s₁⟩ (List.mem_cons_self ..)
      obtain ⟨r₁, hnext', h₁⟩ := hstep h₀ hle hhead hnext
      obtain ⟨steps', r', hrun', hall, hlast⟩ :=
        ih (fun st hst => hP st (List.mem_cons_of_mem _ hst)) h₁
      exact ⟨⟨r, x, r₁⟩ :: steps', r', .cons hle hnext' hrun',
        .cons ⟨rfl, h₁⟩ hall, hlast⟩

/-! ## Two runs, the second with extra steps -/

/-- `Inserted P xs ys zs`: the labels of `ys` are those of `xs`, in their
order, with the steps `zs` put in between, all of whose labels satisfy `P`. -/
inductive Inserted (P : τ → Prop) :
    List (Step σ τ) → List (Step σ τ) → List (Step σ τ) → Prop where
  | nil : Inserted P [] [] []
  | keep {x y : Step σ τ} {xs ys zs : List (Step σ τ)} :
      x.label = y.label → Inserted P xs ys zs →
      Inserted P (x :: xs) (y :: ys) zs
  | extra {y : Step σ τ} {xs ys zs : List (Step σ τ)} :
      P y.label → Inserted P xs ys zs → Inserted P xs (y :: ys) (y :: zs)

theorem Inserted.of_same_labels {P : τ → Prop} {xs ys : List (Step σ τ)}
    (h : xs.map Step.label = ys.map Step.label) : Inserted P xs ys [] := by
  induction xs generalizing ys with
  | nil =>
      obtain rfl := List.map_eq_nil_iff.mp h.symm
      exact .nil
  | cons x xs ih =>
      obtain ⟨y, ys, rfl, hy, hrest⟩ := List.map_eq_cons_iff.mp h.symm
      exact .keep hy.symm (ih hrest.symm)

/-- One step put in between, read off the labels. -/
theorem Inserted.of_labels {P : τ → Prop} {x : τ} (hx : P x) {front back : List τ}
    {xs ys : List (Step σ τ)} (hxs : xs.map Step.label = front ++ back)
    (hys : ys.map Step.label = front ++ x :: back) :
    ∃ zs, Inserted P xs ys zs ∧ zs.map Step.label = [x] := by
  induction front generalizing xs ys with
  | nil =>
      obtain ⟨y, ys, rfl, rfl, hrest⟩ := List.map_eq_cons_iff.mp hys
      exact ⟨[y], .extra hx (.of_same_labels (hxs.trans hrest.symm)), rfl⟩
  | cons a front ih =>
      obtain ⟨x', xs, rfl, hx', hxs⟩ := List.map_eq_cons_iff.mp hxs
      obtain ⟨y, ys, rfl, hy, hys⟩ := List.map_eq_cons_iff.mp hys
      obtain ⟨zs, hinserted, hzs⟩ := ih hxs hys
      exact ⟨zs, .keep (hx'.trans hy.symm) hinserted, hzs⟩

/-- **Two-run rule.** A relation between the states of two runs, indexed by
the extra steps taken so far, that survives the passage of time, a step both
runs take and a step only the second takes, holds at the end of both. The
clock of the relation is the second run's, which is never behind. -/
theorem simulation {P : τ → Prop} {R : List (Step σ τ) → ℕ → σ → σ → Prop}
    (hkeep : ∀ {zs t s₁ s₂ x s₁' s₂'}, R zs t s₁ s₂ → t ≤ clock x →
      next s₁ x s₁' → next s₂ x s₂' → R zs (clock x) s₁' s₂')
    (hextra : ∀ {zs t s₁ s₂ x s₂'}, R zs t s₁ s₂ → t ≤ clock x → P x →
      next s₂ x s₂' → R (zs ++ [⟨s₂, x, s₂'⟩]) (clock x) s₁ s₂')
    {t₁ t₂ u₁ u₂ : ℕ} {s₁ s₂ s₁' s₂' : σ} {xs ys zs : List (Step σ τ)}
    (hins : Inserted P xs ys zs) (h₁ : Run next clock t₁ s₁ xs u₁ s₁')
    (h₂ : Run next clock t₂ s₂ ys u₂ s₂') (ht : t₁ ≤ t₂)
    (h₀ : R [] t₂ s₁ s₂) : R zs u₂ s₁' s₂' ∧ u₁ ≤ u₂ := by
  suffices go : ∀ past, R past t₂ s₁ s₂ → R (past ++ zs) u₂ s₁' s₂' ∧ u₁ ≤ u₂ from
    go [] h₀
  clear h₀
  induction hins generalizing t₁ t₂ s₁ s₂ with
  | nil =>
      intro past hpast
      cases h₁
      cases h₂
      exact ⟨by simpa using hpast, ht⟩
  | keep hlabel _ ih =>
      intro past hpast
      cases h₁ with
      | cons hle₁ hnext₁ hrest₁ =>
          cases h₂ with
          | cons hle₂ hnext₂ hrest₂ =>
              simp only at hlabel
              subst hlabel
              exact ih hrest₁ hrest₂ (Nat.le_refl _) past
                (hkeep hpast hle₂ hnext₁ hnext₂)
  | extra hP _ ih =>
      intro past hpast
      cases h₂ with
      | cons hle₂ hnext₂ hrest₂ =>
          have h := ih h₁ hrest₂ (ht.trans hle₂) _
            (hextra hpast hle₂ hP hnext₂)
          rwa [List.append_assoc] at h

end TimedRun
