import Mathlib.Data.Nat.Notation

/-!
# Contracts that can be called back

A contract that calls another one hands over control in the middle of its own
function: until the call returns, anything may happen, also further calls of the
same contract. A function is a program that waits at every such call; an
activity is what the rest of the world does, with the functions it enters and,
inside them, the activities they wait for. Reverting undoes what it did.

The rule for both is rely-guarantee: a function may assume of the activity it
waits for what every function shows of itself.
-/

namespace Reentrancy

variable {σ ε α ι η β : Type}

/-- A function of the contract, at a state of contract and world: it ends, or it
calls out and goes on from the state and with the answer it finds. -/
inductive Program (σ ε α : Type) : Type where
  | finish (result : Except ε σ)
  | callOut (s : σ) (resume : σ → α → Program σ ε α)

/-- Go on with a value, or fail. -/
def Program.check (x : Except ε β) (next : β → Program σ ε α) : Program σ ε α :=
  match x with
  | .ok b => next b
  | .error e => .finish (.error e)

/-- What happens in the world: events, calls of the contract, one after the
other. `attempt` is a call whose failure the caller survives. A function that is
entered calls out `0, 1, 2, ..` times, and each time an activity goes on. -/
inductive Activity (ι η ε α : Type) : Type where
  | done
  | revert (reason : ε)
  | event (e : η)
  | seq (first second : Activity ι η ε α)
  | attempt (body : Activity ι η ε α)
  | enter (entry : ι) (during : ℕ → Activity ι η ε α) (answers : ℕ → α)

/-- A contract in its world: the code of its functions and of the events. -/
structure Contract (σ ε α ι η : Type) where
  code : ι → σ → Program σ ε α
  event : η → σ → Except ε σ

/-- A call that fails fails its caller. -/
def Program.run (during : ℕ → σ → Except ε σ) (answers : ℕ → α) :
    ℕ → Program σ ε α → Except ε σ
  | _, .finish result => result
  | n, .callOut s resume => do
      let s' ← during n s
      (resume s' (answers n)).run during answers (n + 1)

def Activity.run (c : Contract σ ε α ι η) : Activity ι η ε α → σ → Except ε σ
  | .done, s => .ok s
  | .revert reason, _ => .error reason
  | .event e, s => c.event e s
  | .seq first second, s => do
      let s' ← first.run c s
      second.run c s'
  | .attempt body, s =>
      match body.run c s with
      | .ok s' => .ok s'
      | .error _ => .ok s
  | .enter entry during answers, s =>
      (c.code entry s).run (fun n => (during n).run c) answers 0

/-! ## Rely-guarantee -/

/-- The program, entered at `s₀`, keeps `I` and `R` wherever control leaves it,
provided they are kept while it waits. -/
inductive Program.Keeps (I : σ → Prop) (R : σ → σ → Prop) (s₀ : σ) :
    Program σ ε α → Prop where
  | finish {result : Except ε σ} :
      (∀ s, result = .ok s → I s ∧ R s₀ s) → Keeps I R s₀ (.finish result)
  | callOut {s : σ} {resume : σ → α → Program σ ε α} :
      I s → R s₀ s →
      (∀ s' answer, I s' → R s s' → Keeps I R s₀ (resume s' answer)) →
      Keeps I R s₀ (.callOut s resume)

variable {I : σ → Prop} {R : σ → σ → Prop} {s s₀ s' : σ}

theorem Program.Keeps.fail (reason : ε) :
    (Program.finish (.error reason) : Program σ ε α).Keeps I R s₀ :=
  .finish fun _ h => nomatch h

theorem Program.Keeps.check {x : Except ε β} {next : β → Program σ ε α}
    (h : ∀ b, x = .ok b → (next b).Keeps I R s₀) :
    (Program.check x next).Keeps I R s₀ := by
  cases x with
  | error reason => exact .fail reason
  | ok b => exact h b rfl

theorem Program.Keeps.run {during : ℕ → σ → Except ε σ} {answers : ℕ → α}
    {p : Program σ ε α} (hp : p.Keeps I R s₀)
    (hduring : ∀ n s s', I s → during n s = .ok s' → I s' ∧ R s s') (n : ℕ)
    (h : p.run during answers n = .ok s') : I s' ∧ R s₀ s' := by
  induction hp generalizing n with
  | finish hresult => exact hresult s' h
  | @callOut s resume hs _ _ ih =>
      unfold Program.run at h
      cases hcall : during n s with
      | error reason =>
          rw [hcall] at h
          cases h
      | ok s₁ =>
          rw [hcall] at h
          obtain ⟨hs₁, hsame⟩ := hduring n s s₁ hs hcall
          exact ih s₁ (answers n) hs₁ hsame (n + 1) h

/-- Every function and every event keeps the invariant `I` and moves along `R`. -/
structure Contract.Stable (c : Contract σ ε α ι η) (I : σ → Prop)
    (R : σ → σ → Prop) : Prop where
  refl : ∀ s, R s s
  trans : ∀ {s₁ s₂ s₃}, R s₁ s₂ → R s₂ s₃ → R s₁ s₃
  event : ∀ {e s s'}, I s → c.event e s = .ok s' → I s' ∧ R s s'
  code : ∀ {entry s}, I s → (c.code entry s).Keeps I R s

/-- **Rely-guarantee rule.** No activity, however it calls back, breaks what
every function keeps on its own. -/
theorem Contract.Stable.run {c : Contract σ ε α ι η} (hc : c.Stable I R)
    (a : Activity ι η ε α) (hs : I s) (h : a.run c s = .ok s') : I s' ∧ R s s' := by
  induction a generalizing s s' with
  | done =>
      cases h
      exact ⟨hs, hc.refl s⟩
  | revert reason => cases h
  | event e => exact hc.event hs h
  | seq first second ih₁ ih₂ =>
      unfold Activity.run at h
      cases hfirst : first.run c s with
      | error reason =>
          rw [hfirst] at h
          cases h
      | ok s₁ =>
          rw [hfirst] at h
          obtain ⟨hs₁, hr₁⟩ := ih₁ hs hfirst
          obtain ⟨hs', hr'⟩ := ih₂ hs₁ h
          exact ⟨hs', hc.trans hr₁ hr'⟩
  | attempt body ih =>
      unfold Activity.run at h
      cases hbody : body.run c s with
      | error reason =>
          rw [hbody] at h
          cases h
          exact ⟨hs, hc.refl s⟩
      | ok s₁ =>
          rw [hbody] at h
          cases h
          exact ih hs hbody
  | enter entry during answers ih =>
      exact (hc.code hs).run (fun n _ _ hs₁ h₁ => ih n hs₁ h₁) 0 h

end Reentrancy
