import Mathlib.Data.List.Basic

/-!
# What a hash binds

A hash of unboundedly many messages has collisions, so that equal hashes come
from equal messages is never true outright. What is true is that otherwise two
of the messages at hand collide: `Collision` names the messages.
-/

namespace Hashing

variable {α β : Type} {h : α → β} {m m' : α} {ms ms' : List α}

/-- Two different messages of the list have one hash. -/
def Collision (h : α → β) (ms : List α) : Prop :=
  ∃ m ∈ ms, ∃ m' ∈ ms, m ≠ m' ∧ h m = h m'

theorem Collision.mono (hc : Collision h ms) (hsub : ms ⊆ ms') : Collision h ms' := by
  obtain ⟨m, hm, m', hm', hne, heq⟩ := hc
  exact ⟨m, hsub hm, m', hsub hm', hne, heq⟩

theorem eq_or_collision (ms : List α) (heq : h m = h m') (hm : m ∈ ms)
    (hm' : m' ∈ ms) : m = m' ∨ Collision h ms := by
  by_cases hsame : m = m'
  · exact .inl hsame
  · exact .inr ⟨m, hm, m', hm', hsame, heq⟩

end Hashing
