import Mathlib.Algebra.Order.BigOperators.Group.List
import Mathlib.Algebra.BigOperators.Group.List.Basic
import Mathlib.Algebra.Order.Ring.Nat
import Mathlib.Algebra.Group.Action.Defs

/-!
# Rounding a sum in pieces

A charge that is rounded down is nearly additive: the pieces of a sum are
charged no more than the whole, and less by at most one unit for every cut.
What is left of a stock that pays the charges, as far as it goes, differs by
no more than that.
-/

namespace Rounding

section Sum

variable {M N : Type} [AddMonoid M] [AddCommMonoid N] [PartialOrder N]
  [IsOrderedAddMonoid N] {f : M → N} {slack : N} {xs : List M}

/-- A sum gets at least what its summands get, and at most `slack` more. -/
structure NearlyAdditive (f : M → N) (slack : N) : Prop where
  add_le : ∀ x y, f x + f y ≤ f (x + y)
  le_add : ∀ x y, f (x + y) ≤ f x + f y + slack

/-- The pieces get no more than the whole. -/
theorem NearlyAdditive.sum_le (h : NearlyAdditive f slack) (hne : xs ≠ []) :
    (xs.map f).sum ≤ f xs.sum :=
  -- subadditivity in the reversed order
  @List.le_sum_nonempty_of_subadditive M Nᵒᵈ _ _ _ _ f h.add_le xs hne

/-- And each of the `xs.length - 1` cuts loses at most `slack`. -/
theorem NearlyAdditive.le_sum (h : NearlyAdditive f slack) (hne : xs ≠ []) :
    f xs.sum + slack ≤ (xs.map f).sum + xs.length • slack := by
  have hsub (x y : M) : f (x + y) + slack ≤ f x + slack + (f y + slack) := by
    calc f (x + y) + slack
        ≤ f x + f y + slack + slack := add_le_add_left (h.le_add x y) slack
      _ = f x + slack + (f y + slack) := by
          rw [add_add_add_comm, add_assoc]
  have hsum := List.le_sum_nonempty_of_subadditive (f · + slack) hsub xs hne
  rwa [List.sum_map_add, List.map_const', List.sum_replicate] at hsum

end Sum

/-! ## Charges in whole units -/

section Units

variable {M : Type} [AddMonoid M] {f : M → ℕ} {xs : List M}

theorem NearlyAdditive.sum_lt_add_length (h : NearlyAdditive f 1) (hne : xs ≠ []) :
    f xs.sum < (xs.map f).sum + xs.length := by
  have hle := h.le_sum hne
  rwa [smul_eq_mul, Nat.mul_one] at hle

/-- **What is left of a stock** after the pieces, against the whole. -/
theorem NearlyAdditive.left_of_stock (h : NearlyAdditive f 1) (hne : xs ≠ [])
    (stock : ℕ) :
    stock - f xs.sum ≤ stock - (xs.map f).sum ∧
      stock - (xs.map f).sum ≤ stock - f xs.sum + (xs.length - 1) := by
  have hle := h.sum_le hne
  have hlt := h.sum_lt_add_length hne
  constructor
  · exact Nat.sub_le_sub_left hle stock
  · omega

/-- What is left of a stock of which only the part above a reserve pays. -/
def leftAbove (reserve stock charge : ℕ) : ℕ :=
  min stock reserve + (stock - reserve - charge)

theorem leftAbove_zero (reserve stock : ℕ) : leftAbove reserve stock 0 = stock := by
  unfold leftAbove
  omega

/-- One charge after the other is charged like their sum. -/
theorem leftAbove_leftAbove (reserve stock x y : ℕ) :
    leftAbove reserve (leftAbove reserve stock x) y =
      leftAbove reserve stock (x + y) := by
  unfold leftAbove
  omega

theorem eq_leftAbove {reserve stock charge rest : ℕ}
    (h : rest + min charge (stock - reserve) = stock) :
    rest = leftAbove reserve stock charge := by
  unfold leftAbove
  omega

theorem NearlyAdditive.leftAbove_of_stock (h : NearlyAdditive f 1) (hne : xs ≠ [])
    (reserve stock : ℕ) :
    leftAbove reserve stock (f xs.sum) ≤ leftAbove reserve stock (xs.map f).sum ∧
      leftAbove reserve stock (xs.map f).sum ≤
        leftAbove reserve stock (f xs.sum) + (xs.length - 1) := by
  obtain ⟨hless, hmore⟩ := h.left_of_stock hne (stock - reserve)
  unfold leftAbove
  constructor
  · exact Nat.add_le_add_left hless _
  · rw [Nat.add_assoc]
    exact Nat.add_le_add_left hmore _

/-- A share, rounded down. -/
theorem nearlyAdditive_mul_div (rate scale : ℕ) :
    NearlyAdditive (fun x : ℕ => x * rate / scale) 1 := by
  constructor
  · intro x y
    rw [Nat.add_mul]
    exact Nat.div_add_div_le_add_div
  · intro x y
    rcases Nat.eq_zero_or_pos scale with rfl | hscale
    · simp
    · rw [Nat.add_mul, Nat.add_div hscale]
      split
      · exact Nat.le_refl _
      · exact Nat.le_succ _

end Units

end Rounding
