import Mathlib.Algebra.BigOperators.Group.Finset.Piecewise
import Mathlib.Algebra.Order.BigOperators.Group.Finset
import Mathlib.Data.Fintype.OfMap
import Mathlib.Data.Fintype.Basic
import Mathlib.Tactic.Ring

/-!
# Solidity values and reverting computations

The part of Solidity 0.8 that a contract model rests on, with no contract in
it: addresses and words, checked and unchecked `uint256` arithmetic, `require`,
and mappings as total functions changed at one key.

A `uint256` is a natural number. Checked operations revert where the compiler
inserts a panic; unchecked ones wrap. Every operation has one lemma that says
when it succeeds and with what, so that a `do` block is taken apart by
`bind_eq_ok` and never by unfolding the arithmetic.
-/

namespace Solidity

/-- A 160-bit account address. -/
abbrev Address : Type := BitVec 160

/-- A 256-bit calldata word. Storage words are kept as naturals. -/
abbrev Uint256 : Type := BitVec 256

abbrev Byte : Type := BitVec 8

noncomputable instance instFintypeBitVec (w : ℕ) : Fintype (BitVec w) :=
  Fintype.ofEquiv (Fin (2 ^ w))
    ⟨BitVec.ofFin, BitVec.toFin, fun _ => rfl, fun _ => rfl⟩

/-- What a contract sees of the message that called it. No account can sign for
the zero address, so a message from it cannot be built. -/
structure Msg where
  sender : Address
  sender_ne_zero : sender ≠ 0
  timestamp : ℕ

/-! ## Reverts -/

/-- Why a call reverted: a compiler panic, a `require` text, or one of the
contract's own errors. -/
inductive Revert (ε : Type) : Type where
  | panic (code : ℕ)
  | error (message : String)
  | custom (e : ε)
deriving DecidableEq, Repr

variable {ε α β : Type}

def require (c : Prop) [Decidable c] (r : Revert ε) : Except (Revert ε) Unit :=
  if c then .ok () else .error r

theorem bind_eq_ok {x : Except ε α} {f : α → Except ε β} {b : β} :
    (x >>= f) = .ok b ↔ ∃ a, x = .ok a ∧ f a = .ok b := by
  cases x with
  | error e => simp [bind, Except.bind]
  | ok a => simp [bind, Except.bind]

@[simp] theorem ok_bind (a : α) (f : α → Except ε β) :
    (Except.ok a >>= f) = f a := rfl

@[simp] theorem error_bind (e : ε) (f : α → Except ε β) :
    (Except.error e >>= f) = .error e := rfl

@[simp] theorem pure_eq_ok (a : α) : (pure a : Except ε α) = .ok a := rfl

/-- A computation that does not see a change `f` of its state. -/
theorem bind_map_map {x : Except ε α} {f : α → α} {k : α → Except ε β}
    {g : β → β} (h : ∀ a, k (f a) = (k a).map g) :
    (x.map f >>= k) = (x >>= k).map g := by
  cases x with
  | error e => rfl
  | ok a => exact h a

theorem bind_map_right {x : Except ε α} {k k' : α → Except ε β} {g : β → β}
    (h : ∀ a, k' a = (k a).map g) : (x >>= k') = (x >>= k).map g := by
  cases x with
  | error e => rfl
  | ok a => exact h a

theorem map_eq_ok {x : Except ε α} {f : α → β} {b : β} :
    x.map f = .ok b ↔ ∃ a, x = .ok a ∧ b = f a := by
  cases x with
  | error e => simp [Except.map]
  | ok a => simp [Except.map, eq_comm]

theorem exists_of_isOk {x : Except ε α} (h : x.isOk = true) : ∃ a, x = .ok a := by
  cases x with
  | error e => exact Bool.noConfusion h
  | ok a => exact ⟨a, rfl⟩

theorem require_eq_ok {c : Prop} [Decidable c] {r : Revert ε} {u : Unit} :
    require c r = .ok u ↔ c := by
  unfold require
  by_cases h : c <;> simp [h]

/-! ## Arithmetic -/

/-- `type(uint256).max`. -/
def uintMax : ℕ := 2 ^ 256 - 1

/-- Panic code of arithmetic under- and overflow. -/
def arithmeticPanic : ℕ := 0x11

/-- Panic code of a division by zero. -/
def divisionPanic : ℕ := 0x12

def checkedAdd (x y : ℕ) : Except (Revert ε) ℕ :=
  if x + y < 2 ^ 256 then .ok (x + y) else .error (.panic arithmeticPanic)

def checkedSub (x y : ℕ) : Except (Revert ε) ℕ :=
  if y ≤ x then .ok (x - y) else .error (.panic arithmeticPanic)

def checkedMul (x y : ℕ) : Except (Revert ε) ℕ :=
  if x * y < 2 ^ 256 then .ok (x * y) else .error (.panic arithmeticPanic)

def checkedDiv (x y : ℕ) : Except (Revert ε) ℕ :=
  if y = 0 then .error (.panic divisionPanic) else .ok (x / y)

def checkedPow (x y : ℕ) : Except (Revert ε) ℕ :=
  if x ^ y < 2 ^ 256 then .ok (x ^ y) else .error (.panic arithmeticPanic)

/-- Addition inside an `unchecked` block. -/
def uncheckedAdd (x y : ℕ) : ℕ := (x + y) % 2 ^ 256

/-- Subtraction inside an `unchecked` block. -/
def uncheckedSub (x y : ℕ) : ℕ := (x + 2 ^ 256 - y) % 2 ^ 256

theorem checkedAdd_eq_ok {x y z : ℕ} :
    (checkedAdd x y : Except (Revert ε) ℕ) = .ok z ↔
      x + y < 2 ^ 256 ∧ z = x + y := by
  unfold checkedAdd
  split <;> simp_all [eq_comm]

theorem checkedSub_eq_ok {x y z : ℕ} :
    (checkedSub x y : Except (Revert ε) ℕ) = .ok z ↔ y ≤ x ∧ z = x - y := by
  unfold checkedSub
  split <;> simp_all [eq_comm]

theorem checkedMul_eq_ok {x y z : ℕ} :
    (checkedMul x y : Except (Revert ε) ℕ) = .ok z ↔
      x * y < 2 ^ 256 ∧ z = x * y := by
  unfold checkedMul
  split <;> simp_all [eq_comm]

theorem checkedDiv_eq_ok {x y z : ℕ} :
    (checkedDiv x y : Except (Revert ε) ℕ) = .ok z ↔ y ≠ 0 ∧ z = x / y := by
  unfold checkedDiv
  split <;> simp_all [eq_comm]

theorem checkedPow_eq_ok {x y z : ℕ} :
    (checkedPow x y : Except (Revert ε) ℕ) = .ok z ↔
      x ^ y < 2 ^ 256 ∧ z = x ^ y := by
  unfold checkedPow
  split <;> simp_all [eq_comm]

theorem checkedAdd_of_lt {x y : ℕ} (h : x + y < 2 ^ 256) :
    (checkedAdd x y : Except (Revert ε) ℕ) = .ok (x + y) := if_pos h

theorem checkedSub_of_le {x y : ℕ} (h : y ≤ x) :
    (checkedSub x y : Except (Revert ε) ℕ) = .ok (x - y) := if_pos h

theorem checkedMul_of_lt {x y : ℕ} (h : x * y < 2 ^ 256) :
    (checkedMul x y : Except (Revert ε) ℕ) = .ok (x * y) := if_pos h

theorem checkedDiv_of_pos {x y : ℕ} (h : 0 < y) :
    (checkedDiv x y : Except (Revert ε) ℕ) = .ok (x / y) :=
  if_neg (Nat.ne_of_gt h)

theorem uncheckedAdd_of_lt {x y : ℕ} (h : x + y < 2 ^ 256) :
    uncheckedAdd x y = x + y := Nat.mod_eq_of_lt h

theorem uncheckedSub_of_le {x y : ℕ} (h : y ≤ x) (hx : x < 2 ^ 256) :
    uncheckedSub x y = x - y := by
  unfold uncheckedSub
  rw [show x + 2 ^ 256 - y = (x - y) + 2 ^ 256 by omega, Nat.add_mod_right]
  exact Nat.mod_eq_of_lt (Nat.lt_of_le_of_lt (Nat.sub_le x y) hx)

theorem uncheckedSub_lt (x y : ℕ) : uncheckedSub x y < 2 ^ 256 :=
  Nat.mod_lt _ (Nat.two_pow_pos 256)

/-! ## Two readings of a view

A view may revert, so a change it shows is told of the readings that return. -/

def Rises (v v' : Except (Revert ε) ℕ) (n : ℕ) : Prop :=
  ∀ x x', v = .ok x → v' = .ok x' → x' = x + n

def Falls (v v' : Except (Revert ε) ℕ) (n : ℕ) : Prop :=
  ∀ x x', v = .ok x → v' = .ok x' → x' + n = x

def Stays (v v' : Except (Revert ε) ℕ) : Prop :=
  ∀ x x', v = .ok x → v' = .ok x' → x' = x

/-! ## Mappings

A mapping is a total function; a write is `Function.update`. The two sum
lemmas are what a ledger argument needs of a write: the total moves by the
difference at the written key. -/

section Mapping

open Function

variable {κ : Type} [Fintype κ] [DecidableEq κ]

theorem sum_update_add (f : κ → ℕ) (k : κ) (v : ℕ) :
    (∑ x, update f k v x) + f k = (∑ x, f x) + v := by
  have hrest : ∑ x ∈ Finset.univ.erase k, update f k v x =
      ∑ x ∈ Finset.univ.erase k, f x :=
    Finset.sum_congr rfl fun x hx => update_of_ne (Finset.ne_of_mem_erase hx) v f
  have hold := Finset.add_sum_erase Finset.univ f (Finset.mem_univ k)
  have hnew := Finset.add_sum_erase Finset.univ (update f k v) (Finset.mem_univ k)
  rw [update_self, hrest] at hnew
  omega

theorem sum_only_key (k : κ) (v : ℕ) :
    (∑ x, update (fun _ => 0) k v x) = v := by
  have h := sum_update_add (fun _ => 0) k v
  rwa [Finset.sum_const_zero, Nat.add_zero, Nat.zero_add] at h

theorem sum_credit (f : κ → ℕ) (k : κ) (v : ℕ) :
    (∑ x, update f k (f k + v) x) = (∑ x, f x) + v := by
  have h := sum_update_add f k (f k + v)
  omega

theorem sum_debit {f : κ → ℕ} {k : κ} {v : ℕ} (h : v ≤ f k) :
    (∑ x, update f k (f k - v) x) + v = ∑ x, f x := by
  have hs := sum_update_add f k (f k - v)
  omega

omit [DecidableEq κ] in
theorem le_sum_of_key (f : κ → ℕ) (k : κ) : f k ≤ ∑ x, f x :=
  Finset.single_le_sum (fun _ _ => Nat.zero_le _) (Finset.mem_univ k)

theorem add_le_sum_of_ne (f : κ → ℕ) {k k' : κ} (hne : k ≠ k') :
    f k + f k' ≤ ∑ x, f x := by
  rw [← Finset.sum_pair hne]
  exact Finset.sum_le_sum_of_subset (Finset.subset_univ _)

/-- Moving `v` from one key to another, also onto itself. -/
def moved (f : κ → ℕ) (src dst : κ) (v : ℕ) : κ → ℕ :=
  update (update f src (f src - v)) dst (update f src (f src - v) dst + v)

theorem sum_moved {f : κ → ℕ} {src dst : κ} {v : ℕ} (h : v ≤ f src) :
    (∑ x, moved f src dst v x) = ∑ x, f x := by
  unfold moved
  rw [sum_credit, sum_debit h]

omit [Fintype κ] in
/-- The balance equation of a move, at every key and also when the two keys
are the same. -/
theorem moved_add {f : κ → ℕ} {src : κ} {v : ℕ} (h : v ≤ f src) (dst x : κ) :
    moved f src dst v x + (if x = src then v else 0) =
      f x + (if x = dst then v else 0) := by
  unfold moved
  by_cases hd : x = dst
  · subst hd
    by_cases hs : x = src
    · subst hs
      simp only [update_self, if_true]
      omega
    · simp [hs]
  · by_cases hs : x = src
    · subst hs
      simp only [update_of_ne hd, update_self, if_true, if_neg hd]
      omega
    · simp [hd, hs]

omit [Fintype κ] in
theorem moved_other {f : κ → ℕ} {src dst x : κ} {v : ℕ} (hs : x ≠ src)
    (hd : x ≠ dst) : moved f src dst v x = f x := by
  simp [moved, hs, hd]

end Mapping

end Solidity
