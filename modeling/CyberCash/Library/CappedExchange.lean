import Mathlib.Algebra.Order.Floor.Div
import Mathlib.Tactic.Ring
import CyberCash.Library.Rounding

/-!
# Exchange at a fixed price out of a finite stock

A seller pays `rate` units of its stock for `scale` units offered, rounded
down, as long as the stock lasts. An offer worth the stock or more is paid with
all of it and cut down in proportion, by a second division through the worth
already rounded.

Two floors in a row can pay for up to one unit of the offer more than is taken,
and lose less than one unit of the stock: `scale_mul_payout_le` bounds the
overpayment and `rate_mul_charge_lt` the underpayment. `payout_eq_worth_iff` says
when what is paid is what the part taken is worth. An offer made in pieces gets
no more than the whole, and hardly less: `left_of_pieces`.
-/

namespace CappedExchange

open Rounding

structure Price where
  rate : ℕ
  scale : ℕ
  rate_pos : 0 < rate
  scale_pos : 0 < scale

namespace Price

/-- What an offer is worth, rounded down. -/
def worth (p : Price) (x : ℕ) : ℕ := x * p.rate / p.scale

/-- What is paid for an offer. -/
def payout (p : Price) (stock x : ℕ) : ℕ :=
  if p.worth x < stock then p.worth x else stock

/-- How much of an offer is taken. -/
def charge (p : Price) (stock x : ℕ) : ℕ :=
  if p.worth x < stock then x else x * stock / p.worth x

variable (p : Price) {stock x y n : ℕ}

/-! ## Rounding -/

theorem scale_mul_worth_le (x : ℕ) : p.scale * p.worth x ≤ x * p.rate :=
  Nat.mul_div_le _ _

theorem lt_scale_mul_worth_succ (x : ℕ) :
    x * p.rate < p.scale * (p.worth x + 1) :=
  Nat.lt_mul_div_succ _ p.scale_pos

theorem worth_lt_iff : p.worth x < n ↔ x * p.rate < n * p.scale :=
  Nat.div_lt_iff_lt_mul p.scale_pos

theorem le_worth_iff : n ≤ p.worth x ↔ n * p.scale ≤ x * p.rate :=
  Nat.le_div_iff_mul_le p.scale_pos

theorem worth_mono (h : x ≤ y) : p.worth x ≤ p.worth y :=
  Nat.div_le_div_right (Nat.mul_le_mul_right _ h)

theorem worth_zero : p.worth 0 = 0 := by
  unfold worth
  rw [Nat.zero_mul, Nat.zero_div]

/-! ## The two branches -/

theorem payout_of_lt (h : p.worth x < stock) : p.payout stock x = p.worth x :=
  if_pos h

theorem charge_of_lt (h : p.worth x < stock) : p.charge stock x = x := if_pos h

theorem payout_of_le (h : stock ≤ p.worth x) : p.payout stock x = stock :=
  if_neg h.not_gt

theorem charge_of_le (h : stock ≤ p.worth x) :
    p.charge stock x = x * stock / p.worth x := if_neg h.not_gt

theorem payout_le_stock (stock x : ℕ) : p.payout stock x ≤ stock := by
  unfold payout
  split
  · exact Nat.le_of_lt ‹_›
  · exact Nat.le_refl _

theorem charge_le (stock x : ℕ) : p.charge stock x ≤ x := by
  unfold charge
  split
  · exact Nat.le_refl x
  · apply Nat.div_le_of_le_mul
    rw [Nat.mul_comm (p.worth x)]
    exact Nat.mul_le_mul_left x (Nat.le_of_not_lt ‹_›)

/-! ## How far the price is missed -/

/-- What is taken is never worth more than what is paid. -/
theorem worth_charge_le_payout (stock x : ℕ) :
    p.worth (p.charge stock x) ≤ p.payout stock x := by
  rcases Nat.lt_or_ge (p.worth x) stock with hlt | hge
  · rw [p.charge_of_lt hlt, p.payout_of_lt hlt]
  · rw [p.charge_of_le hge, p.payout_of_le hge]
    rcases Nat.eq_zero_or_pos stock with rfl | hstock
    · rw [Nat.mul_zero, Nat.zero_div, worth_zero]
    · have htaken : x * stock / p.worth x * p.worth x ≤ x * stock :=
        Nat.div_mul_le_self _ _
      rw [← Nat.lt_succ_iff, worth_lt_iff]
      -- compared after multiplying by the rounded worth
      apply Nat.lt_of_mul_lt_mul_right (a := p.worth x)
      calc x * stock / p.worth x * p.rate * p.worth x
          = x * stock / p.worth x * p.worth x * p.rate := by ring
        _ ≤ x * stock * p.rate := Nat.mul_le_mul_right _ htaken
        _ = stock * (x * p.rate) := by ring
        _ < stock * (p.scale * (p.worth x + 1)) :=
            Nat.mul_lt_mul_of_pos_left (p.lt_scale_mul_worth_succ x) hstock
        _ = p.scale * p.worth x * stock + p.scale * stock := by ring
        _ ≤ p.scale * p.worth x * stock + p.scale * p.worth x :=
            Nat.add_le_add_left (Nat.mul_le_mul_left _ hge) _
        _ = (stock + 1) * p.scale * p.worth x := by ring

/-- **Overpayment.** Only an offer that empties the stock is paid above the
price, and by less than one unit more of it would be worth. -/
theorem scale_mul_payout_le (stock x : ℕ) :
    p.scale * p.payout stock x ≤
      p.rate * (p.charge stock x + if p.payout stock x = stock then 1 else 0) := by
  rcases Nat.lt_or_ge (p.worth x) stock with hlt | hge
  · rw [p.charge_of_lt hlt, p.payout_of_lt hlt, if_neg hlt.ne, Nat.add_zero,
      Nat.mul_comm p.rate]
    exact p.scale_mul_worth_le x
  · rw [p.charge_of_le hge, p.payout_of_le hge, if_pos rfl]
    rcases Nat.eq_zero_or_pos stock with rfl | hstock
    · rw [Nat.mul_zero]
      exact Nat.zero_le _
    · have hpos : 0 < p.worth x := hstock.trans_le hge
      have htaken : x * stock ≤ p.worth x * (x * stock / p.worth x + 1) :=
        (Nat.lt_mul_div_succ _ hpos).le
      apply Nat.le_of_mul_le_mul_right _ hpos
      calc p.scale * stock * p.worth x
          = p.scale * p.worth x * stock := by ring
        _ ≤ x * p.rate * stock := Nat.mul_le_mul_right _ (p.scale_mul_worth_le x)
        _ = p.rate * (x * stock) := by ring
        _ ≤ p.rate * (p.worth x * (x * stock / p.worth x + 1)) :=
            Nat.mul_le_mul_left _ htaken
        _ = p.rate * (x * stock / p.worth x + 1) * p.worth x := by ring

/-- **Underpayment** is by less than one unit of the stock. -/
theorem rate_mul_charge_lt (stock x : ℕ) :
    p.rate * p.charge stock x < p.scale * (p.payout stock x + 1) := by
  have hworth : p.worth (p.charge stock x) < p.payout stock x + 1 :=
    Nat.lt_succ_of_le (p.worth_charge_le_payout stock x)
  rw [Nat.mul_comm, Nat.mul_comm p.scale]
  exact p.worth_lt_iff.mp hworth

/-! ## When the price is met -/

/-- A capped offer meets the price if what is taken of it, rounded down, still
pays for the whole stock. -/
theorem payout_eq_worth_iff_of_le (hstock : 0 < stock) (hge : stock ≤ p.worth x) :
    p.payout stock x = p.worth (p.charge stock x) ↔
      (stock * p.scale ⌈/⌉ p.rate) * p.worth x ≤ x * stock := by
  have hle := p.worth_charge_le_payout stock x
  rw [p.charge_of_le hge, p.payout_of_le hge] at *
  rw [← Nat.le_div_iff_mul_le (hstock.trans_le hge),
    ceilDiv_le_iff_le_mul p.rate_pos, Nat.mul_comm p.rate, ← le_worth_iff]
  exact ⟨fun heq => heq.le, fun hge' => hge'.antisymm hle⟩

/-- The price of the stock, if it is no whole number of units of the offer. -/
theorem ceil_of_not_dvd (hdvd : ¬p.rate ∣ stock * p.scale) :
    stock * p.scale ⌈/⌉ p.rate = stock * p.scale / p.rate + 1 := by
  have hrest : stock * p.scale % p.rate ≠ 0 := mt Nat.dvd_of_mod_eq_zero hdvd
  have hdivision := Nat.div_add_mod (stock * p.scale) p.rate
  have hless := Nat.mod_lt (stock * p.scale) p.rate_pos
  apply le_antisymm
  · rw [ceilDiv_le_iff_le_mul p.rate_pos, Nat.mul_succ]
    omega
  · rw [Nat.succ_le_iff, ← not_le, ceilDiv_le_iff_le_mul p.rate_pos]
    omega

/-- A price that is a whole number of units is paid in full. -/
theorem ceil_mul_worth_le_of_dvd (hdvd : p.rate ∣ stock * p.scale) (x : ℕ) :
    (stock * p.scale ⌈/⌉ p.rate) * p.worth x ≤ x * stock := by
  obtain ⟨n, hn⟩ := hdvd
  have hceil : stock * p.scale ⌈/⌉ p.rate ≤ n :=
    (ceilDiv_le_iff_le_mul p.rate_pos).mpr hn.le
  refine (Nat.mul_le_mul_right _ hceil).trans ?_
  apply Nat.le_of_mul_le_mul_left _ p.scale_pos
  calc p.scale * (n * p.worth x)
      = n * (p.scale * p.worth x) := by ring
    _ ≤ n * (x * p.rate) := Nat.mul_le_mul_left _ (p.scale_mul_worth_le x)
    _ = x * (p.rate * n) := by ring
    _ = p.scale * (x * stock) := by rw [← hn]; ring

/-- One that is not is paid in full if what rounding it up adds for the offer is
made up for by what rounding down the worth of the offer drops. -/
theorem ceil_mul_worth_le_iff_of_not_dvd (hdvd : ¬p.rate ∣ stock * p.scale) (x : ℕ) :
    (stock * p.scale ⌈/⌉ p.rate) * p.worth x ≤ x * stock ↔
      x * (p.rate - stock * p.scale % p.rate) ≤
        (stock * p.scale / p.rate + 1) * (x * p.rate % p.scale) := by
  rw [p.ceil_of_not_dvd hdvd]
  set n := stock * p.scale / p.rate + 1 with hn
  have hworth : p.scale * p.worth x + x * p.rate % p.scale = x * p.rate :=
    Nat.div_add_mod _ _
  have hprice : p.rate * n =
      stock * p.scale + (p.rate - stock * p.scale % p.rate) := by
    have hdivision := Nat.div_add_mod (stock * p.scale) p.rate
    have hless := Nat.mod_lt (stock * p.scale) p.rate_pos
    rw [hn, Nat.mul_succ]
    omega
  -- both sides of the comparison, brought to the scale of the price
  have hbalance : p.scale * (n * p.worth x) + n * (x * p.rate % p.scale) =
      p.scale * (x * stock) + x * (p.rate - stock * p.scale % p.rate) := by
    calc p.scale * (n * p.worth x) + n * (x * p.rate % p.scale)
        = n * (p.scale * p.worth x + x * p.rate % p.scale) := by ring
      _ = x * (p.rate * n) := by rw [hworth]; ring
      _ = p.scale * (x * stock) + x * (p.rate - stock * p.scale % p.rate) := by
          rw [hprice]; ring
  rw [← Nat.mul_le_mul_left_iff p.scale_pos]
  omega

/-- **Exactness.** What is taken is worth what is paid if the stock suffices, if
its price is a whole number of units of the offer, or if the rounding of the
offer's worth makes up for the rounding of that price. -/
theorem payout_eq_worth_iff (hstock : 0 < stock) :
    p.payout stock x = p.worth (p.charge stock x) ↔
      x * p.rate < stock * p.scale ∨ p.rate ∣ stock * p.scale ∨
        x * (p.rate - stock * p.scale % p.rate) ≤
          (stock * p.scale / p.rate + 1) * (x * p.rate % p.scale) := by
  rcases Nat.lt_or_ge (p.worth x) stock with hlt | hge
  · rw [p.charge_of_lt hlt, p.payout_of_lt hlt]
    exact iff_of_true rfl (.inl (p.worth_lt_iff.mp hlt))
  · have hcapped : ¬x * p.rate < stock * p.scale := fun hlt =>
      (p.worth_lt_iff.mpr hlt).not_ge hge
    rw [p.payout_eq_worth_iff_of_le hstock hge, or_iff_right hcapped]
    by_cases hdvd : p.rate ∣ stock * p.scale
    · exact iff_of_true (p.ceil_mul_worth_le_of_dvd hdvd x) (.inl hdvd)
    · rw [p.ceil_mul_worth_le_iff_of_not_dvd hdvd, or_iff_right hdvd]

/-- At the price, offering again what was taken changes nothing. -/
theorem again (hstock : 0 < stock)
    (h : p.payout stock x = p.worth (p.charge stock x)) :
    p.charge stock (p.charge stock x) = p.charge stock x ∧
      p.payout stock (p.charge stock x) = p.payout stock x := by
  rcases Nat.lt_or_ge (p.worth x) stock with hlt | hge
  · rw [p.charge_of_lt hlt, p.charge_of_lt hlt]
    exact ⟨rfl, rfl⟩
  · rw [p.payout_of_le hge] at h ⊢
    rw [p.charge_of_le h.le, p.payout_of_le h.le, ← h,
      Nat.mul_div_cancel _ hstock]
    exact ⟨rfl, rfl⟩

/-! ## Offers one after the other -/

theorem worth_nearlyAdditive : NearlyAdditive p.worth 1 :=
  nearlyAdditive_mul_div p.rate p.scale

/-- The stock left after some offers. -/
def left (p : Price) : ℕ → List ℕ → ℕ
  | stock, [] => stock
  | stock, x :: xs => p.left (stock - p.payout stock x) xs

theorem sub_payout (stock x : ℕ) :
    stock - p.payout stock x = stock - p.worth x := by
  rcases Nat.lt_or_ge (p.worth x) stock with hlt | hge
  · rw [p.payout_of_lt hlt]
  · rw [p.payout_of_le hge, Nat.sub_self, Nat.sub_eq_zero_of_le hge]

theorem left_eq (stock : ℕ) (xs : List ℕ) :
    p.left stock xs = stock - (xs.map p.worth).sum := by
  induction xs generalizing stock with
  | nil => rfl
  | cons x xs ih =>
      rw [left, ih, sub_payout, Nat.sub_sub, List.map_cons, List.sum_cons]

theorem left_le (stock : ℕ) (xs : List ℕ) : p.left stock xs ≤ stock := by
  rw [left_eq]
  exact Nat.sub_le _ _

/-- **Splitting an offer** leaves no less of the stock, and at most one unit
more for each cut. -/
theorem left_of_pieces {xs : List ℕ} (hne : xs ≠ []) (stock : ℕ) :
    p.left stock [xs.sum] ≤ p.left stock xs ∧
      p.left stock xs ≤ p.left stock [xs.sum] + (xs.length - 1) := by
  rw [left_eq, left_eq]
  exact p.worth_nearlyAdditive.left_of_stock hne stock

end Price

end CappedExchange
