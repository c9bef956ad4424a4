import CyberCash.Results.Offers

/-!
# Splitting a migration

Nobody gains CASH by migrating in pieces. Each piece is rounded by itself and
finds less CASH left than the one before, until the rest is capped or rejected;
all together they are paid at most what one migration of the sum is paid, and
less by at most one unit for each cut.
-/

namespace CyberCash

open Solidity CappedExchange

variable {ω : Type} {chain : Chain ω} {this sender : Caller} {m : Migrator}
  {s s' : ω × Migrator} {_token : Address} {balance : ℕ} {p : Price}
  {pieces : List (Caller × Uint256)}

/-! ## Migrations in pieces -/

/-- The pieces, offered each by a caller of its own. -/
def asOffers (_token : Address) (pieces : List (Caller × Uint256)) : List Offer :=
  pieces.map fun piece => ⟨piece.1, _token, piece.2⟩

/-- Migrations of one token executed one after the other. -/
def Piecewise (chain : Chain ω) (this : Caller) (_token : Address)
    (s : ω × Migrator) (pieces : List (Caller × Uint256)) (s' : ω × Migrator) : Prop :=
  Served chain this s (asOffers _token pieces) s'

def amounts (pieces : List (Caller × Uint256)) : List ℕ :=
  pieces.map (·.2.toNat)

theorem worth_asOffers (hp : m.Prices _token p) :
    (asOffers _token pieces).map m.worth = (amounts pieces).map p.worth := by
  unfold asOffers amounts
  rw [List.map_map, List.map_map]
  apply List.map_congr_left
  intro piece _
  exact Migrator.Prices.worth (o := ⟨piece.1, _token, piece.2⟩) hp

/-- A bound on the sum bounds each piece. -/
theorem fits_asOffers (hp : m.Prices _token p)
    (hscaled : (amounts pieces).sum * p.rate < 2 ^ 256)
    (hpart : (amounts pieces).sum * balance < 2 ^ 256) :
    ∀ o ∈ asOffers _token pieces, o.Fits m balance := by
  intro o ho
  obtain ⟨piece, hpiece, rfl⟩ := List.mem_map.mp ho
  have hle : piece.2.toNat ≤ (amounts pieces).sum :=
    List.single_le_sum (fun _ _ => Nat.zero_le _) _ (List.mem_map_of_mem hpiece)
  refine ⟨⟨p, hp⟩, ?_, (Nat.mul_le_mul_right _ hle).trans_lt hpart⟩
  rw [hp.rate]
  exact (Nat.mul_le_mul_right _ hle).trans_lt hscaled

/-- Migrations in pieces leave what the offers leave of the stock. -/
theorem Piecewise.leaves (h : Piecewise chain this _token s pieces s')
    (hp : s.2.Prices _token p)
    (hbalance : IERC20.balanceOf chain s.1 s.2.cyberCash this.1 = .ok balance)
    (hscaled : (amounts pieces).sum * p.rate < 2 ^ 256)
    (hpart : (amounts pieces).sum * balance < 2 ^ 256) :
    Leaves chain this s balance (p.left balance (amounts pieces)) s' := by
  have hleaves := Served.leaves h hbalance (fits_asOffers hp hscaled hpart)
  rwa [worth_asOffers hp, ← p.left_eq] at hleaves

/-- **Splitting a migration gains no CASH**, and loses at most one unit for each
cut. -/
theorem splitting_gains_no_cash {s s' : ω × Migrator}
    {pieces : List (Caller × Uint256)} {total : Uint256}
    (hm : MigratorReachable chain this s.1 s.2)
    (hlisted : s.2.allowedTokens _token = true)
    (hbalance : IERC20.balanceOf chain s.1 s.2.cyberCash this.1 = .ok balance)
    (hne : pieces ≠ []) (htotal : total.toNat = (amounts pieces).sum)
    (hscaled : total.toNat * s.2.cashPerWholeTokens _token < 2 ^ 256)
    (hpart : total.toNat * balance < 2 ^ 256)
    (hpieces : Piecewise chain this _token s pieces s')
    (hwhole : GoesThrough chain this sender _token total.toNat s) :
    let s₁ := migratorTx chain this sender (.migrate _token total) s
    ∃ split whole,
      s'.2.cashPaid = s.2.cashPaid + split ∧
      s₁.2.cashPaid = s.2.cashPaid + whole ∧
      (∃ rest, IERC20.balanceOf chain s'.1 s.2.cyberCash this.1 = .ok rest ∧
        rest + split = balance) ∧
      (∃ rest, IERC20.balanceOf chain s₁.1 s.2.cyberCash this.1 = .ok rest ∧
        rest + whole = balance) ∧
      split ≤ whole ∧ whole ≤ split + (pieces.length - 1) := by
  obtain ⟨p, hp⟩ : ∃ p, s.2.Prices _token p := ⟨_, hm.checked.prices hlisted⟩
  have hne' : amounts pieces ≠ [] := mt List.map_eq_nil_iff.mp hne
  rw [hp.rate] at hscaled
  -- the whole is one piece
  have hsingle : Piecewise chain this _token s [(sender, total)]
      (migratorTx chain this sender (.migrate _token total) s) := .migrate hwhole .done
  have hone := hsingle.leaves hp hbalance hscaled hpart
  have hamounts : amounts [(sender, total)] = [(amounts pieces).sum] := by
    rw [← htotal]
    rfl
  rw [htotal] at hscaled hpart
  rw [hamounts] at hone
  have hmany := hpieces.leaves hp hbalance hscaled hpart
  obtain ⟨hless, hmore⟩ := p.left_of_pieces hne' balance
  have hle : p.left balance [(amounts pieces).sum] ≤ balance := p.left_le _ _
  obtain ⟨hpaid, hrest⟩ := hone.exists_paid hle
  obtain ⟨hpaid', hrest'⟩ := hmany.exists_paid (p.left_le _ _)
  have hlength : (amounts pieces).length = pieces.length := List.length_map _
  refine ⟨_, _, hpaid', hpaid, hrest', hrest, Nat.sub_le_sub_left hless balance, ?_⟩
  show balance - p.left balance [(amounts pieces).sum] ≤ _
  omega

/-! ## A sample -/

/-- The Migrator holds what five units of the token are worth. -/
def samplePieces : Tokens × Migrator := (sampleTokens 5000000000000, sampleListed)

def sampleFirst : Tokens × Migrator :=
  migratorTx tokenChain sampleMigrator sampleUser (.migrate 30 3) samplePieces

def sampleSecond : Tokens × Migrator :=
  migratorTx tokenChain sampleMigrator sampleUser (.migrate 30 4) sampleFirst

/-- Account `12` migrates three units and then four, or all seven at once. -/
theorem sample_splitting :
    ∃ split whole,
      sampleSecond.2.cashPaid = samplePieces.2.cashPaid + split ∧
      (migratorTx tokenChain sampleMigrator sampleUser (.migrate 30 7)
        samplePieces).2.cashPaid = samplePieces.2.cashPaid + whole ∧
      split ≤ whole ∧ whole ≤ split + 1 := by
  have hone : GoesThrough tokenChain sampleMigrator sampleUser 30 (7 : Uint256).toNat
      samplePieces := .of_tokens (m := sampleListed) ⟨_, rfl⟩ (by decide)
        (by decide) (by decide) (by decide +kernel)
  have hfirst : GoesThrough tokenChain sampleMigrator sampleUser 30 (3 : Uint256).toNat
      samplePieces := .of_tokens (m := sampleListed) ⟨_, rfl⟩ (by decide)
        (by decide) (by decide) (by decide +kernel)
  have hsecond : GoesThrough tokenChain sampleMigrator sampleUser 30 (4 : Uint256).toNat
      sampleFirst := .of_tokens (m := sampleListed) (migratorTx_migrate _ _) (by decide)
        (by decide) (by decide) (by decide +kernel)
  have hpieces : Piecewise tokenChain sampleMigrator 30 samplePieces
      [(sampleUser, 3), (sampleUser, 4)] sampleSecond :=
    .migrate hfirst (.migrate hsecond .done)
  have hbalance : IERC20.balanceOf tokenChain samplePieces.1 samplePieces.2.cyberCash
      sampleMigrator.1 = .ok 5000000000000 := by decide +kernel
  have htotal : (7 : Uint256).toNat =
    (amounts [(sampleUser, 3), (sampleUser, 4)]).sum := by decide
  obtain ⟨split, whole, hsplit, hwhole, -, -, hless, hmore⟩ :=
    splitting_gains_no_cash (sampleListed_reachable _) (by decide +kernel) hbalance
      (by decide) htotal (by decide +kernel) (by decide +kernel) hpieces hone
  exact ⟨split, whole, hsplit, hwhole, hless, hmore⟩

end CyberCash
