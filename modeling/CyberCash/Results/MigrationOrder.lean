import CyberCash.Results.Offers

/-!
# First come, first served

Migrations of many tokens by many callers, one after the other. Who comes late
may find the stock of CASH short, but what all of them are paid together is what
their offers are worth at the listed ratios, or the whole stock: it depends
neither on the order nor on which of them was capped or rejected.
-/

namespace CyberCash

variable {ω : Type} {chain : Chain ω} {this : Caller} {balance : ℕ}

/-- **First come, first served.** All offers together are paid what they are
worth at the listed ratios, or the whole stock, in any order. -/
theorem migrations_paid_in_any_order {offers : List Offer} {s s' : ω × Migrator}
    (hm : MigratorReachable chain this s.1 s.2)
    (hbalance : IERC20.balanceOf chain s.1 s.2.cyberCash this.1 = .ok balance)
    (hlisted : ∀ o ∈ offers, s.2.allowedTokens o.token = true)
    (hscaled : ∀ o ∈ offers,
      o.amount.toNat * s.2.cashPerWholeTokens o.token < 2 ^ 256)
    (hpart : ∀ o ∈ offers, o.amount.toNat * balance < 2 ^ 256)
    (hserved : Served chain this s offers s') :
    let paid := min balance (offers.map s.2.worth).sum
    s'.2.cashPaid = s.2.cashPaid + paid ∧
    (∃ rest, IERC20.balanceOf chain s'.1 s.2.cyberCash this.1 = .ok rest ∧
      rest + paid = balance) ∧
    ∀ offers' s'', offers'.Perm offers → Served chain this s offers' s'' →
      s''.2.cashPaid = s'.2.cashPaid := by
  have hfits : ∀ o ∈ offers, o.Fits s.2 balance := fun o ho =>
    ⟨⟨_, hm.checked.prices (hlisted o ho)⟩, hscaled o ho, hpart o ho⟩
  have hleaves := hserved.leaves hbalance hfits
  have hpaid := hleaves.paid
  refine ⟨by omega, ⟨_, hleaves.cash, by omega⟩, ?_⟩
  intro offers' s'' hperm hserved'
  have hleaves' := hserved'.leaves hbalance fun o ho => hfits o (hperm.mem_iff.mp ho)
  have hpaid' := hleaves'.paid
  rw [(hperm.map s.2.worth).sum_eq] at hpaid'
  omega

/-! ## A sample -/

/-- A second token, of eight decimals, worth two CASH. -/
def sampleMarket : Migrator := sampleListed.listing 31 2000000000000000000 8

theorem sampleMarket_reachable (w : Tokens) :
    MigratorReachable tokenChain sampleMigrator w sampleMarket := by
  obtain ⟨steps, hrun⟩ := sampleListed_run tokenChain (fun _ (_ : Unit) _ => True) w
  have hlist : MigratorNext tokenChain sampleMigrator (fun _ (_ : Unit) _ => True)
      (w, sampleListed)
      (.call sampleOwner (.addTokenMigration 31 2000000000000000000 8))
      (w, sampleMarket) := ⟨by decide, rfl⟩
  exact ⟨sampleOwner.1, w, _, hrun.append (.cons (Nat.le_refl 0) hlist .nil)⟩

/-- Three units of the one token, two hundred of the other. -/
def sampleOffers : List Offer := [⟨sampleUser, 30, 3⟩, ⟨sampleUser, 31, 200⟩]

def sampleStall : Tokens × Migrator := (sampleTokens 5000000000000, sampleMarket)

def serve (s : Tokens × Migrator) (o : Offer) : Tokens × Migrator :=
  migratorTx tokenChain sampleMigrator o.sender (.migrate o.token o.amount) s

/-- The stock covers the first offer and part of the second, whichever is first. -/
theorem sample_migration_order :
    (sampleOffers.foldl serve sampleStall).2.cashPaid =
      (sampleOffers.reverse.foldl serve sampleStall).2.cashPaid := by
  have hserved (x y : Offer) (hx : x.sender ≠ sampleMigrator) (hy : y.sender ≠ sampleMigrator)
      (hok : (migratorStep tokenChain sampleMigrator x.sender (.migrate x.token x.amount)
        sampleStall).isOk = true)
      (hok' : (migratorStep tokenChain sampleMigrator y.sender (.migrate y.token y.amount)
        (serve sampleStall x)).isOk = true) :
      Served tokenChain sampleMigrator sampleStall [x, y] ([x, y].foldl serve sampleStall) :=
    .migrate (.of_tokens (m := sampleMarket) ⟨_, rfl⟩ (by decide) (by decide) hx hok)
      (.migrate (.of_tokens (m := sampleMarket) (migratorTx_migrate _ _) (by decide)
        (by decide) hy hok') .done)
  have hforth := hserved ⟨sampleUser, 30, 3⟩ ⟨sampleUser, 31, 200⟩ (by decide) (by decide)
    (by decide +kernel) (by decide +kernel)
  have hback := hserved ⟨sampleUser, 31, 200⟩ ⟨sampleUser, 30, 3⟩ (by decide) (by decide)
    (by decide +kernel) (by decide +kernel)
  have hbalance : IERC20.balanceOf tokenChain sampleStall.1 sampleStall.2.cyberCash
      sampleMigrator.1 = .ok 5000000000000 := by decide +kernel
  have hpaid := migrations_paid_in_any_order (sampleMarket_reachable _) hbalance
    (by decide +kernel) (by decide +kernel) (by decide) hforth
  exact (hpaid.2.2 _ _ (List.reverse_perm sampleOffers) hback).symm

end CyberCash
