import DefiStablecoin.System.Invariants

/-!
# The minting limit

The health check of `mintDsc` compares a floored ratio of a floored half with
its minimum.  It nevertheless admits exactly the debts up to half of the
collateral value, so a mint can be cut into any slices without changing what is
admitted or where it ends.
-/

namespace DefiStablecoin

open Solidity OpenZeppelin World

namespace DSCEngine

def mintDscs (msgSender : Address) : List UInt256 → Tx World Revert Unit
  | [] => pure ()
  | amountDscToMint :: rest => do
      mintDsc msgSender amountDscToMint
      mintDscs msgSender rest

variable {w w' : World} {msgSender : Address} {amount : UInt256} {amounts : List UInt256}

theorem mintDscs_nil_eq_ok : mintDscs msgSender [] w = .ok ((), w') ↔ w' = w := by
  simp only [mintDscs, Tx.pure_eq_ok, Prod.mk.injEq, true_and]

theorem mintDscs_cons_eq_ok :
    mintDscs msgSender (amount :: amounts) w = .ok ((), w') ↔
      ∃ w₁, mintDsc msgSender amount w = .ok ((), w₁) ∧
        mintDscs msgSender amounts w₁ = .ok ((), w') := by
  simp only [mintDscs, Tx.bind_eq_ok]
  exact ⟨fun ⟨_, w₁, h⟩ => ⟨w₁, h⟩, fun ⟨w₁, h⟩ => ⟨(), w₁, h⟩⟩

end DSCEngine

namespace Deployment

open DSCEngine

variable {d : Deployment} {w w' : World} {user : Address} {amount : UInt256}
  {amounts : List UInt256}

/-! ## What a mint leaves -/

theorem minted_zero : minted user 0 w = w := by
  simp [minted, lend, issue, setMinted, setToken, ERC20.issue]

theorem minted_minted (x y : UInt256) :
    minted user y (minted user x w) = minted user (x + y) w := by
  simp [minted, lend, issue, setMinted, setToken, ERC20.issue, BitVec.add_assoc]

theorem debt_minted (hfits : (w.s_DSCMinted user).toNat + amount.toNat < 2 ^ 256) :
    ((minted user amount w).s_DSCMinted user).toNat =
      (w.s_DSCMinted user).toNat + amount.toNat := by
  simp [minted, lend, issue, BitVec.toNat_add_of_lt hfits]

theorem toNat_sum (h : (amounts.map BitVec.toNat).sum < 2 ^ 256) :
    amounts.sum.toNat = (amounts.map BitVec.toNat).sum := by
  induction amounts with
  | nil => rfl
  | cons amount amounts ih =>
      simp only [List.map_cons, List.sum_cons] at h ⊢
      have hrest := ih (by omega)
      rw [BitVec.toNat_add_of_lt (by omega), hrest]

/-! ## When a mint returns -/

/-- The user's collateral can be valued, and its half scaled, whatever the user owes. -/
structure CanMint (user : Address) (w : World) : Prop where
  valued : w.market.Valued (w.book.collateral user)
  fits : w.collateralValue user / 2 * 10 ^ 18 < 2 ^ 256
  zero : user = 0 → w.collateralValue user = 0

theorem CanMint.minted (h : CanMint user w) (amount : UInt256) :
    CanMint user (minted user amount w) := ⟨h.valued, h.fits, h.zero⟩

theorem mintDsc_returns_iff (h : d.Sound w) (hcan : CanMint user w)
    (hsupply : w.supply + amount.toNat < 2 ^ 256) :
    mintDsc user amount w = .ok ((), w') ↔
      0 < amount.toNat ∧ (w.s_DSCMinted user).toNat + amount.toNat ≤ w.collateralValue user / 2 ∧
        w' = minted user amount w := by
  rw [mintDsc_open_eq_ok h.status_eq]
  constructor
  · rintro ⟨hpos, hfits, _, hhealthy, _, rfl⟩
    rw [healthy_iff, debt_minted hfits] at hhealthy
    have howes : 2 * ((w.s_DSCMinted user).toNat + amount.toNat) ≤ w.collateralValue user :=
      hhealthy
    exact ⟨toNat_pos_of_ne_zero hpos, by omega, rfl⟩
  · rintro ⟨hpos, hlimit, rfl⟩
    have hne := ne_zero_of_toNat_pos hpos
    have hvalue : w.collateralValue user < 2 ^ 256 := hcan.valued.2
    have hfits : (w.s_DSCMinted user).toNat + amount.toNat < 2 ^ 256 := by omega
    have hscaled : w.collateralValue user / 2 * 10 ^ 18 < 2 ^ 256 := hcan.fits
    have hweighted : w.collateralValue user * 50 < 2 ^ 256 := by omega
    have hhealthy : (minted user amount w).Healthy user := by
      rw [healthy_iff, debt_minted hfits]
      have howes : 2 * ((w.s_DSCMinted user).toNat + amount.toNat) ≤ w.collateralValue user := by
        omega
      exact howes
    have huser : user ≠ 0 := by
      intro hzero
      have hnone := hcan.zero hzero
      omega
    exact ⟨hne, hfits, ⟨hcan.valued, fun _ => ⟨hweighted, hscaled⟩⟩, hhealthy,
      ⟨h.owner_this, huser, hne, hsupply⟩, rfl⟩

/-- A row of mints returns exactly when none is empty and their sum keeps the debt
within half of the value, and it leaves what one mint of the sum leaves. -/
theorem mintDscs_eq_ok_iff (h : d.Sound w) (hcan : CanMint user w)
    (hsupply : w.supply + (amounts.map BitVec.toNat).sum < 2 ^ 256) :
    mintDscs user amounts w = .ok ((), w') ↔
      (∀ a ∈ amounts, 0 < a.toNat) ∧
        (amounts ≠ [] → (w.s_DSCMinted user).toNat + (amounts.map BitVec.toNat).sum ≤
          w.collateralValue user / 2) ∧
        w' = minted user amounts.sum w := by
  induction amounts generalizing w with
  | nil =>
      have hnone : minted user ([] : List UInt256).sum w = w := minted_zero
      rw [mintDscs_nil_eq_ok, hnone]
      simp
  | cons amount amounts ih =>
      simp only [List.map_cons, List.sum_cons] at hsupply ⊢
      rw [mintDscs_cons_eq_ok, List.forall_mem_cons]
      have hfirst : w.supply + amount.toNat < 2 ^ 256 := by omega
      have hvalue : w.collateralValue user < 2 ^ 256 := hcan.valued.2
      have hlist : amounts = [] → (amounts.map BitVec.toNat).sum = 0 := by
        rintro rfl
        rfl
      -- the rest starts from what the first mint leaves
      have hrest : mintDsc user amount w = .ok ((), minted user amount w) →
          (mintDscs user amounts (minted user amount w) = .ok ((), w') ↔ _) := fun hok =>
        ih (h.moves (mintDsc_moves h.status_eq hok)) (hcan.minted amount) (by
          rw [supply_minted user hfirst]
          omega)
      constructor
      · rintro ⟨w₁, hok, hmints⟩
        obtain ⟨hpos, hlimit, rfl⟩ := (mintDsc_returns_iff h hcan hfirst).mp hok
        obtain ⟨hall, hsum, rfl⟩ := (hrest hok).mp hmints
        refine ⟨⟨hpos, hall⟩, fun _ => ?_, minted_minted _ _⟩
        by_cases hempty : amounts = []
        · rw [hlist hempty, Nat.add_zero]
          exact hlimit
        · have hbound := hsum hempty
          rw [debt_minted (by omega), Nat.add_assoc] at hbound
          exact hbound
      · rintro ⟨⟨hpos, hall⟩, hsum, rfl⟩
        have hlimit := hsum (List.cons_ne_nil _ _)
        have hok : mintDsc user amount w = .ok ((), minted user amount w) :=
          (mintDsc_returns_iff h hcan hfirst).mpr ⟨hpos, by omega, rfl⟩
        refine ⟨_, hok, (hrest hok).mpr ⟨hall, fun _ => ?_, (minted_minted _ _).symm⟩⟩
        rw [debt_minted (by omega), Nat.add_assoc]
        exact hlimit

/-- **The minting limit is exact, and slicing a mint changes nothing.** -/
theorem mintDscs_returns_iff (d : Deployment) (actions : List (Action d)) (user : Address)
    (amounts : List UInt256) (value : UInt256) (hne : amounts ≠ [])
    (hvalue : getAccountCollateralValue user (d.run actions) = .ok value)
    (hfits : value.toNat / 2 * 10 ^ 18 < 2 ^ 256)
    (hsupply : (d.run actions).supply + (amounts.map BitVec.toNat).sum < 2 ^ 256) :
    ((∃ w', mintDscs user amounts (d.run actions) = .ok ((), w')) ↔
      (∀ a ∈ amounts, 0 < a.toNat) ∧
        ((d.run actions).s_DSCMinted user).toNat + (amounts.map BitVec.toNat).sum ≤
          value.toNat / 2) ∧
    ∀ w', mintDscs user amounts (d.run actions) = .ok ((), w') →
      mintDsc user amounts.sum (d.run actions) = .ok ((), w') := by
  have hsound := d.sound_run actions
  obtain ⟨hvalued, heq⟩ := getAccountCollateralValue_eq_ok.mp hvalue
  rw [heq] at hfits ⊢
  have hzero : user = 0 → (d.run actions).collateralValue user = 0 := by
    rintro rfl
    have hnothing : (d.run actions).book.collateral 0 = fun _ => 0 := by
      funext t
      exact toNat_eq_zero.mpr (d.zero_deposited_run actions t)
    unfold collateralValue
    rw [hnothing, Lending.Terms.value_zero]
  have hcan : CanMint user (d.run actions) := ⟨hvalued, hfits, hzero⟩
  have hiff : ∀ w', mintDscs user amounts (d.run actions) = .ok ((), w') ↔ _ :=
    fun _ => mintDscs_eq_ok_iff hsound hcan hsupply
  constructor
  · constructor
    · rintro ⟨w', hok⟩
      obtain ⟨hall, hlimit, _⟩ := (hiff w').mp hok
      exact ⟨hall, hlimit hne⟩
    · rintro ⟨hall, hlimit⟩
      exact ⟨_, (hiff _).mpr ⟨hall, fun _ => hlimit, rfl⟩⟩
  · intro w' hok
    obtain ⟨hall, hlimit, rfl⟩ := (hiff w').mp hok
    have hsum := toNat_sum (show (amounts.map BitVec.toNat).sum < 2 ^ 256 by omega)
    have hpos : 0 < (amounts.map BitVec.toNat).sum := by
      obtain ⟨amount, rest, rfl⟩ := List.exists_cons_of_ne_nil hne
      have hhead := hall amount (List.mem_cons_self ..)
      rw [List.map_cons, List.sum_cons]
      omega
    rw [← hsum] at hlimit hpos hsupply
    exact (mintDsc_returns_iff hsound hcan hsupply).mpr ⟨hpos, hlimit hne, rfl⟩

/-- A deposit worth $20000 carries slices up to a debt of $10000, and not one unit more. -/
theorem mintDscs_returns_iff_slices :
    let w := anvil.run (openPosition USER (10 * 10 ^ 18) (1000 * 10 ^ 18))
    (∃ w', mintDscs USER [4000 * 10 ^ 18, 5000 * 10 ^ 18] w = .ok ((), w')) ∧
      ¬∃ w', mintDscs USER [4000 * 10 ^ 18, 5000 * 10 ^ 18 + 1] w = .ok ((), w') := by
  intro w
  have hvalue : getAccountCollateralValue USER w = .ok (20000 * 10 ^ 18) := by decide +kernel
  have hfits : (20000 * 10 ^ 18 : UInt256).toNat / 2 * 10 ^ 18 < 2 ^ 256 := by decide +kernel
  constructor
  · apply (mintDscs_returns_iff anvil (openPosition USER (10 * 10 ^ 18) (1000 * 10 ^ 18)) USER
      [4000 * 10 ^ 18, 5000 * 10 ^ 18] (20000 * 10 ^ 18) (List.cons_ne_nil _ _) hvalue hfits
      (by decide +kernel)).1.mpr
    simp only [List.forall_mem_cons, List.not_mem_nil, false_implies, implies_true, and_true]
    decide +kernel
  · intro hmints
    have hlimit := ((mintDscs_returns_iff anvil (openPosition USER (10 * 10 ^ 18)
      (1000 * 10 ^ 18)) USER [4000 * 10 ^ 18, 5000 * 10 ^ 18 + 1] (20000 * 10 ^ 18)
      (List.cons_ne_nil _ _) hvalue hfits (by decide +kernel)).1.mp hmints).2
    exact absurd hlimit (by decide +kernel)

end Deployment

end DefiStablecoin
