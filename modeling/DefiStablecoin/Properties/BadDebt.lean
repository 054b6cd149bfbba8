import DefiStablecoin.Proofs.Refinement
import DefiStablecoin.System.Deployment

/-!
# Liquidations and bad debt

A liquidation is let through when it raises the floored health factor of its
target.  That alone is enough, whatever is rounded on the way: a position that
covers its debt still does, and the shortfall of one that does not never grows.
-/

namespace DefiStablecoin

/-! ## Comparing floored health factors -/

/-- A rise of the floored health factor is a rise of the ratio of half the value to the debt. -/
theorem half_mul_lt_of_healthFactor_lt {debt value debt' value' : ℕ} (hdebt : debt ≠ 0)
    (hdebt' : debt' ≠ 0) (hrise : healthFactor debt value < healthFactor debt' value') :
    value / 2 * debt' < value' / 2 * debt := by
  simp only [healthFactor, hdebt, hdebt', if_false, half_eq] at hrise
  by_contra hcross
  have hle : value' / 2 * debt ≤ value / 2 * debt' := not_lt.mp hcross
  have hfloor : value' / 2 * 10 ^ 18 / debt' * debt' ≤ value' / 2 * 10 ^ 18 :=
    Nat.div_mul_le_self _ _
  have hscaled : value' / 2 * 10 ^ 18 / debt' * debt * debt' ≤ value / 2 * 10 ^ 18 * debt' :=
    calc value' / 2 * 10 ^ 18 / debt' * debt * debt'
        = value' / 2 * 10 ^ 18 / debt' * debt' * debt := Nat.mul_right_comm ..
      _ ≤ value' / 2 * 10 ^ 18 * debt := Nat.mul_le_mul_right _ hfloor
      _ = value' / 2 * debt * 10 ^ 18 := Nat.mul_right_comm ..
      _ ≤ value / 2 * debt' * 10 ^ 18 := Nat.mul_le_mul_right _ hle
      _ = value / 2 * 10 ^ 18 * debt' := Nat.mul_right_comm ..
  have hback : value' / 2 * 10 ^ 18 / debt' ≤ value / 2 * 10 ^ 18 / debt := by
    rw [Nat.le_div_iff_mul_le (Nat.pos_of_ne_zero hdebt)]
    exact Nat.le_of_mul_le_mul_right hscaled (Nat.pos_of_ne_zero hdebt')
  omega

/-- With the ratio of half the value to the debt, cover is kept. -/
theorem debt_le_value_of_cross {debt value debt' value' : ℕ} (hle : debt' ≤ debt)
    (hcross : value / 2 * debt' < value' / 2 * debt) (hcover : debt ≤ value) :
    debt' ≤ value' := by
  by_contra hshort
  -- clear both halves by doubling: `debt - 1 ≤ 2 (value / 2)` and `2 (value' / 2) ≤ debt' - 1`
  obtain ⟨n, rfl⟩ : ∃ n, debt' = n + 1 := ⟨debt' - 1, by omega⟩
  obtain ⟨m, rfl⟩ : ∃ m, debt = m + 1 := ⟨debt - 1, by omega⟩
  have hbefore : m * (n + 1) ≤ 2 * (value / 2) * (n + 1) :=
    Nat.mul_le_mul_right _ (by omega)
  have hafter : 2 * (value' / 2) * (m + 1) ≤ n * (m + 1) := Nat.mul_le_mul_right _ (by omega)
  rw [Nat.mul_assoc] at hbefore hafter
  have hexpand : m * (n + 1) = m * n + m := Nat.mul_succ m n
  have hexpand' : n * (m + 1) = m * n + n := by rw [Nat.mul_succ, Nat.mul_comm]
  omega

/-- With the ratio of half the value to the debt, a shortfall does not grow. -/
theorem shortfall_le_of_cross {debt value debt' value' : ℕ} (hle : debt' ≤ debt)
    (hcross : value / 2 * debt' < value' / 2 * debt) (hshort : value < debt) :
    debt' + value ≤ debt + value' := by
  by_contra hgrown
  obtain ⟨paid, rfl⟩ : ∃ paid, debt = debt' + paid := ⟨debt - debt', by omega⟩
  -- the halves fall by at least half of what was paid
  have hhalves : 2 * (value' / 2) + paid ≤ 2 * (value / 2) := by omega
  have hscaled : (2 * (value' / 2) + paid) * debt' ≤ 2 * (value / 2) * debt' :=
    Nat.mul_le_mul_right _ hhalves
  have hafter : 2 * (value' / 2) * paid ≤ debt' * paid := Nat.mul_le_mul_right _ (by omega)
  rw [Nat.add_mul, Nat.mul_assoc, Nat.mul_assoc, Nat.mul_comm paid] at hscaled
  rw [Nat.mul_assoc] at hafter
  rw [Nat.mul_add] at hcross
  omega

namespace DSCEngine

open Solidity OpenZeppelin World

variable {w w' : World} {msgSender token user : Address} {debtToCover : UInt256}

/-- **A liquidation never creates or enlarges bad debt.** -/
theorem liquidate_shortfall
    (h : liquidate IERC20.standard msgSender token user debtToCover w = .ok ((), w')) :
    ∃ value value' : UInt256,
      getAccountCollateralValue user w = .ok value ∧
      getAccountCollateralValue user w' = .ok value' ∧
      ((w.s_DSCMinted user).toNat ≤ value.toNat →
        (w'.s_DSCMinted user).toNat ≤ value'.toNat) ∧
      (value.toNat < (w.s_DSCMinted user).toNat →
        ((w'.s_DSCMinted user).toNat : ℤ) - value'.toNat ≤
          (w.s_DSCMinted user).toNat - value.toNat) := by
  rw [← IERC20.hooked_id, liquidate_eq_ok] at h
  obtain ⟨_, _, hscore, hunhealthy, _, seized, _, w₂, w₃, _, _, rfl, _, hpaid, hrepay, hrepaid,
    hscore', hrise, _, _, rfl⟩ := h
  obtain ⟨value, hreturns, hvalue⟩ := exists_collateralValue hscore.1
  obtain ⟨value', hreturns', hafter⟩ :=
    exists_collateralValue (w := w₃.setStatus _NOT_ENTERED) hscore'.1
  have hvalue' : value'.toNat = w₃.collateralValue user := hafter
  have hfall : (w₃.s_DSCMinted user).toNat ≤ (w.s_DSCMinted user).toNat := by
    have howed : w₂.s_DSCMinted user = w.s_DSCMinted user := by
      rw [hpaid]
      rfl
    rw [hrepaid, debt_repaid_self hrepay.1, howed]
    exact Nat.sub_le _ _
  have hdebt : (w.s_DSCMinted user).toNat ≠ 0 := by
    intro hzero
    rw [healthy_iff, hzero] at hunhealthy
    exact hunhealthy (Nat.zero_le _)
  rw [healthFactorOf_eq, healthFactorOf_eq] at hrise
  refine ⟨value, value', hreturns, hreturns', ?_⟩
  change (_ → (w₃.s_DSCMinted user).toNat ≤ _) ∧
    (_ → ((w₃.s_DSCMinted user).toNat : ℤ) - _ ≤ _)
  rw [hvalue, hvalue']
  by_cases hcleared : (w₃.s_DSCMinted user).toNat = 0
  · rw [hcleared]
    exact ⟨fun _ => Nat.zero_le _, fun hshort => by omega⟩
  have hcross := half_mul_lt_of_healthFactor_lt hdebt hcleared hrise
  refine ⟨debt_le_value_of_cross hfall hcross, fun hshort => ?_⟩
  have hgap := shortfall_le_of_cross hfall hcross hshort
  omega

/-- At $1500 half of a debt of $10000 is covered, and the rest stays covered. -/
theorem liquidate_shortfall_crash :
    let w := Deployment.anvil.run (Deployment.crash (1500 * 10 ^ 8))
    let w' := Tx.attempt (liquidate IERC20.standard Deployment.liquidator Deployment.weth
      Deployment.USER (5000 * 10 ^ 18)) w
    ∃ value', getAccountCollateralValue Deployment.USER w' = .ok value' ∧
      (w'.s_DSCMinted Deployment.USER).toNat ≤ value'.toNat := by
  intro w w'
  have hreturns : Tx.Returns (liquidate IERC20.standard Deployment.liquidator Deployment.weth
      Deployment.USER (5000 * 10 ^ 18)) w := by decide +kernel
  have hbefore : getAccountCollateralValue Deployment.USER w = .ok (15000 * 10 ^ 18) := by
    decide +kernel
  obtain ⟨value, value', hvalue, hvalue', hcovered, _⟩ := liquidate_shortfall hreturns.eq_ok
  obtain rfl : 15000 * 10 ^ 18 = value := Except.ok.inj (hbefore.symm.trans hvalue)
  exact ⟨value', hvalue', hcovered (by decide +kernel)⟩

end DSCEngine

end DefiStablecoin
