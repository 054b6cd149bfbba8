import DefiStablecoin.Proofs.Calls

/-!
# The engine refines a lending protocol

Over standard collateral tokens, a transaction of the engine that returns is a
step, or two steps in a row, of the lending protocol on the engine's book, at the
terms of the market that it ran in.  The market itself is left alone.
-/

namespace DefiStablecoin.DSCEngine

open Solidity OpenZeppelin World Lending

/-- The steps of the lending protocol that a call stands for. -/
def Call.ops (m : Market) : Call → List (Op Address Address)
  | .depositCollateral token amount => [.deposit token amount.toNat]
  | .redeemCollateral token amount => [.withdraw token amount.toNat]
  | .mintDsc amount => [.borrow amount.toNat]
  | .burnDsc amount => [.repay amount.toNat]
  | .liquidate token user debtToCover =>
      [.liquidate user token (payout (m.price token) debtToCover.toNat) debtToCover.toNat]
  | .depositCollateralAndMintDsc token amount amountDscToMint =>
      [.deposit token amount.toNat, .borrow amountDscToMint.toNat]
  | .redeemCollateralForDsc token amount amountDscToBurn =>
      [.repay amountDscToBurn.toNat, .withdraw token amount.toNat]

variable {w w' : World} {msgSender token user : Address} {amount : UInt256}

theorem book_repaid (msgSender : Address) (howed : amount.toNat ≤ (w.s_DSCMinted user).toNat) :
    (repaid user msgSender amount w).book = w.book.repay user amount.toNat :=
  book_forgive howed

theorem book_liquidated {seized : UInt256} (msgSender : Address)
    (hcover : seized.toNat ≤ (w.s_collateralDeposited user token).toNat)
    (howed : amount.toNat ≤ (w.s_DSCMinted user).toNat) :
    (repaid user msgSender amount (((w.setStatus _ENTERED).debit user token seized).pay
      token w.this msgSender seized)).book =
        (w.book.withdraw user token seized.toNat).repay user amount.toNat := by
  have hdebit := book_debit (w := w.setStatus _ENTERED) hcover
  have hrepaid := book_repaid (w := ((w.setStatus _ENTERED).debit user token seized).pay
    token w.this msgSender seized) msgSender howed
  rw [hrepaid, book_pay, hdebit, book_setStatus]

theorem depositCollateral_refines
    (h : depositCollateral IERC20.standard msgSender token amount w = .ok ((), w')) :
    w'.market = w.market ∧
      Step w.market.terms msgSender (.deposit token amount.toNat) w.book w'.book := by
  rw [← IERC20.hooked_id, depositCollateral_eq_ok] at h
  obtain ⟨_, _, _, hfits, _, rfl, _, rfl⟩ := h
  refine ⟨rfl, ?_⟩
  have hbook := book_credit (w := w.setStatus _ENTERED) hfits
  exact hbook ▸ Step.deposit token amount.toNat

theorem redeemCollateral_refines
    (h : redeemCollateral IERC20.standard msgSender token amount w = .ok ((), w')) :
    w'.market = w.market ∧
      Step w.market.terms msgSender (.withdraw token amount.toNat) w.book w'.book := by
  rw [← IERC20.hooked_id, redeemCollateral_eq_ok] at h
  obtain ⟨_, _, hcover, _, _, rfl, _, rfl, _, hhealthy, rfl⟩ := h
  refine ⟨rfl, ?_⟩
  have hbook := book_debit (w := w.setStatus _ENTERED) hcover
  exact hbook ▸ Step.withdraw hcover (hbook ▸ hhealthy)

theorem mintDsc_refines (h : mintDsc msgSender amount w = .ok ((), w')) :
    w'.market = w.market ∧ Step w.market.terms msgSender (.borrow amount.toNat) w.book w'.book := by
  rw [mintDsc_eq_ok] at h
  obtain ⟨_, _, hfits, _, hhealthy, _, rfl⟩ := h
  refine ⟨rfl, ?_⟩
  have hbook := book_lend hfits
  exact hbook ▸ Step.borrow (hbook ▸ hhealthy)

theorem burnDsc_refines (h : burnDsc msgSender amount w = .ok ((), w')) :
    w'.market = w.market ∧ Step w.market.terms msgSender (.repay amount.toNat) w.book w'.book := by
  rw [burnDsc_eq_ok] at h
  obtain ⟨_, ⟨howed, _⟩, _, hhealthy, rfl⟩ := h
  refine ⟨rfl, ?_⟩
  have hbook := book_forgive howed
  exact hbook ▸ Step.repay howed (hbook ▸ hhealthy)

theorem liquidate_refines
    (h : liquidate IERC20.standard msgSender token user amount w = .ok ((), w')) :
    w'.market = w.market ∧
      Step w.market.terms msgSender
        (.liquidate user token (payout (w.market.price token) amount.toNat) amount.toNat)
        w.book w'.book := by
  rw [← IERC20.hooked_id, liquidate_eq_ok] at h
  obtain ⟨_, _, _, hunhealthy, _, seized, _, _, _, hseized, hcover, rfl, _, rfl, ⟨howed, _⟩, rfl,
    _, hrise, _, hcaller, rfl⟩ := h
  refine ⟨rfl, ?_⟩
  have hbook := book_liquidated msgSender hcover howed
  rw [← hseized]
  exact hbook ▸ Step.liquidate hcover howed hunhealthy (hbook ▸ hrise) (hbook ▸ hcaller)

/-- **Refinement.** A call that returns performs its steps on the book and leaves
the market as it was. -/
theorem run_refines {c : Call} (h : c.run IERC20.standard msgSender w = .ok ((), w')) :
    w'.market = w.market ∧ Steps w.market.terms msgSender (c.ops w.market) w.book w'.book := by
  cases c with
  | depositCollateral t a => exact (depositCollateral_refines h).imp_right .single
  | redeemCollateral t a => exact (redeemCollateral_refines h).imp_right .single
  | mintDsc x => exact (mintDsc_refines h).imp_right .single
  | burnDsc x => exact (burnDsc_refines h).imp_right .single
  | liquidate t v x => exact (liquidate_refines h).imp_right .single
  | depositCollateralAndMintDsc t a x =>
      obtain ⟨w₁, hdeposit, hmint⟩ := depositCollateralAndMintDsc_eq_ok.mp h
      obtain ⟨hmarket, hstep⟩ := depositCollateral_refines hdeposit
      obtain ⟨hmarket', hstep'⟩ := mintDsc_refines hmint
      rw [hmarket] at hmarket' hstep'
      exact ⟨hmarket', .cons hstep (.single hstep')⟩
  | redeemCollateralForDsc t a x =>
      obtain ⟨w₁, hburn, hredeem⟩ := redeemCollateralForDsc_eq_ok.mp h
      obtain ⟨hmarket, hstep⟩ := burnDsc_refines hburn
      obtain ⟨hmarket', hstep'⟩ := redeemCollateral_refines hredeem
      rw [hmarket] at hmarket' hstep'
      exact ⟨hmarket', .cons hstep (.single hstep')⟩

end DefiStablecoin.DSCEngine
