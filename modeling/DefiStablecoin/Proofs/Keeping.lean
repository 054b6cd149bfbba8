import DefiStablecoin.Proofs.Calls
import DefiStablecoin.Solidity.Keeps

/-!
# Invariants of the engine's transactions

Whatever code is behind the collateral tokens, a transaction of the engine changes
the world by the engine's own writes, by what it does with the stablecoin, and by
calls of that code.  An invariant that survives these survives every transaction.
-/

namespace DefiStablecoin

open Solidity OpenZeppelin

structure IERC20.Keeps (I : World → Prop) (ierc20 : IERC20) : Prop where
  transfer : ∀ token msgSender dst amount, Tx.Keeps I (ierc20.transfer token msgSender dst amount)
  transferFrom : ∀ token msgSender src dst amount,
    Tx.Keeps I (ierc20.transferFrom token msgSender src dst amount)

namespace DSCEngine

open World

/-- The invariant survives what the engine writes itself. -/
structure Survives (I : World → Prop) : Prop where
  setStatus : ∀ status w, I w → I (w.setStatus status)
  setCollateral : ∀ user token amount w, I w → I (w.setCollateral user token amount)
  mintDsc : ∀ msgSender amount, Tx.Keeps I (mintDsc msgSender amount)
  _burnDsc : ∀ amount onBehalfOf dscFrom, Tx.Keeps I (_burnDsc amount onBehalfOf dscFrom)

variable {I : World → Prop} {ierc20 : IERC20} (hI : Survives I) (hcode : ierc20.Keeps I)

include hI

theorem nonReentrant_keeps {body : Tx World Revert Unit} (hbody : Tx.Keeps I body) :
    Tx.Keeps I (nonReentrant body) := by
  unfold nonReentrant _nonReentrantBefore _nonReentrantAfter
  refine .bind (.bind .read fun _ => .bind .revertIf fun _ => ?_) fun _ => .bind hbody fun _ => ?_
  · exact .store (hI.setStatus _)
  · exact .store (hI.setStatus _)

theorem burnDsc_keeps (msgSender : Address) (amount : UInt256) :
    Tx.Keeps I (burnDsc msgSender amount) := by
  unfold burnDsc moreThanZero
  exact .bind .revertIf fun _ => .bind (hI._burnDsc _ _ _) fun _ => .view

include hcode

theorem _redeemCollateral_keeps (token source recipient : Address) (amount : UInt256) :
    Tx.Keeps I (_redeemCollateral ierc20 token amount source recipient) := by
  unfold _redeemCollateral
  refine .bind (.update fun w w' h hw => ?_) fun _ => .bind .read fun _ =>
    .bind (hcode.transfer _ _ _ _) fun _ => .revertIf
  simp only [except_bind_eq_ok, except_pure_eq_ok] at h
  obtain ⟨left, _, rfl⟩ := h
  exact hI.setCollateral _ _ _ w hw

theorem depositCollateral_keeps (msgSender token : Address) (amount : UInt256) :
    Tx.Keeps I (depositCollateral ierc20 msgSender token amount) := by
  unfold depositCollateral moreThanZero isAllowedToken
  refine .bind .revertIf fun _ => .bind (.bind .read fun _ => .revertIf) fun _ =>
    nonReentrant_keeps hI (.bind (.update fun w w' h hw => ?_) fun _ => .bind .read fun _ =>
      .bind (hcode.transferFrom _ _ _ _ _) fun _ => .revertIf)
  simp only [except_bind_eq_ok, except_pure_eq_ok] at h
  obtain ⟨credited, _, rfl⟩ := h
  exact hI.setCollateral _ _ _ w hw

theorem redeemCollateral_keeps (msgSender token : Address) (amount : UInt256) :
    Tx.Keeps I (redeemCollateral ierc20 msgSender token amount) := by
  unfold redeemCollateral moreThanZero
  exact .bind .revertIf fun _ => nonReentrant_keeps hI
    (.bind (_redeemCollateral_keeps hI hcode _ _ _ _) fun _ => .view)

/-- The payout is computed by views; then the collateral moves and the debt is burned. -/
theorem liquidate_keeps (msgSender token user : Address) (debtToCover : UInt256) :
    Tx.Keeps I (liquidate ierc20 msgSender token user debtToCover) := by
  unfold liquidate moreThanZero
  exact .bind .revertIf fun _ => nonReentrant_keeps hI
    (.bind .view fun _ => .bind .revertIf fun _ => .bind .view fun _ => .bind .view fun _ =>
      .bind .view fun _ => .bind .view fun _ =>
      .bind (_redeemCollateral_keeps hI hcode _ _ _ _) fun _ =>
      .bind (hI._burnDsc _ _ _) fun _ => .bind .view fun _ => .bind .revertIf fun _ => .view)

/-- **An invariant that survives the engine's writes and its collateral's code
survives every call.** -/
theorem run_keeps (c : Call) (msgSender : Address) : Tx.Keeps I (c.run ierc20 msgSender) := by
  cases c with
  | depositCollateral t a => exact depositCollateral_keeps hI hcode msgSender t a
  | redeemCollateral t a => exact redeemCollateral_keeps hI hcode msgSender t a
  | mintDsc x => exact hI.mintDsc msgSender x
  | burnDsc x => exact burnDsc_keeps hI msgSender x
  | liquidate t u x => exact liquidate_keeps hI hcode msgSender t u x
  | depositCollateralAndMintDsc t a x =>
      exact .bind (depositCollateral_keeps hI hcode msgSender t a) fun _ => hI.mintDsc msgSender x
  | redeemCollateralForDsc t a x =>
      exact .bind (burnDsc_keeps hI msgSender x) fun _ =>
        redeemCollateral_keeps hI hcode msgSender t a

end DSCEngine

end DefiStablecoin
