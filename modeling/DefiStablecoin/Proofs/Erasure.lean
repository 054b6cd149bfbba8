import DefiStablecoin.Contracts.Events

/-!
# Events change nothing

Every function of the contracts, run with its events, computes what it computes
without them: the same world, the same result and, where it fails, the same error.
-/

namespace DefiStablecoin

open Solidity OpenZeppelin LogTx

/-! ## The stablecoin -/

namespace DecentralizedStableCoin.Logged

theorem asERC20_erases {t : LogTx ERC20Event ERC20 Revert Unit} {f : ERC20 → Except Revert ERC20}
    (ht : Erases t (Tx.update f)) :
    Erases (asERC20 t) (Tx.update fun d => do
      let k ← f d.toERC20
      return { d with toERC20 := k }) := by
  refine ht.zoom fun d => ?_
  unfold Tx.update
  dsimp only
  cases f d.toERC20 <;> rfl

theorem _transferOwnership_erases (newOwner : Address) :
    Erases (_transferOwnership newOwner) (Tx.update fun d => .ok { d with _owner := newOwner }) :=
  fun _ _ => rfl

theorem renounceOwnership_erases (msgSender : Address) :
    Erases (renounceOwnership msgSender)
      (Tx.update (DecentralizedStableCoin.renounceOwnership msgSender)) :=
  .view_update fun _ => _transferOwnership_erases 0

theorem transferOwnership_erases (msgSender newOwner : Address) :
    Erases (transferOwnership msgSender newOwner)
      (Tx.update (DecentralizedStableCoin.transferOwnership msgSender newOwner)) :=
  .view_update fun _ => .view_update fun _ => _transferOwnership_erases newOwner

theorem burn_erases (msgSender : Address) (amount : UInt256) :
    Erases (burn msgSender amount) (Tx.update (DecentralizedStableCoin.burn msgSender amount)) :=
  .view_update fun _ => .read_update fun _ => .view_update fun _ => .view_update fun _ =>
    asERC20_erases (ERC20.Logged._burn_erases msgSender amount)

theorem mint_erases (msgSender account : Address) (amount : UInt256) :
    Erases (mint msgSender account amount)
      (DecentralizedStableCoin.mint msgSender account amount) := by
  refine .view_bind fun _ => .view_bind fun _ => .view_bind fun _ => ?_
  intro d log
  rw [(asERC20_erases (ERC20.Logged._mint_erases account amount)).update_bind (.pure true) d log]
  dsimp only
  cases ERC20._mint (ε := Revert) account amount d.toERC20 <;> rfl

theorem run_erases (msgSender : Address) (c : Call) :
    Erases (run msgSender c) (Tx.update (c.run msgSender)) := by
  cases c with
  | erc20 call =>
      have hrun : Erases (asERC20 (ERC20.Logged.run msgSender call)) fun d =>
          (call.run msgSender d.toERC20).map fun r => (r.1, { d with toERC20 := r.2 }) :=
        (ERC20.Logged.run_erases msgSender call).zoom fun _ => rfl
      have hcall := hrun.discard
      intro d log
      refine (hcall d log).trans ?_
      unfold Tx.update Call.run
      dsimp only
      cases call.run (ε := Revert) msgSender d.toERC20 <;> rfl
  | burn amount => exact burn_erases msgSender amount
  | burnFrom account amount =>
      exact asERC20_erases (ERC20.Logged.burnFrom_erases msgSender account amount)
  | mint account amount => exact (mint_erases msgSender account amount).discard
  | transferOwnership newOwner => exact transferOwnership_erases msgSender newOwner
  | renounceOwnership => exact renounceOwnership_erases msgSender

end DecentralizedStableCoin.Logged

/-! ## Calls to other contracts -/

theorem callTokenLogged_erases {token : Address} {t : LogTx ERC20Event ERC20 Revert Bool}
    {f : ERC20 → Except Revert (Bool × ERC20)} (ht : Erases t f) :
    Erases (callTokenLogged token t) (callToken token f) := by
  refine ht.zoom fun w => ?_
  unfold callToken
  cases f (w.token token) <;> rfl

theorem callDscLogged_erases {t : LogTx Event DecentralizedStableCoin Revert Unit}
    {f : DecentralizedStableCoin → Except Revert DecentralizedStableCoin}
    (ht : Erases t (Tx.update f)) : Erases (callDscLogged t) (callDsc f) := by
  have hcall : Erases (callDscLogged t) (Tx.read (fun w => w.i_dsc) >>= fun _ => callDsc f) := by
    refine .bind .quiet fun dsc => ht.zoom fun w => ?_
    unfold callDsc Tx.update
    cases f w.dsc <;> rfl
  exact hcall

theorem callDscLogged_erases_returning {t : LogTx Event DecentralizedStableCoin Revert Bool}
    {f : DecentralizedStableCoin → Except Revert (Bool × DecentralizedStableCoin)}
    (ht : Erases t f) : Erases (callDscLogged t) (callDscReturning f) := by
  have hcall : Erases (callDscLogged t)
      (Tx.read (fun w => w.i_dsc) >>= fun _ => callDscReturning f) := by
    refine .bind .quiet fun dsc => ht.zoom fun w => ?_
    unfold callDscReturning
    cases f w.dsc <;> rfl
  exact hcall

structure LoggedIERC20.Erases (logged : LoggedIERC20) (ierc20 : IERC20) : Prop where
  transfer : ∀ token msgSender dst amount,
    LogTx.Erases (logged.transfer token msgSender dst amount)
      (ierc20.transfer token msgSender dst amount)
  transferFrom : ∀ token msgSender src dst amount,
    LogTx.Erases (logged.transferFrom token msgSender src dst amount)
      (ierc20.transferFrom token msgSender src dst amount)

theorem LoggedIERC20.standard_erases : LoggedIERC20.standard.Erases IERC20.standard where
  transfer _ msgSender dst amount :=
    callTokenLogged_erases (ERC20.Logged.transfer_erases msgSender dst amount)
  transferFrom _ msgSender src dst amount :=
    callTokenLogged_erases (ERC20.Logged.transferFrom_erases msgSender src dst amount)

/-! ## The engine -/

namespace DSCEngine.Logged

theorem nonReentrant_erases {body : LogTx Log World Revert Unit} {x : Tx World Revert Unit}
    (h : Erases body x) : Erases (nonReentrant body) (DSCEngine.nonReentrant x) :=
  .bind .quiet fun _ => .bind h fun _ => .quiet

theorem _burnDsc_erases (amount : UInt256) (onBehalfOf dscFrom : Address) :
    Erases (_burnDsc amount onBehalfOf dscFrom) (DSCEngine._burnDsc amount onBehalfOf dscFrom) :=
  .bind .quiet fun _ => .bind .quiet fun this => .bind .quiet fun _ =>
    .bind (callTokenLogged_erases (ERC20.Logged.transferFrom_erases this dscFrom this amount))
      fun _ => .bind .quiet fun _ =>
        callDscLogged_erases (DecentralizedStableCoin.Logged.burn_erases this amount)

theorem mintDsc_erases (msgSender : Address) (amount : UInt256) :
    Erases (mintDsc msgSender amount) (DSCEngine.mintDsc msgSender amount) :=
  .bind .quiet fun _ => nonReentrant_erases <|
    .bind .quiet fun _ => .bind .quiet fun _ => .bind .quiet fun this =>
      .bind (callDscLogged_erases_returning
        (DecentralizedStableCoin.Logged.mint_erases this msgSender amount)) fun _ => .quiet

theorem burnDsc_erases (msgSender : Address) (amount : UInt256) :
    Erases (burnDsc msgSender amount) (DSCEngine.burnDsc msgSender amount) :=
  .bind .quiet fun _ => .bind (_burnDsc_erases amount msgSender msgSender) fun _ => .quiet

section Transactions

variable {logged : LoggedIERC20} {ierc20 : IERC20} (hcode : logged.Erases ierc20)

include hcode

theorem _redeemCollateral_erases (token source recipient : Address) (amount : UInt256) :
    Erases (_redeemCollateral logged token amount source recipient)
      (DSCEngine._redeemCollateral ierc20 token amount source recipient) :=
  .bind .quiet fun _ => .bind .quiet fun _ => .emit_bind <|
    .bind (hcode.transfer _ _ _ _) fun _ => .quiet

theorem depositCollateral_erases (msgSender token : Address) (amount : UInt256) :
    Erases (depositCollateral logged msgSender token amount)
      (DSCEngine.depositCollateral ierc20 msgSender token amount) :=
  .bind .quiet fun _ => .bind .quiet fun _ => nonReentrant_erases <|
    .bind .quiet fun _ => .bind .quiet fun _ => .emit_bind <|
      .bind (hcode.transferFrom _ _ _ _ _) fun _ => .quiet

theorem redeemCollateral_erases (msgSender token : Address) (amount : UInt256) :
    Erases (redeemCollateral logged msgSender token amount)
      (DSCEngine.redeemCollateral ierc20 msgSender token amount) :=
  .bind .quiet fun _ => nonReentrant_erases <|
    .bind (_redeemCollateral_erases hcode _ _ _ _) fun _ => .quiet

theorem liquidate_erases (msgSender token user : Address) (debtToCover : UInt256) :
    Erases (liquidate logged msgSender token user debtToCover)
      (DSCEngine.liquidate ierc20 msgSender token user debtToCover) :=
  .bind .quiet fun _ => nonReentrant_erases <|
    .bind .quiet fun _ => .bind .quiet fun _ => .bind .quiet fun _ => .bind .quiet fun _ =>
      .bind .quiet fun _ => .bind .quiet fun _ =>
        .bind (_redeemCollateral_erases hcode _ _ _ _) fun _ =>
          .bind (_burnDsc_erases _ _ _) fun _ => .bind .quiet fun _ => .bind .quiet fun _ => .quiet

/-- **The events change nothing about what a call of the engine does.** -/
theorem run_erases (msgSender : Address) (c : Call) :
    Erases (run logged msgSender c) (c.run ierc20 msgSender) := by
  cases c with
  | depositCollateral t a => exact depositCollateral_erases hcode msgSender t a
  | redeemCollateral t a => exact redeemCollateral_erases hcode msgSender t a
  | mintDsc x => exact mintDsc_erases msgSender x
  | burnDsc x => exact burnDsc_erases msgSender x
  | liquidate t u x => exact liquidate_erases hcode msgSender t u x
  | depositCollateralAndMintDsc t a x =>
      exact .bind (depositCollateral_erases hcode msgSender t a) fun _ => mintDsc_erases msgSender x
  | redeemCollateralForDsc t a x =>
      exact .bind (burnDsc_erases msgSender x) fun _ => redeemCollateral_erases hcode msgSender t a

end Transactions

end DSCEngine.Logged

end DefiStablecoin
