import DefiStablecoin.Contracts.DSCEngine
import DefiStablecoin.OpenZeppelin.Events

/-!
# The events of the contracts

The functions of the stablecoin and of the engine with what they emit, at the
places where they emit it.  Neither minting nor burning emits anything at the
engine: only the stablecoin's own transfers tell of them.
-/

namespace DefiStablecoin

open Solidity OpenZeppelin LogTx

/-- The events of the system: those of `IERC20.sol`, `Ownable.sol` and `DSCEngine.sol`. -/
inductive Event where
  | erc20 (e : ERC20Event)
  | OwnershipTransferred (previousOwner newOwner : Address)
  | CollateralDeposited (user token : Address) (amount : UInt256)
  | CollateralRedeemed (redeemedFrom redeemedTo token : Address) (amount : UInt256)
  deriving DecidableEq

structure Log where
  address : Address
  event : Event
  deriving DecidableEq

/-! ## The stablecoin -/

namespace DecentralizedStableCoin.Logged

def asERC20 {α : Type} (t : LogTx ERC20Event ERC20 Revert α) :
    LogTx Event DecentralizedStableCoin Revert α :=
  zoom DecentralizedStableCoin.toERC20 (fun k d => { d with toERC20 := k }) .erc20 t

def _transferOwnership (newOwner : Address) : LogTx Event DecentralizedStableCoin Revert Unit := do
  let oldOwner ← quiet (Tx.read fun d => d._owner)
  quiet (Tx.store fun d => { d with _owner := newOwner })
  emit (.OwnershipTransferred oldOwner newOwner)

def renounceOwnership (msgSender : Address) : LogTx Event DecentralizedStableCoin Revert Unit := do
  quiet (Tx.view (onlyOwner msgSender))
  _transferOwnership 0

def transferOwnership (msgSender newOwner : Address) :
    LogTx Event DecentralizedStableCoin Revert Unit := do
  quiet (Tx.view (onlyOwner msgSender))
  quiet (Tx.view fun _ =>
    ERC20.require (newOwner ≠ 0) "Ownable: new owner is the zero address")
  _transferOwnership newOwner

def burn (msgSender : Address) (amount : UInt256) :
    LogTx Event DecentralizedStableCoin Revert Unit := do
  quiet (Tx.view (onlyOwner msgSender))
  let balance ← quiet (Tx.read fun d => d._balances msgSender)
  quiet (Tx.view fun _ =>
    failIf (amount ≤ 0) .DecentralizedStableCoin__Amount_MustBe_MoreThan_Zero)
  quiet (Tx.view fun _ =>
    failIf (amount > balance) .DecentralizedStableCoin__Burn_Amount_Exceeeds_Balance)
  asERC20 (ERC20.Logged._burn msgSender amount)

def mint (msgSender account : Address) (amount : UInt256) :
    LogTx Event DecentralizedStableCoin Revert Bool := do
  quiet (Tx.view (onlyOwner msgSender))
  quiet (Tx.view fun _ =>
    failIf (account = 0) .DecentralizedStableCoin__Mint_Must_NotBe_Zero_Address)
  quiet (Tx.view fun _ =>
    failIf (amount ≤ 0) .DecentralizedStableCoin__Amount_MustBe_MoreThan_Zero)
  asERC20 (ERC20.Logged._mint account amount)
  return true

def run (msgSender : Address) : Call → LogTx Event DecentralizedStableCoin Revert Unit
  | .erc20 c => do
      let _ ← asERC20 (ERC20.Logged.run msgSender c)
      return ()
  | .burn amount => burn msgSender amount
  | .burnFrom account amount => asERC20 (ERC20.Logged.burnFrom msgSender account amount)
  | .mint account amount => do
      let _ ← mint msgSender account amount
      return ()
  | .transferOwnership newOwner => transferOwnership msgSender newOwner
  | .renounceOwnership => renounceOwnership msgSender

end DecentralizedStableCoin.Logged

/-! ## Calls to other contracts -/

def callTokenLogged (token : Address) (f : LogTx ERC20Event ERC20 Revert Bool) :
    LogTx Log World Revert Bool :=
  zoom (fun w => w.token token) (World.setToken token) (fun e => ⟨token, .erc20 e⟩) f

def callDscLogged {α : Type} (f : LogTx Event DecentralizedStableCoin Revert α) :
    LogTx Log World Revert α := do
  let dsc ← quiet (Tx.read fun w => w.i_dsc)
  zoom World.dsc World.setDsc (Log.mk dsc) f

/-- The code behind `IERC20(_tokenCollateralAddress)`, with what it emits. -/
structure LoggedIERC20 where
  transfer : (token msgSender dst : Address) → UInt256 → LogTx Log World Revert Bool
  transferFrom : (token msgSender src dst : Address) → UInt256 → LogTx Log World Revert Bool

namespace LoggedIERC20

def standard : LoggedIERC20 where
  transfer token msgSender dst amount :=
    callTokenLogged token (ERC20.Logged.transfer msgSender dst amount)
  transferFrom token msgSender src dst amount :=
    callTokenLogged token (ERC20.Logged.transferFrom msgSender src dst amount)

end LoggedIERC20

/-! ## The engine -/

namespace DSCEngine.Logged

def nonReentrant (body : LogTx Log World Revert Unit) : LogTx Log World Revert Unit := do
  quiet _nonReentrantBefore
  body
  quiet _nonReentrantAfter

section Transactions

variable (ierc20 : LoggedIERC20)

def _redeemCollateral (tokenCollateralAddress : Address) (amountCollateral : UInt256)
    (source recipient : Address) : LogTx Log World Revert Unit := do
  quiet (Tx.update fun w => do
    let left ← checkedSub (w.s_collateralDeposited source tokenCollateralAddress) amountCollateral
    return w.setCollateral source tokenCollateralAddress left)
  let this ← quiet (Tx.read World.this)
  emit ⟨this, .CollateralRedeemed source recipient tokenCollateralAddress amountCollateral⟩
  let success ← ierc20.transfer tokenCollateralAddress this recipient amountCollateral
  quiet (Tx.revertIf (success = false) .DSCEngine__Transfer_Failed)

def _burnDsc (amountDscToBurn : UInt256) (onBehalfOf dscFrom : Address) :
    LogTx Log World Revert Unit := do
  quiet (Tx.update fun w => do
    let left ← checkedSub (w.s_DSCMinted onBehalfOf) amountDscToBurn
    return w.setMinted onBehalfOf left)
  let this ← quiet (Tx.read World.this)
  let dsc ← quiet (Tx.read fun w => w.i_dsc)
  let success ←
    callTokenLogged dsc (ERC20.Logged.transferFrom this dscFrom this amountDscToBurn)
  quiet (Tx.revertIf (success = false) .DSCEngine__Transfer_Failed)
  callDscLogged (DecentralizedStableCoin.Logged.burn this amountDscToBurn)

def depositCollateral (msgSender tokenCollateralAddress : Address)
    (amountCollateral : UInt256) : LogTx Log World Revert Unit := do
  quiet (moreThanZero amountCollateral)
  quiet (isAllowedToken tokenCollateralAddress)
  nonReentrant do
    quiet (Tx.update fun w => do
      let credited ← checkedAdd
        (w.s_collateralDeposited msgSender tokenCollateralAddress) amountCollateral
      return w.setCollateral msgSender tokenCollateralAddress credited)
    let this ← quiet (Tx.read World.this)
    emit ⟨this, .CollateralDeposited msgSender tokenCollateralAddress amountCollateral⟩
    let success ← ierc20.transferFrom tokenCollateralAddress this msgSender this amountCollateral
    quiet (Tx.revertIf (success = false) .DSCEngine__Transfer_Failed)

def redeemCollateral (msgSender tokenCollateralAddress : Address)
    (amountCollateral : UInt256) : LogTx Log World Revert Unit := do
  quiet (moreThanZero amountCollateral)
  nonReentrant do
    _redeemCollateral ierc20 tokenCollateralAddress amountCollateral msgSender msgSender
    quiet (Tx.view (_revertIfHealthFactorIsBroken msgSender))

def mintDsc (msgSender : Address) (amountDscToMint : UInt256) : LogTx Log World Revert Unit := do
  quiet (moreThanZero amountDscToMint)
  nonReentrant do
    quiet (Tx.update fun w => do
      let minted ← checkedAdd (w.s_DSCMinted msgSender) amountDscToMint
      return w.setMinted msgSender minted)
    quiet (Tx.view (_revertIfHealthFactorIsBroken msgSender))
    let this ← quiet (Tx.read World.this)
    let minted ← callDscLogged (DecentralizedStableCoin.Logged.mint this msgSender amountDscToMint)
    quiet (Tx.revertIf (minted = false) .DSCEngine__Mint_Failed)

def burnDsc (msgSender : Address) (amountDscToBurn : UInt256) : LogTx Log World Revert Unit := do
  quiet (moreThanZero amountDscToBurn)
  _burnDsc amountDscToBurn msgSender msgSender
  quiet (Tx.view (_revertIfHealthFactorIsBroken msgSender))

def depositCollateralAndMintDsc (msgSender tokenCollateralAddress : Address)
    (amountCollateral amountDscToMint : UInt256) : LogTx Log World Revert Unit := do
  depositCollateral ierc20 msgSender tokenCollateralAddress amountCollateral
  mintDsc msgSender amountDscToMint

def redeemCollateralForDsc (msgSender tokenCollateralAddress : Address)
    (amountCollateral amountDscToBurn : UInt256) : LogTx Log World Revert Unit := do
  burnDsc msgSender amountDscToBurn
  redeemCollateral ierc20 msgSender tokenCollateralAddress amountCollateral

def liquidate (msgSender tokenCollateralAddress user : Address) (debtToCover : UInt256) :
    LogTx Log World Revert Unit := do
  quiet (moreThanZero debtToCover)
  nonReentrant do
    let startingUserHealthFactor ← quiet (Tx.view (_healthFactor user))
    quiet (Tx.revertIf (startingUserHealthFactor ≥ MIN_HEALTH_FACTOR) .DSCEngine__Health_Factor_OK)
    let tokenCollateralAmountEqualDebtCovered ←
      quiet (Tx.view (getTokenAmountFromUsd tokenCollateralAddress debtToCover))
    let scaledBonus ← quiet (Tx.view fun _ =>
      checkedMul tokenCollateralAmountEqualDebtCovered LIQUIDATION_BONUS)
    let bonusCollateral ← quiet (Tx.view fun _ => checkedDiv scaledBonus LIQUIDATION_PRECISION)
    let totalCollateralToRedeem ← quiet (Tx.view fun _ =>
      checkedAdd tokenCollateralAmountEqualDebtCovered bonusCollateral)
    _redeemCollateral ierc20 tokenCollateralAddress totalCollateralToRedeem user msgSender
    _burnDsc debtToCover user msgSender
    let endingUserHealthFactor ← quiet (Tx.view (_healthFactor user))
    quiet (Tx.revertIf (endingUserHealthFactor ≤ startingUserHealthFactor)
      .DSCEngine__Health_Factor_Not_Improved)
    quiet (Tx.view (_revertIfHealthFactorIsBroken msgSender))

def run (msgSender : Address) : Call → LogTx Log World Revert Unit
  | .depositCollateral token amount => depositCollateral ierc20 msgSender token amount
  | .redeemCollateral token amount => redeemCollateral ierc20 msgSender token amount
  | .mintDsc amount => mintDsc msgSender amount
  | .burnDsc amount => burnDsc msgSender amount
  | .liquidate token user debtToCover => liquidate ierc20 msgSender token user debtToCover
  | .depositCollateralAndMintDsc token amount amountDscToMint =>
      depositCollateralAndMintDsc ierc20 msgSender token amount amountDscToMint
  | .redeemCollateralForDsc token amount amountDscToBurn =>
      redeemCollateralForDsc ierc20 msgSender token amount amountDscToBurn

end Transactions

end DSCEngine.Logged

end DefiStablecoin
