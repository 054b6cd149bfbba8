import DefiStablecoin.Contracts.OracleLib

/-!
# DSCEngine

The functions of the engine, in the order in which they need each other.  Views
read the world; the other functions are transactions that also take the
`msg.sender` they are called by and the code behind the collateral tokens.
-/

namespace DefiStablecoin.DSCEngine

open Solidity OpenZeppelin OracleLib

def ADDITIONAL_FEED_PRECISION : UInt256 := 10000000000

def PRECISION : UInt256 := 1000000000000000000

def LIQUIDATION_THRESHOLD : UInt256 := 50

def LIQUIDATION_PRECISION : UInt256 := 100

def MIN_HEALTH_FACTOR : UInt256 := 1000000000000000000

def LIQUIDATION_BONUS : UInt256 := 10

/-! ## ReentrancyGuard -/

def _NOT_ENTERED : UInt256 := 1

def _ENTERED : UInt256 := 2

def _nonReentrantBefore : Tx World Revert Unit := do
  let status ← Tx.read fun w => w._status
  Tx.revertIf (status = _ENTERED) (.error "ReentrancyGuard: reentrant call")
  Tx.store (World.setStatus _ENTERED)

def _nonReentrantAfter : Tx World Revert Unit :=
  Tx.store (World.setStatus _NOT_ENTERED)

def nonReentrant (body : Tx World Revert Unit) : Tx World Revert Unit := do
  _nonReentrantBefore
  body
  _nonReentrantAfter

/-! ## Constructor and modifiers -/

/-- The constructor's loop, over the pairs of a token and its price feed. -/
def registerTokens :
    List (Address × Address) → (Address → Address) → List Address →
      (Address → Address) × List Address
  | [], s_priceFeeds, s_collateralTokens => (s_priceFeeds, s_collateralTokens)
  | (token, priceFeed) :: rest, s_priceFeeds, s_collateralTokens =>
      registerTokens rest (Function.update s_priceFeeds token priceFeed)
        (s_collateralTokens ++ [token])

def constructor (tokenAddresses priceFeedAddresses : List Address) (dscAddress : Address) :
    Except Revert DSCEngine := do
  failIf (tokenAddresses.length ≠ priceFeedAddresses.length)
    .DSCEngine__TokenAddresses_And_PriceFeedAddresses_MustBe_Same_Length
  let (s_priceFeeds, s_collateralTokens) :=
    registerTokens (tokenAddresses.zip priceFeedAddresses) (fun _ => 0) []
  return {
    s_priceFeeds
    s_collateralDeposited := fun _ _ => 0
    s_DSCMinted := fun _ => 0
    s_collateralTokens
    i_dsc := dscAddress
    _status := _NOT_ENTERED }

def moreThanZero (amount : UInt256) : Tx World Revert Unit :=
  Tx.revertIf (amount = 0) .DSCEngine__Need_MoreThan_zero

def isAllowedToken (tokenAddress : Address) : Tx World Revert Unit := do
  let priceFeed ← Tx.read fun w => w.s_priceFeeds tokenAddress
  Tx.revertIf (priceFeed = 0) .DSCEngine__Not_Allowed_Token

/-! ## Views -/

def getUsdValue (token : Address) (amount : UInt256) (w : World) : Except Revert UInt256 := do
  let round ← staleCheckLatestRoundData (w.s_priceFeeds token) w
  -- `uint256(price)` reinterprets the word, whatever its sign
  let price ← checkedMul round.answer ADDITIONAL_FEED_PRECISION
  let scaled ← checkedMul price amount
  checkedDiv scaled PRECISION

def getTokenAmountFromUsd (tokenCollateral : Address) (usdAmountInWei : UInt256)
    (w : World) : Except Revert UInt256 := do
  let round ← staleCheckLatestRoundData (w.s_priceFeeds tokenCollateral) w
  let scaled ← checkedMul usdAmountInWei PRECISION
  let price ← checkedMul round.answer ADDITIONAL_FEED_PRECISION
  checkedDiv scaled price

/-- The loop of `getAccountCollateralValue` from a running total. -/
def addCollateralValues (user : Address) (w : World) :
    List Address → UInt256 → Except Revert UInt256
  | [], totalCollateralValueInUsd => .ok totalCollateralValueInUsd
  | token :: rest, totalCollateralValueInUsd => do
      let amount := w.s_collateralDeposited user token
      let value ← getUsdValue token amount w
      let total ← checkedAdd totalCollateralValueInUsd value
      addCollateralValues user w rest total

def getAccountCollateralValue (user : Address) (w : World) : Except Revert UInt256 :=
  addCollateralValues user w w.s_collateralTokens 0

def _getAccountInformation (user : Address) (w : World) :
    Except Revert (UInt256 × UInt256) := do
  let totalDscMinted := w.s_DSCMinted user
  let totalCollateralValueInUsd ← getAccountCollateralValue user w
  return (totalDscMinted, totalCollateralValueInUsd)

def _calculateHealthFactor (totalDscMinted collateralValueInUsd : UInt256) :
    Except Revert UInt256 :=
  if totalDscMinted = 0 then .ok maxUInt256
  else do
    let weighted ← checkedMul collateralValueInUsd LIQUIDATION_THRESHOLD
    let collateralAdjustedForThreshold ← checkedDiv weighted LIQUIDATION_PRECISION
    let scaled ← checkedMul collateralAdjustedForThreshold PRECISION
    checkedDiv scaled totalDscMinted

def _healthFactor (user : Address) (w : World) : Except Revert UInt256 := do
  let (totalDscMinted, totalCollateralValueInUsd) ← _getAccountInformation user w
  _calculateHealthFactor totalDscMinted totalCollateralValueInUsd

def getHealthFactor (user : Address) (w : World) : Except Revert UInt256 :=
  _healthFactor user w

def _revertIfHealthFactorIsBroken (user : Address) (w : World) : Except Revert Unit := do
  let userHealthFactor ← _healthFactor user w
  failIf (userHealthFactor < MIN_HEALTH_FACTOR) (.DSCEngine__Breaks_Health_Factor userHealthFactor)

def getCollateralBalanceOfUser (user token : Address) (w : World) : UInt256 :=
  w.s_collateralDeposited user token

def getAccountInformation (user : Address) (w : World) : Except Revert (UInt256 × UInt256) :=
  _getAccountInformation user w

def getCollateralTokens (w : World) : List Address := w.s_collateralTokens

/-! ## Internal transactions -/

section Transactions

variable (ierc20 : IERC20)

def _redeemCollateral (tokenCollateralAddress : Address) (amountCollateral : UInt256)
    (source recipient : Address) : Tx World Revert Unit := do
  Tx.update fun w => do
    let left ← checkedSub (w.s_collateralDeposited source tokenCollateralAddress) amountCollateral
    return w.setCollateral source tokenCollateralAddress left
  let this ← Tx.read World.this
  let success ← ierc20.transfer tokenCollateralAddress this recipient amountCollateral
  Tx.revertIf (success = false) .DSCEngine__Transfer_Failed

def _burnDsc (amountDscToBurn : UInt256) (onBehalfOf dscFrom : Address) :
    Tx World Revert Unit := do
  Tx.update fun w => do
    let left ← checkedSub (w.s_DSCMinted onBehalfOf) amountDscToBurn
    return w.setMinted onBehalfOf left
  let this ← Tx.read World.this
  let dsc ← Tx.read fun w => w.i_dsc
  let success ← callToken dsc (ERC20.transferFrom this dscFrom this amountDscToBurn)
  Tx.revertIf (success = false) .DSCEngine__Transfer_Failed
  callDsc (DecentralizedStableCoin.burn this amountDscToBurn)

/-! ## Public and external transactions -/

def depositCollateral (msgSender tokenCollateralAddress : Address)
    (amountCollateral : UInt256) : Tx World Revert Unit := do
  moreThanZero amountCollateral
  isAllowedToken tokenCollateralAddress
  nonReentrant do
    Tx.update fun w => do
      let credited ← checkedAdd
        (w.s_collateralDeposited msgSender tokenCollateralAddress) amountCollateral
      return w.setCollateral msgSender tokenCollateralAddress credited
    let this ← Tx.read World.this
    let success ← ierc20.transferFrom tokenCollateralAddress this msgSender this amountCollateral
    Tx.revertIf (success = false) .DSCEngine__Transfer_Failed

def redeemCollateral (msgSender tokenCollateralAddress : Address)
    (amountCollateral : UInt256) : Tx World Revert Unit := do
  moreThanZero amountCollateral
  nonReentrant do
    _redeemCollateral ierc20 tokenCollateralAddress amountCollateral msgSender msgSender
    Tx.view (_revertIfHealthFactorIsBroken msgSender)

def mintDsc (msgSender : Address) (amountDscToMint : UInt256) : Tx World Revert Unit := do
  moreThanZero amountDscToMint
  nonReentrant do
    Tx.update fun w => do
      let minted ← checkedAdd (w.s_DSCMinted msgSender) amountDscToMint
      return w.setMinted msgSender minted
    Tx.view (_revertIfHealthFactorIsBroken msgSender)
    let this ← Tx.read World.this
    let minted ← callDscReturning (DecentralizedStableCoin.mint this msgSender amountDscToMint)
    Tx.revertIf (minted = false) .DSCEngine__Mint_Failed

/-- Unlike its siblings, `burnDsc` is not `nonReentrant`. -/
def burnDsc (msgSender : Address) (amountDscToBurn : UInt256) : Tx World Revert Unit := do
  moreThanZero amountDscToBurn
  _burnDsc amountDscToBurn msgSender msgSender
  Tx.view (_revertIfHealthFactorIsBroken msgSender)

def depositCollateralAndMintDsc (msgSender tokenCollateralAddress : Address)
    (amountCollateral amountDscToMint : UInt256) : Tx World Revert Unit := do
  depositCollateral ierc20 msgSender tokenCollateralAddress amountCollateral
  mintDsc msgSender amountDscToMint

def redeemCollateralForDsc (msgSender tokenCollateralAddress : Address)
    (amountCollateral amountDscToBurn : UInt256) : Tx World Revert Unit := do
  burnDsc msgSender amountDscToBurn
  redeemCollateral ierc20 msgSender tokenCollateralAddress amountCollateral

def liquidate (msgSender tokenCollateralAddress user : Address) (debtToCover : UInt256) :
    Tx World Revert Unit := do
  moreThanZero debtToCover
  nonReentrant do
    let startingUserHealthFactor ← Tx.view (_healthFactor user)
    Tx.revertIf (startingUserHealthFactor ≥ MIN_HEALTH_FACTOR) .DSCEngine__Health_Factor_OK
    let tokenCollateralAmountEqualDebtCovered ←
      Tx.view (getTokenAmountFromUsd tokenCollateralAddress debtToCover)
    let scaledBonus ← Tx.view fun _ =>
      checkedMul tokenCollateralAmountEqualDebtCovered LIQUIDATION_BONUS
    let bonusCollateral ← Tx.view fun _ => checkedDiv scaledBonus LIQUIDATION_PRECISION
    let totalCollateralToRedeem ← Tx.view fun _ =>
      checkedAdd tokenCollateralAmountEqualDebtCovered bonusCollateral
    _redeemCollateral ierc20 tokenCollateralAddress totalCollateralToRedeem user msgSender
    _burnDsc debtToCover user msgSender
    let endingUserHealthFactor ← Tx.view (_healthFactor user)
    Tx.revertIf (endingUserHealthFactor ≤ startingUserHealthFactor)
      .DSCEngine__Health_Factor_Not_Improved
    Tx.view (_revertIfHealthFactorIsBroken msgSender)

/-! ## Calls as data -/

inductive Call where
  | depositCollateral (tokenCollateralAddress : Address) (amountCollateral : UInt256)
  | redeemCollateral (tokenCollateralAddress : Address) (amountCollateral : UInt256)
  | mintDsc (amountDscToMint : UInt256)
  | burnDsc (amountDscToBurn : UInt256)
  | liquidate (tokenCollateralAddress user : Address) (debtToCover : UInt256)
  | depositCollateralAndMintDsc (tokenCollateralAddress : Address)
      (amountCollateral amountDscToMint : UInt256)
  | redeemCollateralForDsc (tokenCollateralAddress : Address)
      (amountCollateral amountDscToBurn : UInt256)

def Call.run (msgSender : Address) : Call → Tx World Revert Unit
  | .depositCollateral token amount => DSCEngine.depositCollateral ierc20 msgSender token amount
  | .redeemCollateral token amount => DSCEngine.redeemCollateral ierc20 msgSender token amount
  | .mintDsc amount => DSCEngine.mintDsc msgSender amount
  | .burnDsc amount => DSCEngine.burnDsc msgSender amount
  | .liquidate token user debtToCover =>
      DSCEngine.liquidate ierc20 msgSender token user debtToCover
  | .depositCollateralAndMintDsc token amount amountDscToMint =>
      DSCEngine.depositCollateralAndMintDsc ierc20 msgSender token amount amountDscToMint
  | .redeemCollateralForDsc token amount amountDscToBurn =>
      DSCEngine.redeemCollateralForDsc ierc20 msgSender token amount amountDscToBurn

end Transactions

end DefiStablecoin.DSCEngine
