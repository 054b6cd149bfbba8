import DefiStablecoin.ForgeStd.StdUtils
import DefiStablecoin.System.Deployment

/-!
# The fuzzing handler

The contract of the invariant tests that calls the engine with bounded random
inputs, and the invariant that is checked between its calls.  The handler
remembers who deposited through it.  Between `vm.startPrank` and `vm.stopPrank`
the engine sees the pranked account as its caller; elsewhere it sees the handler.
-/

namespace DefiStablecoin.Fuzz

open Solidity OpenZeppelin ForgeStd

/-- The storage of `Handler`, deployed at `this`. -/
structure Handler where
  this : Address
  weth : Address
  wbtc : Address
  timesMintIsCalled : UInt256
  userWithCollateralDeposited : List Address

/-- The chain that the invariant tests run on: the handler beside the deployed system. -/
structure Campaign where
  world : World
  handler : Handler

namespace Campaign

def call {α : Type} (t : Tx World Revert α) : Tx Campaign Revert α := fun s =>
  match t s.world with
  | .ok (a, w) => .ok (a, { s with world := w })
  | .error e => .error e

theorem call_eq_ok {α : Type} {t : Tx World Revert α} {s : Campaign} {r : α × Campaign} :
    call t s = .ok r ↔ ∃ w, t s.world = .ok (r.1, w) ∧ r.2 = { s with world := w } := by
  obtain ⟨a, s'⟩ := r
  unfold call
  cases t s.world with
  | error e => simp
  | ok p => simp [Prod.ext_iff, eq_comm, and_assoc]

end Campaign

/-! ## Signed arithmetic -/

def checkedSubInt (a b : Int256) : Except Revert Int256 :=
  if -2 ^ 255 ≤ a.toInt - b.toInt ∧ a.toInt - b.toInt < 2 ^ 255 then .ok (a - b)
  else .error (.panic arithmeticPanic)

/-- Out-of-bounds access of an array. -/
def indexPanic : Nat := 0x32

namespace Handler

def MAX_DEPOSITE_SIZE : UInt256 := (BitVec.allOnes 96).setWidth 256

@[simp] theorem toNat_MAX_DEPOSITE_SIZE : MAX_DEPOSITE_SIZE.toNat = 2 ^ 96 - 1 := rfl

theorem one_le_MAX_DEPOSITE_SIZE : 1 ≤ MAX_DEPOSITE_SIZE := by decide

def constructor (this : Address) (w : World) : Except Revert Handler :=
  match DSCEngine.getCollateralTokens w with
  | weth :: wbtc :: _ => .ok ⟨this, weth, wbtc, 0, []⟩
  | _ => .error (.panic indexPanic)

def _getCollateralFromSeed (_collateralSeed : UInt256) (h : Handler) : Address :=
  if _collateralSeed % 2 = 0 then h.weth else h.wbtc

/-- `userWithCollateralDeposited[addressSeed % userWithCollateralDeposited.length]`. -/
def pickUser (addressSeed : UInt256) (user : Address) (users : List Address) : Address :=
  (user :: users).get ⟨addressSeed.toNat % (user :: users).length, Nat.mod_lt _ (Nat.succ_pos _)⟩

/-- The rest of `mintDsc`, once it has picked the account to mint for. -/
def mintFor (sender : Address) (_amount : UInt256) : Tx Campaign Revert Unit := do
  let (totalDsctMinted, totalCollateralInUsed) ←
    Campaign.call (Tx.view (DSCEngine.getAccountInformation sender))
  -- the two casts to `int256` keep the words
  let maxDscToMint ← Tx.view fun _ =>
    checkedSubInt (totalCollateralInUsed.sdiv 2) totalDsctMinted
  if maxDscToMint.toInt < 0 then
    return ()
  else
    let amount ← Tx.view fun _ => _bound _amount 0 maxDscToMint
    if amount = 0 then
      return ()
    else
      Campaign.call (DSCEngine.mintDsc sender amount)
      Tx.update fun s => do
        let timesMintIsCalled ← checkedAdd s.handler.timesMintIsCalled 1
        return { s with handler := { s.handler with timesMintIsCalled } }

def mintDsc (_amount addressSeed : UInt256) : Tx Campaign Revert Unit := do
  let users ← Tx.read fun s => s.handler.userWithCollateralDeposited
  match users with
  | [] => return ()
  | user :: users => mintFor (pickUser addressSeed user users) _amount

def depositCollateral (msgSender : Address) (_collateralSeed _amountCollateral : UInt256) :
    Tx Campaign Revert Unit := do
  let collateral ← Tx.read fun s => _getCollateralFromSeed _collateralSeed s.handler
  let amount ← Tx.view fun _ => _bound _amountCollateral 1 MAX_DEPOSITE_SIZE
  let dsce ← Tx.read fun s => s.world.this
  let _ ← Campaign.call (World.issueToken collateral msgSender amount)
  let _ ← Campaign.call (callToken collateral (ERC20.approve msgSender dsce amount))
  Campaign.call (DSCEngine.depositCollateral IERC20.standard msgSender collateral amount)
  Tx.store fun s =>
    let users := s.handler.userWithCollateralDeposited ++ [msgSender]
    { s with handler := { s.handler with userWithCollateralDeposited := users } }

def redeemCollateral (msgSender : Address) (_collateralSeed _amountCollateral : UInt256) :
    Tx Campaign Revert Unit := do
  let collateral ← Tx.read fun s => _getCollateralFromSeed _collateralSeed s.handler
  -- the getter takes the user first and the token second
  let maxCollateralToRedeem ← Tx.read fun s =>
    DSCEngine.getCollateralBalanceOfUser collateral msgSender s.world
  let amount ← Tx.view fun _ => _bound _amountCollateral 0 maxCollateralToRedeem
  if amount = 0 then
    return ()
  else
    let this ← Tx.read fun s => s.handler.this
    Campaign.call (DSCEngine.redeemCollateral IERC20.standard this collateral amount)

inductive Call where
  | mintDsc (_amount addressSeed : UInt256)
  | depositCollateral (_collateralSeed _amountCollateral : UInt256)
  | redeemCollateral (_collateralSeed _amountCollateral : UInt256)

def Call.run (msgSender : Address) : Call → Tx Campaign Revert Unit
  | .mintDsc amount seed => Handler.mintDsc amount seed
  | .depositCollateral seed amount => Handler.depositCollateral msgSender seed amount
  | .redeemCollateral seed amount => Handler.redeemCollateral msgSender seed amount

end Handler

/-! ## The invariant tests -/

/-- `setUp`: the deployment, and a handler on top of it. -/
def setUp (d : Deployment) (handler : Address) : Except Revert Campaign := do
  let world ← d.deploy
  let handler ← Handler.constructor handler world
  return ⟨world, handler⟩

def assertPanic : Nat := 0x01

def assert (p : Prop) [Decidable p] : Except Revert Unit :=
  failIf (¬p) (.panic assertPanic)

def invariant_protocolMustHaveMoreValueThanTotalSupply (weth wbtc : Address) (w : World) :
    Except Revert Unit := do
  let totalSupply := w.dsc._totalSupply
  let totalWethDeposited := (w.token weth)._balances w.this
  let totalWbtcDeposited := (w.token wbtc)._balances w.this
  let wethValue ← DSCEngine.getUsdValue weth totalWethDeposited w
  let wbtcValue ← DSCEngine.getUsdValue wbtc totalWbtcDeposited w
  let value ← checkedAdd wethValue wbtcValue
  assert (value ≥ totalSupply)

end DefiStablecoin.Fuzz
