import DefiStablecoin.Proofs.Registry
import DefiStablecoin.Proofs.Moves
import DefiStablecoin.Proofs.Outsiders
import DefiStablecoin.Proofs.Refinement
import DefiStablecoin.Solidity.Machine

/-!
# The deployed system

The system that `DeployDSC` leaves, and everything that can happen to it: calls
of the engine, of the stablecoin and of the other tokens by any account, prices
that move and time that passes.  A call that reverts changes nothing.
-/

namespace DefiStablecoin

open Solidity OpenZeppelin DSCEngine World

/-- What `DeployDSC` finds on the chain and what it is told to deploy: a list of
collateral tokens without repetitions, none of them the stablecoin. -/
structure Deployment where
  deployer : Address
  dsc : Address
  dscEngine : Address
  s_tokenAddresses : List Address
  s_priceFeedAddresses : List Address
  /-- The ERC20 contracts that exist already. -/
  token : Address → ERC20
  feed : Address → Option RoundData
  timestamp : UInt256
  same_length : s_tokenAddresses.length = s_priceFeedAddresses.length
  nodup : s_tokenAddresses.Nodup
  dsc_not_mem : dsc ∉ s_tokenAddresses
  dscEngine_ne_zero : dscEngine ≠ 0
  wellFormed : ∀ t, (token t).WellFormed
  noAllowance : ∀ t, (token t).NoAllowance dscEngine

namespace Deployment

variable (d : Deployment)

/-- The transactions of `DeployDSC.run`. -/
def deploy : Except Revert World := do
  let dsc := DecentralizedStableCoin.constructor d.deployer
  let dscEngine ←
    DSCEngine.constructor d.s_tokenAddresses d.s_priceFeedAddresses d.dsc
  let dsc ← DecentralizedStableCoin.transferOwnership d.deployer d.dscEngine dsc
  return {
    toDSCEngine := dscEngine
    this := d.dscEngine
    token := Function.update d.token d.dsc dsc.toERC20
    dscOwner := dsc._owner
    feed := d.feed
    timestamp := d.timestamp }

def genesis : World where
  s_priceFeeds := registeredFeeds d.s_tokenAddresses d.s_priceFeedAddresses
  s_collateralDeposited := fun _ _ => 0
  s_DSCMinted := fun _ => 0
  s_collateralTokens := d.s_tokenAddresses
  i_dsc := d.dsc
  _status := _NOT_ENTERED
  this := d.dscEngine
  token := Function.update d.token d.dsc ERC20.empty
  dscOwner := d.dscEngine
  feed := d.feed
  timestamp := d.timestamp

theorem deploy_eq_ok : d.deploy = .ok d.genesis := by
  have howner : DecentralizedStableCoin.transferOwnership d.deployer d.dscEngine
      (DecentralizedStableCoin.constructor d.deployer) = .ok ⟨ERC20.empty, d.dscEngine⟩ := by
    simp only [DecentralizedStableCoin.transferOwnership, DecentralizedStableCoin.onlyOwner,
      except_bind_eq_ok, ERC20.require_eq_ok, except_pure_eq_ok]
    exact ⟨(), rfl, (), d.dscEngine_ne_zero, rfl⟩
  simp only [deploy, except_bind_eq_ok, constructor_eq_ok, except_pure_eq_ok]
  exact ⟨_, ⟨d.same_length, rfl⟩, _, howner, rfl⟩

theorem genesis_priceFeeds_of_not_mem {t : Address} (h : t ∉ d.s_tokenAddresses) :
    d.genesis.s_priceFeeds t = 0 :=
  (registeredFeeds_of_not_mem h : registeredFeeds _ d.s_priceFeedAddresses t = 0)

/-! ## Actions -/

/-- An account that may send transactions: any but the engine, which runs its own code
only.  That the other contracts do not send any either is part of `IsUser`. -/
abbrev Account := { account : Address // account ≠ d.dscEngine }

abbrev Token := { token : Address // token ≠ d.dsc }

end Deployment

inductive Action (d : Deployment) where
  | engine (msgSender : d.Account) (c : DSCEngine.Call)
  | dsc (msgSender : d.Account) (c : DecentralizedStableCoin.Call)
  | token (token : d.Token) (msgSender : d.Account) (c : ERC20Call)
  /-- A token contract issues new tokens. -/
  | issueToken (token : d.Token) (account : Address) (amount : UInt256)
  /-- Prices move, in any way. -/
  | oracle (feed : Address → Option RoundData)
  | warp (timestamp : UInt256)

namespace Action

variable {d : Deployment}

def tx : Action d → Tx World Revert Unit
  | .engine msgSender c => c.run IERC20.standard msgSender
  | .dsc msgSender c => callDsc (c.run msgSender)
  | .token t msgSender c => do
      let _ ← callToken t (c.run msgSender)
      return ()
  | .issueToken t account amount => do
      let _ ← World.issueToken t account amount
      return ()
  | .oracle feed => Tx.store (World.setFeed feed)
  | .warp timestamp => Tx.store (World.setTimestamp timestamp)

end Action

namespace Deployment

variable (d : Deployment)

/-- The world after an action; one that reverts leaves the world as it was. -/
def step (w : World) (a : Action d) : World := Tx.attempt a.tx w

def run (actions : List (Action d)) : World := Machine.run d.step d.genesis actions

/-! ## The local network -/

def weth : Address := 10

def wbtc : Address := 11

def wethUsdPriceFeed : Address := 20

def wbtcUsdPriceFeed : Address := 21

/-- The first round of a `MockV3Aggregator`, updated at the time of its deployment. -/
def mockRound (answer : Int256) : RoundData := ⟨1, answer, 1, 1, 1⟩

/-- `HelperConfig.getOrCreateAnvilEthConfig`: two mock tokens, their issuer holding
some of each, and two mock feeds. -/
def anvil : Deployment where
  deployer := 30
  dsc := 2
  dscEngine := 3
  s_tokenAddresses := [weth, wbtc]
  s_priceFeedAddresses := [wethUsdPriceFeed, wbtcUsdPriceFeed]
  token t := if t = weth ∨ t = wbtc then ERC20.empty.issue 30 (1000 * 10 ^ 8) else ERC20.empty
  feed f :=
    if f = wethUsdPriceFeed then some (mockRound (2000 * 10 ^ 8))
    else if f = wbtcUsdPriceFeed then some (mockRound (1000 * 10 ^ 8))
    else none
  timestamp := 1
  same_length := rfl
  nodup := by decide
  dsc_not_mem := by decide
  dscEngine_ne_zero := by decide
  wellFormed t := by
    split
    · exact ERC20.WellFormed.empty.issue (by decide) (by decide)
    · exact ERC20.WellFormed.empty
  noAllowance t := by
    split <;> exact fun _ => rfl

theorem weth_ne_dsc : weth ≠ anvil.dsc := by decide

theorem forall_mem_anvil {p : Address → Prop} (hweth : p weth) (hwbtc : p wbtc) :
    ∀ t ∈ anvil.s_tokenAddresses, p t :=
  List.forall_mem_cons.mpr ⟨hweth, List.forall_mem_singleton.mpr hwbtc⟩

def USER : anvil.Account := ⟨1, by decide⟩

def liquidator : anvil.Account := ⟨31, by decide⟩

/-- A user who is given some WETH deposits it, mints against it, and approves the
engine for what it minted. -/
def openPosition (user : anvil.Account) (amountCollateral amountToMint : UInt256) :
    List (Action anvil) :=
  [.issueToken ⟨weth, weth_ne_dsc⟩ user amountCollateral,
    .token ⟨weth, weth_ne_dsc⟩ user (.approve anvil.dscEngine amountCollateral),
    .engine user (.depositCollateralAndMintDsc weth amountCollateral amountToMint),
    .dsc user (.erc20 (.approve anvil.dscEngine amountToMint))]

def updateAnswer (answer : Int256) : Action anvil :=
  .oracle fun f => if f = wethUsdPriceFeed then some (mockRound answer) else anvil.feed f

/-- The user borrows all it can, the liquidator half of that, and the price of WETH falls. -/
def crash (answer : Int256) : List (Action anvil) :=
  openPosition USER (10 * 10 ^ 18) (10000 * 10 ^ 18) ++
    openPosition liquidator (20 * 10 ^ 18) (10000 * 10 ^ 18) ++ [updateAnswer answer]

end Deployment

end DefiStablecoin
