import DefiStablecoin.Contracts.DecentralizedStableCoin
import Mathlib.Tactic.Simps.Basic

/-!
# The world the engine runs in

The engine's storage together with everything its functions read or write
outside it: the token contracts, the owner of the stablecoin, the price feeds
and the block timestamp.  No function reads the events; `Contracts.Events` adds them.
-/

namespace DefiStablecoin

open Solidity OpenZeppelin

structure RoundData where
  roundId : BitVec 80
  answer : Int256
  startedAt : UInt256
  updatedAt : UInt256
  answeredInRound : BitVec 80

/-- The storage of `DSCEngine`, with the status word of its `ReentrancyGuard`. -/
structure DSCEngine where
  s_priceFeeds : Address → Address
  s_collateralDeposited : Address → Address → UInt256
  s_DSCMinted : Address → UInt256
  s_collateralTokens : List Address
  i_dsc : Address
  _status : UInt256

/-- The engine, deployed at `this`, and its surroundings. -/
structure World extends DSCEngine where
  this : Address
  /-- The ERC20 storage of the contract at an address; that of the stablecoin is at `i_dsc`. -/
  token : Address → ERC20
  /-- The `_owner` of the stablecoin. -/
  dscOwner : Address
  /-- What the feed at an address answers; `none` where no feed is deployed. -/
  feed : Address → Option RoundData
  timestamp : UInt256

namespace World

/-! ## Storage updates -/

@[simps]
def setStatus (status : UInt256) (w : World) : World := { w with _status := status }

@[simps]
def setCollateral (user token : Address) (amount : UInt256) (w : World) : World :=
  { w with
    s_collateralDeposited := Function.update w.s_collateralDeposited user
      (Function.update (w.s_collateralDeposited user) token amount) }

@[simps]
def setMinted (user : Address) (amount : UInt256) (w : World) : World :=
  { w with s_DSCMinted := Function.update w.s_DSCMinted user amount }

@[simps toDSCEngine this token dscOwner feed timestamp]
def setToken (token : Address) (k : ERC20) (w : World) : World :=
  { w with token := Function.update w.token token k }

theorem setToken_self (token : Address) (w : World) : w.setToken token (w.token token) = w := by
  unfold setToken
  rw [Function.update_eq_self]

theorem setToken_token_self (token : Address) (k : ERC20) (w : World) :
    (w.setToken token k).token token = k :=
  Function.update_self ..

theorem setToken_setToken (token : Address) (k k' : ERC20) (w : World) :
    (w.setToken token k).setToken token k' = w.setToken token k' := by
  simp [setToken]

def setFeed (feed : Address → Option RoundData) (w : World) : World := { w with feed }

def setTimestamp (timestamp : UInt256) (w : World) : World := { w with timestamp }

def dsc (w : World) : DecentralizedStableCoin := ⟨w.token w.i_dsc, w.dscOwner⟩

@[simps toDSCEngine this token dscOwner feed timestamp]
def setDsc (d : DecentralizedStableCoin) (w : World) : World :=
  { w with token := Function.update w.token w.i_dsc d.toERC20, dscOwner := d._owner }

end World

/-! ## Calls to other contracts -/

def callToken (token : Address) (f : ERC20 → Except Revert (Bool × ERC20)) :
    Tx World Revert Bool := fun w =>
  match f (w.token token) with
  | .ok (success, k) => .ok (success, w.setToken token k)
  | .error e => .error e

/-- `ERC20Mock.mint`: the token contract issues tokens to an account. -/
def World.issueToken (token account : Address) (amount : UInt256) : Tx World Revert Bool :=
  callToken token fun k => do
    let k ← ERC20._mint account amount k
    return (true, k)

def callDsc (f : DecentralizedStableCoin → Except Revert DecentralizedStableCoin) :
    Tx World Revert Unit := fun w =>
  match f w.dsc with
  | .ok d => .ok ((), w.setDsc d)
  | .error e => .error e

def callDscReturning
    (f : DecentralizedStableCoin → Except Revert (Bool × DecentralizedStableCoin)) :
    Tx World Revert Bool := fun w =>
  match f w.dsc with
  | .ok (success, d) => .ok (success, w.setDsc d)
  | .error e => .error e

/-- The code behind `IERC20(_tokenCollateralAddress)`: the collateral tokens are
not part of the repository, so the engine is modelled over what they may do. -/
structure IERC20 where
  transfer : (token msgSender dst : Address) → UInt256 → Tx World Revert Bool
  transferFrom : (token msgSender src dst : Address) → UInt256 → Tx World Revert Bool

namespace IERC20

/-- Collateral tokens that run the code of `ERC20.sol` and call nobody. -/
def standard : IERC20 where
  transfer token msgSender dst amount :=
    callToken token (ERC20.transfer msgSender dst amount)
  transferFrom token msgSender src dst amount :=
    callToken token (ERC20.transferFrom msgSender src dst amount)

/-- Collateral tokens that move exactly what they are asked to move, and let
other code run before and after they do. -/
def hooked (before after : World → World) : IERC20 where
  transfer token msgSender dst amount := do
    Tx.store before
    let success ← standard.transfer token msgSender dst amount
    Tx.store after
    return success
  transferFrom token msgSender src dst amount := do
    Tx.store before
    let success ← standard.transferFrom token msgSender src dst amount
    Tx.store after
    return success

theorem hooked_id : hooked id id = standard := by
  simp [hooked, standard, Tx.store_id]

end IERC20

end DefiStablecoin
