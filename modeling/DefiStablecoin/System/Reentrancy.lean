import DefiStablecoin.System.Invariants

/-!
# Collateral tokens that call back

A collateral token still moves exactly what it is asked to move, but before and
after a move it lets arbitrary accounts make arbitrary calls, which may in turn
move such tokens.  A call is a tree, and every nested call that reverts is
swallowed.  Prices and time stand still while the outermost call runs.
-/

namespace DefiStablecoin

open Solidity OpenZeppelin DSCEngine World

/-- A call together with the calls that the token it moves makes before and after. -/
inductive CallTree (d : Deployment) where
  | engine (msgSender : d.Account) (c : DSCEngine.Call) (before after : List (CallTree d))
  | dsc (msgSender : d.Account) (c : DecentralizedStableCoin.Call)
  | token (token : d.Token) (msgSender : d.Account) (c : ERC20Call)
      (before after : List (CallTree d))
  | issueToken (token : d.Token) (account : Address) (amount : UInt256)

namespace CallTree

variable {d : Deployment}

/-- A call of the engine over tokens that run `before` and `after` around a move. -/
def engineTx (msgSender : d.Account) (c : DSCEngine.Call) (before after : World → World) :
    Tx World Revert Unit :=
  c.run (IERC20.hooked before after) msgSender

def tokenTx (t : d.Token) (msgSender : d.Account) (c : ERC20Call)
    (before after : World → World) : Tx World Revert Unit := do
  Tx.store before
  let _ ← callToken t (c.run msgSender)
  Tx.store after

mutual

/-- The world after a call, with everything that is called from within it. -/
def exec : CallTree d → World → World
  | .engine msgSender c before after =>
      Tx.attempt (engineTx msgSender c (execAll before) (execAll after))
  | .dsc msgSender c => Tx.attempt (callDsc (c.run msgSender))
  | .token t msgSender c before after =>
      Tx.attempt (tokenTx t msgSender c (execAll before) (execAll after))
  | .issueToken t account amount => Tx.attempt (World.issueToken t account amount)

def execAll : List (CallTree d) → World → World
  | [] => id
  | call :: rest => fun w => execAll rest (exec call w)

end

end CallTree

inductive OuterAction (d : Deployment) where
  | call (tree : CallTree d)
  | oracle (feed : Address → Option RoundData)
  | warp (timestamp : UInt256)

namespace Deployment

variable (d : Deployment)

def outerStep (w : World) : OuterAction d → World
  | .call tree => tree.exec w
  | .oracle feed => d.step w (.oracle feed)
  | .warp timestamp => d.step w (.warp timestamp)

def outerRun (actions : List (OuterAction d)) : World :=
  Machine.run d.outerStep d.genesis actions

end Deployment

end DefiStablecoin
