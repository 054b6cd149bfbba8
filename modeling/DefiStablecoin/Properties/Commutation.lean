import DefiStablecoin.Proofs.Locality
import DefiStablecoin.Properties.Health
import DefiStablecoin.System.Invariants

/-!
# Calls about different accounts commute

Two calls share the engine's balances and the supply of the stablecoin, but neither
checks these before it displaces them: what the engine holds covers every deposit,
whichever call comes first.  So calls about different accounts can be swapped.
-/

namespace DefiStablecoin.Deployment

open Solidity OpenZeppelin DSCEngine World

variable {d : Deployment} {w w' : World} {msgSender holder : Address} {c : Call}
  {ledgers : List Address}

theorem backed_run (d : Deployment) (actions : List (Action d)) : Backed (d.run actions) where
  status_eq := (d.sound_run actions).status_eq
  owner_this := (d.sound_run actions).owner_this
  this_ne_zero := (d.sound_run actions).this_ne_zero
  tokens := (d.sound_run actions).tokens
  deposits_le t := by
    rw [d.holdings_run actions t]
    exact Nat.le_add_right _ _

theorem agrees_of_run (hw : Backed w) (hok : c.run IERC20.standard msgSender w = .ok ((), w'))
    (hdisjoint : (c.accounts msgSender).Disjoint ledgers) (hmem : holder ∈ ledgers)
    (hne : holder ≠ w.this) : Agrees ledgers holder w w' := by
  have hmoves := run_moves hw.status_eq hok
  have hcaller : ∀ u ∈ ledgers, u ≠ msgSender := by
    rintro u hu rfl
    exact hdisjoint (c.msgSender_mem u) hu
  have huntouched : ∀ u ∈ ledgers, w.book.Untouched u w'.book := by
    intro u hu
    apply run_untouched hok (hcaller u hu)
    rintro token debtToCover rfl
    exact hdisjoint (List.mem_cons_of_mem _ (List.mem_singleton_self u)) hu
  exact {
    setting := hmoves.sameSetting
    collateral_eq := fun u hu => (ledgers_of_untouched (huntouched u hu)).1
    debt_eq := fun u hu => (ledgers_of_untouched (huntouched u hu)).2
    wallet := hmoves.sameWallet (hcaller holder hmem) hne }

/-- **Calls about different accounts commute**: if one returns after the other, they return
in the other order as well and leave the same world, unless the supply would overflow. -/
theorem calls_commute (d : Deployment) (actions : List (Action d)) (callerA callerB : d.Account)
    (opA opB : Call) (w₁ w₂ : World)
    (hdisjoint : (opA.accounts callerA).Disjoint (opB.accounts callerB))
    (hA : opA.run IERC20.standard callerA (d.run actions) = .ok ((), w₁))
    (hB : opB.run IERC20.standard callerB w₁ = .ok ((), w₂))
    (hsupply : (d.run actions).supply + opB.minted < 2 ^ 256)
    (hsupply' : (d.run actions).supply + opB.minted - opB.burned + opA.minted < 2 ^ 256) :
    ∃ v₁, opB.run IERC20.standard callerB (d.run actions) = .ok ((), v₁) ∧
      opA.run IERC20.standard callerA v₁ = .ok ((), w₂) := by
  have hs := backed_run d actions
  have hneA := (d.sound_run actions).ne_this callerA
  have hneB := (d.sound_run actions).ne_this callerB
  have hmovesA := run_moves hs.status_eq hA
  have hmovesB := run_moves (hs.moves hneA hmovesA).status_eq hB
  have hback : opB.Repeatable callerB w₁ (d.run actions) := {
    agrees := (agrees_of_run hs hA hdisjoint (opB.msgSender_mem callerB) hneB).symm
    backed := hs
    ne_this := hneB
    supply_lt := hsupply }
  have hforth : ∀ v₁, opB.run IERC20.standard callerB (d.run actions) = .ok ((), v₁) →
      opA.Repeatable callerA (d.run actions) v₁ := by
    intro v₁ hB'
    have hmoves := run_moves hs.status_eq hB'
    have hmoved := run_supply hs hneB hB'
    exact {
      agrees := agrees_of_run hs hB' hdisjoint.symm (opA.msgSender_mem callerA) hneA
      backed := hs.moves hneB hmoves
      ne_this := by
        rw [hmoves.sameSetting.this_eq]
        exact hneA
      supply_lt := by omega }
  obtain ⟨v₁, v₂, hB', hA', hentry⟩ :=
    (run_local opA callerA).commute (run_local opB callerB) hA hB hback hforth
  have hmovesB' := run_moves hs.status_eq hB'
  have hmovesA' := run_moves (hs.moves hneB hmovesB').status_eq hA'
  have hsetting : SameSetting w₂ v₂ :=
    (hmovesA.sameSetting.trans hmovesB.sameSetting).symm.trans
      (hmovesB'.sameSetting.trans hmovesA'.sameSetting)
  exact ⟨v₁, hB', eq_of_entry hsetting hentry ▸ hA'⟩

def bystander : anvil.Account := ⟨32, by decide⟩

/-- After the price has fallen, somebody else is given some WETH and lets the engine take it. -/
def crashAside : List (Action anvil) :=
  crash (1500 * 10 ^ 8) ++ [.issueToken ⟨weth, weth_ne_dsc⟩ bystander (10 * 10 ^ 18),
    .token ⟨weth, weth_ne_dsc⟩ bystander (.approve anvil.dscEngine (10 * 10 ^ 18))]

/-- A liquidation and somebody else's new position can be swapped. -/
theorem calls_commute_crash :
    let w := anvil.run crashAside
    let w₁ := Tx.attempt (liquidate IERC20.standard liquidator weth USER (10000 * 10 ^ 18)) w
    let w₂ := Tx.attempt (depositCollateralAndMintDsc IERC20.standard bystander weth (10 * 10 ^ 18)
      (5000 * 10 ^ 18)) w₁
    ∃ v₁, depositCollateralAndMintDsc IERC20.standard bystander weth (10 * 10 ^ 18)
        (5000 * 10 ^ 18) w = .ok ((), v₁) ∧
      liquidate IERC20.standard liquidator weth USER (10000 * 10 ^ 18) v₁ = .ok ((), w₂) := by
  intro w w₁ w₂
  have hreturns : Tx.Returns
      (liquidate IERC20.standard liquidator weth USER (10000 * 10 ^ 18)) w := by decide +kernel
  have hreturns' : Tx.Returns (depositCollateralAndMintDsc IERC20.standard bystander weth
      (10 * 10 ^ 18) (5000 * 10 ^ 18)) w₁ := by decide +kernel
  exact calls_commute anvil crashAside liquidator bystander
    (.liquidate weth USER (10000 * 10 ^ 18))
    (.depositCollateralAndMintDsc weth (10 * 10 ^ 18) (5000 * 10 ^ 18)) w₁ w₂
    (List.disjoint_singleton.mpr (by decide)) hreturns.eq_ok
    hreturns'.eq_ok (by decide +kernel) (by decide +kernel)

end DefiStablecoin.Deployment
