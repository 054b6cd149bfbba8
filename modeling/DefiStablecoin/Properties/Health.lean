import DefiStablecoin.Proofs.Refinement
import DefiStablecoin.System.Deployment

/-!
# Health is only ever lost to a price move

The refinement carries the health results of the lending protocol over to the
engine: no call that returns makes a healthy account unhealthy or an unhealthy
one worse, and only an unhealthy account can be touched by somebody else.
-/

namespace DefiStablecoin.DSCEngine

open Solidity OpenZeppelin World Lending

variable {w w' : World} {msgSender v : Address} {c : Call}

/-! ## The steps of a call -/

theorem ops_target (m : Market) :
    (∃ op ∈ c.ops m, op.target = some v) ↔
      ∃ token debtToCover, c = .liquidate token v debtToCover := by
  cases c <;> simp [Call.ops, Op.target, eq_comm]

theorem ops_last (m : Market) (hc : ∀ token amount, c ≠ .depositCollateral token amount) :
    ∃ ops op, c.ops m = ops ++ [op] ∧ ∀ t a, op ≠ .deposit t a := by
  cases c with
  | depositCollateral token amount => exact absurd rfl (hc token amount)
  | redeemCollateral | mintDsc | burnDsc | liquidate => exact ⟨[], _, rfl, by simp⟩
  | depositCollateralAndMintDsc | redeemCollateralForDsc => exact ⟨[_], _, rfl, by simp⟩

/-! ## What a call does to health -/

theorem healthy_of_market_eq (h : w'.market = w.market) :
    w'.Healthy v ↔ w.market.terms.Healthy w'.book v := by
  unfold World.Healthy
  rw [h]

theorem healthFactorOf_of_market_eq (h : w'.market = w.market) :
    w'.healthFactorOf v = w.market.terms.scoreOf w'.book v := by
  unfold World.healthFactorOf
  rw [h]

theorem run_untouched (h : c.run IERC20.standard msgSender w = .ok ((), w')) (hv : v ≠ msgSender)
    (htarget : ∀ token debtToCover, c ≠ .liquidate token v debtToCover) :
    w.book.Untouched v w'.book :=
  (run_refines h).2.untouched hv fun op hop heq =>
    have ⟨token, debtToCover, hc⟩ := (ops_target w.market).mp ⟨op, hop, heq⟩
    htarget token debtToCover hc

theorem ledgers_of_untouched (h : w.book.Untouched v w'.book) :
    w'.s_collateralDeposited v = w.s_collateralDeposited v ∧ w'.s_DSCMinted v = w.s_DSCMinted v :=
  ⟨funext fun t => BitVec.eq_of_toNat_eq (congrFun h.1 t), BitVec.eq_of_toNat_eq h.2⟩

theorem liquidate_target {token : Address} {debtToCover : UInt256}
    (h : liquidate IERC20.standard msgSender token v debtToCover w = .ok ((), w')) :
    ¬w.Healthy v ∧ w.healthFactorOf v < w'.healthFactorOf v := by
  obtain ⟨hmarket, hstep⟩ := liquidate_refines h
  rw [healthFactorOf_of_market_eq hmarket]
  exact ⟨hstep.target_unhealthy rfl, hstep.target_score_lt rfl⟩

/-- **Health is only ever lost to a price move.** Across a call that returns: every
healthy account stays healthy; a health factor below the minimum does not drop, and
that of a liquidated account rises; the caller of anything but a deposit ends
healthy; and nobody else is touched but the target of a liquidation, which was
unhealthy. -/
theorem run_health (h : c.run IERC20.standard msgSender w = .ok ((), w')) :
    (∀ v, w.Healthy v → w'.Healthy v) ∧
    (∀ v, w.healthFactorOf v < MIN_HEALTH_FACTOR.toNat →
      w.healthFactorOf v ≤ w'.healthFactorOf v) ∧
    ((∀ token amount, c ≠ .depositCollateral token amount) → w'.Healthy msgSender) ∧
    (∀ v, v ≠ msgSender → (∀ token debtToCover, c ≠ .liquidate token v debtToCover) →
      w'.s_collateralDeposited v = w.s_collateralDeposited v ∧
        w'.s_DSCMinted v = w.s_DSCMinted v) ∧
    (∀ token target debtToCover, c = .liquidate token target debtToCover →
      ¬w.Healthy target ∧ w.healthFactorOf target < w'.healthFactorOf target) := by
  obtain ⟨hmarket, hsteps⟩ := run_refines h
  refine ⟨fun v hv => ?_, fun v hlow => ?_, fun hc => ?_, fun v hv htarget => ?_, ?_⟩
  · rw [healthy_of_market_eq hmarket]
    exact hsteps.healthy hv
  · rw [healthFactorOf_of_market_eq hmarket]
    exact hsteps.score_le hlow
  · obtain ⟨ops, op, hops, hop⟩ := ops_last w.market hc
    rw [healthy_of_market_eq hmarket]
    exact (hops ▸ hsteps).caller_healthy hop
  · exact ledgers_of_untouched (run_untouched h hv htarget)
  · rintro token target debtToCover rfl
    exact liquidate_target h

/-- At $1500 the user is liquidated, and the liquidator stays healthy. -/
theorem run_health_crash :
    let w := Deployment.anvil.run (Deployment.crash (1500 * 10 ^ 8))
    let w' := Tx.attempt (liquidate IERC20.standard Deployment.liquidator Deployment.weth
      Deployment.USER (10000 * 10 ^ 18)) w
    w'.Healthy Deployment.liquidator ∧
      ¬w.Healthy Deployment.USER ∧
      w.healthFactorOf Deployment.USER < w'.healthFactorOf Deployment.USER := by
  intro w w'
  have hreturns : Tx.Returns ((Call.liquidate Deployment.weth Deployment.USER
      (10000 * 10 ^ 18)).run IERC20.standard Deployment.liquidator) w := by decide +kernel
  have hhealth := run_health hreturns.eq_ok
  exact ⟨hhealth.2.2.1 fun _ _ => by simp, hhealth.2.2.2.2 _ _ _ rfl⟩

end DefiStablecoin.DSCEngine
