import DefiStablecoin.Properties.Custody
import DefiStablecoin.Properties.Repayment

/-!
# Repaying and withdrawing at once

`redeemCollateralForDsc` runs the health check twice, before and after the
collateral leaves.  The first check can never be what rejects a call: the call
returns exactly when everything is covered and the position that it leaves is
healthy.  For its own position a liquidator gets no further by `liquidate`.
-/

namespace DefiStablecoin.Deployment

open Solidity OpenZeppelin DSCEngine World

variable {d : Deployment} {w w' : World} {user token : Address}
  {amountCollateral amountDscToBurn : UInt256}

/-! ## When a position can be closed -/

/-- The repayment and the withdrawal are covered, and leave the user healthy. -/
structure CanClose (user token : Address) (amountCollateral amountDscToBurn : UInt256)
    (w : World) : Prop where
  collateral_pos : 0 < amountCollateral.toNat
  burn_pos : 0 < amountDscToBurn.toNat
  owed : amountDscToBurn.toNat ≤ (w.s_DSCMinted user).toNat
  balance : amountDscToBurn.toNat ≤ ((w.token w.i_dsc)._balances user).toNat
  allowance : amountDscToBurn.toNat ≤ ((w.token w.i_dsc)._allowances user w.this).toNat
  deposited : amountCollateral.toNat ≤ (w.s_collateralDeposited user token).toNat
  healthy : 2 * ((w.s_DSCMinted user).toNat - amountDscToBurn.toNat) ≤
    (w.debit user token amountCollateral).collateralValue user

def closed (user token : Address) (amountCollateral amountDscToBurn : UInt256)
    (w : World) : World :=
  redeemed user user token amountCollateral (repaid user user amountDscToBurn w)

namespace CanClose

variable (hclose : CanClose user token amountCollateral amountDscToBurn w)

include hclose

theorem collateral_le (t : Address) :
    (w.debit user token amountCollateral).book.collateral user t ≤ w.book.collateral user t := by
  rw [book_debit hclose.deposited]
  exact w.book.withdraw_le user user token t _

theorem canRepay (h : d.Sound w) : CanRepay user user amountDscToBurn w :=
  h.tokens.canRepay (h.owner_this) (h.this_ne_zero)
    (ne_zero_of_toNat_pos hclose.burn_pos) hclose.owed hclose.balance hclose.allowance

theorem user_ne_zero (h : d.Sound w) : user ≠ 0 :=
  (h.tokens.wellFormed w.i_dsc).ne_zero_of_balance (hclose.burn_pos.trans_le hclose.balance)

/-- The engine has approved nobody, so it is not the one whose stablecoins are burned. -/
theorem user_ne_this (h : d.Sound w) : user ≠ w.this := by
  intro heq
  have hallowance := hclose.allowance
  rw [heq, h.tokens.noAllowance w.i_dsc w.this, toNat_zero] at hallowance
  exact absurd hclose.burn_pos (Nat.not_lt.mpr hallowance)

/-- The first health check passes, since the position has more collateral then. -/
theorem burnDsc_returns (h : d.Sound w) (hscore : w.market.Scorable w.book user) :
    burnDsc user amountDscToBurn w = .ok ((), repaid user user amountDscToBurn w) := by
  apply (burnDsc_returns_iff h hscore (ne_zero_of_toNat_pos hclose.burn_pos) hclose.owed
    hclose.balance hclose.allowance).mpr
  exact hclose.healthy.trans (w.market.terms.value_mono hclose.collateral_le)

theorem redeemCollateral_returns (h : d.Sound w) (hscore : w.market.Scorable w.book user)
    (hheld : (w.s_collateralDeposited user token).toNat ≤ w.holdings token) :
    redeemCollateral IERC20.standard user token amountCollateral
        (repaid user user amountDscToBurn w) =
      .ok ((), closed user token amountCollateral amountDscToBurn w) := by
  have hrepay := hclose.canRepay h
  have howes : ((repaid user user amountDscToBurn w).s_DSCMinted user).toNat =
      (w.s_DSCMinted user).toNat - amountDscToBurn.toNat := debt_repaid_self hclose.owed
  have hcustody : amountCollateral.toNat ≤ (repaid user user amountDscToBurn w).holdings token := by
    rw [holdings_repaid h.tokens hrepay (hclose.user_ne_this h)]
    exact hclose.deposited.trans hheld
  have hstatus : (repaid user user amountDscToBurn w)._status = _NOT_ENTERED := h.status_eq
  apply (redeemCollateral_standard_eq_ok hstatus).mpr
  refine ⟨ne_zero_of_toNat_pos hclose.collateral_pos, hclose.deposited,
    ⟨h.this_ne_zero, hclose.user_ne_zero h, hcustody⟩, ?_, ?_, rfl⟩
  · exact hscore.mono hclose.collateral_le (howes.trans_le (Nat.sub_le _ _))
  · rw [healthy_iff]
    exact (congrArg (2 * ·) howes).trans_le hclose.healthy

end CanClose

theorem canClose_of_returns
    (h : redeemCollateralForDsc IERC20.standard user token amountCollateral amountDscToBurn w =
      .ok ((), w')) : CanClose user token amountCollateral amountDscToBurn w := by
  obtain ⟨w₁, hburn, hredeem⟩ := redeemCollateralForDsc_eq_ok.mp h
  obtain ⟨hpos, hrepay, _, _, rfl⟩ := burnDsc_eq_ok.mp hburn
  rw [← IERC20.hooked_id, redeemCollateral_eq_ok] at hredeem
  obtain ⟨hpos', _, hcover, _, _, rfl, _, rfl, _, hhealthy, _⟩ := hredeem
  have howes : ((repaid user user amountDscToBurn w).s_DSCMinted user).toNat =
      (w.s_DSCMinted user).toNat - amountDscToBurn.toNat := debt_repaid_self hrepay.1
  rw [healthy_iff] at hhealthy
  exact {
    collateral_pos := toNat_pos_of_ne_zero hpos'
    burn_pos := toNat_pos_of_ne_zero hpos
    owed := hrepay.1
    balance := hrepay.2.1.2.2.2
    allowance := allowance_of_canRepay hrepay
    deposited := hcover
    healthy := (congrArg (2 * ·) howes).symm.trans_le hhealthy }

/-- A position that can be scored is closed exactly when it can be, and then to a known end. -/
theorem redeemCollateralForDsc_returns_iff (h : d.Sound w)
    (hscore : w.market.Scorable w.book user)
    (hheld : (w.s_collateralDeposited user token).toNat ≤ w.holdings token) :
    redeemCollateralForDsc IERC20.standard user token amountCollateral amountDscToBurn w =
        .ok ((), w') ↔
      CanClose user token amountCollateral amountDscToBurn w ∧
        w' = closed user token amountCollateral amountDscToBurn w := by
  have hreturns : CanClose user token amountCollateral amountDscToBurn w →
      redeemCollateralForDsc IERC20.standard user token amountCollateral amountDscToBurn w =
        .ok ((), closed user token amountCollateral amountDscToBurn w) := fun hclose =>
    redeemCollateralForDsc_eq_ok.mpr
      ⟨_, hclose.burnDsc_returns h hscore, hclose.redeemCollateral_returns h hscore hheld⟩
  constructor
  · intro hok
    have hclose := canClose_of_returns hok
    rw [hreturns hclose, Except.ok.injEq, Prod.mk.injEq] at hok
    exact ⟨hclose, hok.2.symm⟩
  · rintro ⟨hclose, rfl⟩
    exact hreturns hclose

/-- **`redeemCollateralForDsc` is judged only by the position that it leaves.** -/
theorem redeemCollateralForDsc_judged_by_end (d : Deployment) (actions : List (Action d))
    (user token : Address) (amountCollateral amountDscToBurn healthFactor : UInt256)
    (hreturns : getHealthFactor user (d.run actions) = .ok healthFactor) :
    (∃ w', redeemCollateralForDsc IERC20.standard user token amountCollateral amountDscToBurn
        (d.run actions) = .ok ((), w')) ↔
      0 < amountCollateral.toNat ∧ 0 < amountDscToBurn.toNat ∧
      amountDscToBurn.toNat ≤ ((d.run actions).s_DSCMinted user).toNat ∧
      amountDscToBurn.toNat ≤ (((d.run actions).token d.dsc)._balances user).toNat ∧
      amountDscToBurn.toNat ≤
        (((d.run actions).token d.dsc)._allowances user d.dscEngine).toNat ∧
      amountCollateral.toNat ≤ ((d.run actions).s_collateralDeposited user token).toNat ∧
      2 * (((d.run actions).s_DSCMinted user).toNat - amountDscToBurn.toNat) ≤
        ((d.run actions).debit user token amountCollateral).collateralValue user := by
  have hsound := d.sound_run actions
  have hscore := (_healthFactor_eq_ok.mp hreturns).1
  simp only [redeemCollateralForDsc_returns_iff hsound hscore (d.holdings_ge actions user token)]
  rw [← hsound.dsc_eq, ← hsound.this_eq]
  constructor
  · rintro ⟨_, hclose, _⟩
    exact ⟨hclose.collateral_pos, hclose.burn_pos, hclose.owed, hclose.balance, hclose.allowance,
      hclose.deposited, hclose.healthy⟩
  · rintro ⟨hcollateral, hburn, howed, hbalance, hallowance, hdeposited, hhealthy⟩
    exact ⟨_, ⟨hcollateral, hburn, howed, hbalance, hallowance, hdeposited, hhealthy⟩, rfl⟩

/-- At $1500 the user starts below the threshold, and may take one WETH along with a
repayment of $3250. -/
theorem redeemCollateralForDsc_judged_by_end_crash :
    ∃ w', redeemCollateralForDsc IERC20.standard USER weth (10 ^ 18) (3250 * 10 ^ 18)
      (anvil.run (crash (1500 * 10 ^ 8))) = .ok ((), w') :=
  (redeemCollateralForDsc_judged_by_end anvil (crash (1500 * 10 ^ 8)) USER weth (10 ^ 18)
    (3250 * 10 ^ 18) 750000000000000000 (by decide +kernel)).mpr (by decide +kernel)

/-! ## Liquidating oneself -/

/-- A repayment and a payout in another token do not get in each other's way. -/
theorem repaid_redeemed (htoken : token ≠ w.i_dsc) (onBehalfOf dscFrom source recipient : Address)
    (amount seized : UInt256) :
    repaid onBehalfOf dscFrom amount (redeemed source recipient token seized w) =
      redeemed source recipient token seized (repaid onBehalfOf dscFrom amount w) := by
  have hdsc := htoken.symm
  simp only [repaid, redeemed, forgive, collect, World.destroy, pay, debit, setMinted,
    setCollateral, setToken, Function.update_of_ne hdsc, Function.update_of_ne htoken,
    Function.update_self, Function.update_idem]
  rw [Function.update_comm hdsc]

theorem liquidate_self_closes {seized debtToCover : UInt256} (h : d.Sound w)
    (htoken : token ≠ w.i_dsc)
    (hseized : seized.toNat = payout (w.market.price token) debtToCover.toNat)
    (hpos : 0 < seized.toNat)
    (hok : liquidate IERC20.standard user token user debtToCover w = .ok ((), w')) :
    w.market.Scorable w.book user ∧ CanClose user token seized debtToCover w ∧
      w' = closed user token seized debtToCover w := by
  obtain ⟨hne, hscore, _, _, seized', hpayout, hcover, _, hrepay, _, _, _, hhealthy, rfl⟩ :=
    (liquidate_standard_eq_ok h.status_eq).mp hok
  obtain rfl : seized = seized' := BitVec.eq_of_toNat_eq (hseized.trans hpayout.symm)
  have hdsc : (redeemed user user token seized w).token w.i_dsc = w.token w.i_dsc :=
    Function.update_of_ne htoken.symm _ _
  have hallowance : debtToCover.toNat ≤
      (((redeemed user user token seized w).token w.i_dsc)._allowances user w.this).toNat :=
    allowance_of_canRepay hrepay
  have hbalance : debtToCover.toNat ≤
      (((redeemed user user token seized w).token w.i_dsc)._balances user).toNat :=
    hrepay.2.1.2.2.2
  rw [hdsc] at hallowance hbalance
  have hend : liquidated user user token seized debtToCover w =
      closed user token seized debtToCover w := repaid_redeemed htoken ..
  have howes : ((closed user token seized debtToCover w).s_DSCMinted user).toNat =
      (w.s_DSCMinted user).toNat - debtToCover.toNat := debt_forgive_self hrepay.1
  rw [hend, healthy_iff, howes] at hhealthy
  exact ⟨hscore, ⟨hpos, toNat_pos_of_ne_zero hne, hrepay.1, hbalance, hallowance, hcover,
    hhealthy⟩, hend⟩

/-- **Liquidating oneself grants nothing.** Whatever a user gets by liquidating its own
position it gets by `redeemCollateralForDsc`, with the same end. -/
theorem redeemCollateralForDsc_of_liquidate_self (d : Deployment) (actions : List (Action d))
    (user : d.Account) (token : Address) (debtToCover seized : UInt256) (w' : World)
    (hlisted : token ∈ d.s_tokenAddresses)
    (hseized : seized.toNat = payout ((d.run actions).market.price token) debtToCover.toNat)
    (hpos : 0 < seized.toNat)
    (hok : liquidate IERC20.standard user token user debtToCover (d.run actions) = .ok ((), w')) :
    redeemCollateralForDsc IERC20.standard user token seized debtToCover (d.run actions) =
      .ok ((), w') := by
  have hsound := d.sound_run actions
  have htoken : token ≠ (d.run actions).i_dsc :=
    hsound.dsc_eq ▸ ne_of_mem_of_not_mem hlisted d.dsc_not_mem
  obtain ⟨hscore, hclose, rfl⟩ := liquidate_self_closes hsound htoken hseized hpos hok
  exact (redeemCollateralForDsc_returns_iff hsound hscore
    (d.holdings_ge actions user token)).mpr ⟨hclose, rfl⟩

/-- At $1500 the user covers its whole debt of $10000 itself. -/
theorem redeemCollateralForDsc_of_liquidate_self_crash :
    let w := anvil.run (crash (1500 * 10 ^ 8))
    redeemCollateralForDsc IERC20.standard USER weth 7333333333333333332 (10000 * 10 ^ 18) w =
      .ok ((), Tx.attempt (liquidate IERC20.standard USER weth USER (10000 * 10 ^ 18)) w) := by
  intro w
  have hreturns : Tx.Returns (liquidate IERC20.standard USER weth USER (10000 * 10 ^ 18)) w := by
    decide +kernel
  exact redeemCollateralForDsc_of_liquidate_self anvil (crash (1500 * 10 ^ 8)) USER weth
    (10000 * 10 ^ 18) 7333333333333333332 _ (by decide) (by decide +kernel) (by decide)
    hreturns.eq_ok

end DefiStablecoin.Deployment
