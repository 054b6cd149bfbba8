import DefiStablecoin.Proofs.Effects

/-!
# When the engine's transactions return

One theorem for each transaction says exactly when it returns and what world it
then leaves, over collateral tokens that may run other code before and after a
transfer.  Everything that is proved about the engine goes through these.
-/

namespace DefiStablecoin.DSCEngine

open Solidity OpenZeppelin World

variable {before after : World → World} {w : World} {r : Unit × World}
  {msgSender token source recipient user : Address} {amount : UInt256}

/-! ## Modifiers -/

theorem moreThanZero_eq_ok : moreThanZero amount w = .ok r ↔ amount ≠ 0 ∧ r.2 = w :=
  Tx.revertIf_eq_ok

theorem isAllowedToken_eq_ok :
    isAllowedToken token w = .ok r ↔ w.s_priceFeeds token ≠ 0 ∧ r.2 = w := by
  simp only [isAllowedToken, Tx.bind_eq_ok, Tx.read_eq_ok, Tx.revertIf_eq_ok, Prod.mk.injEq]
  constructor
  · rintro ⟨_, _, ⟨rfl, rfl⟩, hallowed, heq⟩
    exact ⟨hallowed, heq⟩
  · rintro ⟨hallowed, heq⟩
    exact ⟨_, _, ⟨rfl, rfl⟩, hallowed, heq⟩

theorem nonReentrant_eq_ok {body : Tx World Revert Unit} :
    nonReentrant body w = .ok r ↔
      w._status ≠ _ENTERED ∧
        ∃ w', body (w.setStatus _ENTERED) = .ok ((), w') ∧ r.2 = w'.setStatus _NOT_ENTERED := by
  simp only [nonReentrant, _nonReentrantBefore, _nonReentrantAfter, Tx.bind_eq_ok,
    Tx.read_eq_ok, Tx.revertIf_eq_ok, Tx.store_eq_ok, Prod.mk.injEq]
  constructor
  · rintro ⟨_, _, ⟨_, _, ⟨rfl, rfl⟩, _, _, ⟨hstatus, rfl⟩, rfl⟩, _, w', hbody, heq⟩
    exact ⟨hstatus, w', hbody, heq⟩
  · rintro ⟨hstatus, w', hbody, heq⟩
    exact ⟨(), _, ⟨_, _, ⟨rfl, rfl⟩, (), _, ⟨hstatus, rfl⟩, rfl⟩, (), w', hbody, heq⟩

theorem view_check_eq_ok :
    Tx.view (_revertIfHealthFactorIsBroken user) w = .ok r ↔
      w.market.Scorable w.book user ∧ w.Healthy user ∧ r.2 = w := by
  rw [Tx.view_eq_ok, _revertIfHealthFactorIsBroken_eq_ok, and_assoc]

/-! ## Internal transactions -/

theorem _redeemCollateral_eq_ok :
    _redeemCollateral (IERC20.hooked before after) token amount source recipient w = .ok r ↔
      amount.toNat ≤ (w.s_collateralDeposited source token).toNat ∧
      (before (w.debit source token amount)).CanPay token w.this recipient amount ∧
      r.2 = after ((before (w.debit source token amount)).pay token w.this recipient amount) := by
  simp only [_redeemCollateral, Tx.bind_eq_ok, Tx.update_eq_ok, Tx.read_eq_ok,
    Tx.revertIf_eq_ok, except_bind_eq_ok, checkedSub_eq_ok, except_pure_eq_ok,
    hooked_transfer_eq_ok, Prod.mk.injEq]
  constructor
  · rintro ⟨_, _, ⟨_, ⟨hcover, rfl⟩, rfl⟩, _, _, ⟨rfl, rfl⟩, _, _, ⟨hpay, rfl, rfl⟩, _, heq⟩
    exact ⟨hcover, hpay, heq⟩
  · rintro ⟨hcover, hpay, heq⟩
    exact ⟨(), _, ⟨_, ⟨hcover, rfl⟩, rfl⟩, _, _, ⟨rfl, rfl⟩, _, _, ⟨hpay, rfl, rfl⟩,
      by decide, heq⟩

/-- What `_burnDsc` leaves: a debt cancelled, and as many stablecoins of
`dscFrom` collected and burned. -/
def repaid (onBehalfOf dscFrom : Address) (amount : UInt256) (w : World) : World :=
  ((w.forgive onBehalfOf amount).collect w.i_dsc w.this dscFrom amount).destroy amount

def CanRepay (onBehalfOf dscFrom : Address) (amount : UInt256) (w : World) : Prop :=
  amount.toNat ≤ (w.s_DSCMinted onBehalfOf).toNat ∧
    w.CanCollect w.i_dsc w.this dscFrom amount ∧
      (w.collect w.i_dsc w.this dscFrom amount).CanDestroy amount

theorem _burnDsc_eq_ok :
    _burnDsc amount user source w = .ok r ↔
      CanRepay user source amount w ∧ r.2 = repaid user source amount w := by
  simp only [_burnDsc, Tx.bind_eq_ok, Tx.update_eq_ok, Tx.read_eq_ok, Tx.revertIf_eq_ok,
    except_bind_eq_ok, checkedSub_eq_ok, except_pure_eq_ok, callToken_transferFrom_eq_ok,
    Prod.mk.injEq]
  constructor
  · rintro ⟨_, _, ⟨_, ⟨howed, rfl⟩, rfl⟩, _, _, ⟨rfl, rfl⟩, _, _, ⟨rfl, rfl⟩, _, _,
      ⟨hcollect, rfl, rfl⟩, _, _, ⟨_, rfl⟩, hburn⟩
    obtain ⟨hdestroy, heq⟩ := callDsc_burn_eq_ok.mp hburn
    exact ⟨⟨howed, hcollect, hdestroy⟩, heq⟩
  · rintro ⟨⟨howed, hcollect, hdestroy⟩, heq⟩
    exact ⟨(), _, ⟨_, ⟨howed, rfl⟩, rfl⟩, _, _, ⟨rfl, rfl⟩, _, _, ⟨rfl, rfl⟩, _, _,
      ⟨hcollect, rfl, rfl⟩, (), _, ⟨by decide, rfl⟩, callDsc_burn_eq_ok.mpr ⟨hdestroy, heq⟩⟩

/-! ## Public and external transactions -/

theorem depositCollateral_eq_ok :
    depositCollateral (IERC20.hooked before after) msgSender token amount w = .ok r ↔
      amount ≠ 0 ∧ w.s_priceFeeds token ≠ 0 ∧ w._status ≠ _ENTERED ∧
      (w.s_collateralDeposited msgSender token).toNat + amount.toNat < 2 ^ 256 ∧
      ∃ w₁, w₁ = before ((w.setStatus _ENTERED).credit msgSender token amount) ∧
        w₁.CanCollect token w.this msgSender amount ∧
        r.2 = (after (w₁.collect token w.this msgSender amount)).setStatus _NOT_ENTERED := by
  simp only [depositCollateral, Tx.bind_eq_ok, moreThanZero_eq_ok, isAllowedToken_eq_ok,
    nonReentrant_eq_ok, Tx.update_eq_ok, Tx.read_eq_ok, Tx.revertIf_eq_ok, except_bind_eq_ok,
    checkedAdd_eq_ok, except_pure_eq_ok, hooked_transferFrom_eq_ok, Prod.mk.injEq]
  constructor
  · rintro ⟨_, _, ⟨hpos, rfl⟩, _, _, ⟨hallowed, rfl⟩, hstatus, _, ⟨_, _, ⟨_, ⟨hfits, rfl⟩, rfl⟩,
      _, _, ⟨rfl, rfl⟩, _, _, ⟨hcollect, rfl, rfl⟩, _, rfl⟩, heq⟩
    exact ⟨hpos, hallowed, hstatus, hfits, _, rfl, hcollect, heq⟩
  · rintro ⟨hpos, hallowed, hstatus, hfits, _, rfl, hcollect, heq⟩
    exact ⟨(), _, ⟨hpos, rfl⟩, (), _, ⟨hallowed, rfl⟩, hstatus, _, ⟨(), _, ⟨_, ⟨hfits, rfl⟩, rfl⟩,
      _, _, ⟨rfl, rfl⟩, _, _, ⟨hcollect, rfl, rfl⟩, by decide, rfl⟩, heq⟩

theorem redeemCollateral_eq_ok :
    redeemCollateral (IERC20.hooked before after) msgSender token amount w = .ok r ↔
      amount ≠ 0 ∧ w._status ≠ _ENTERED ∧
      amount.toNat ≤ (w.s_collateralDeposited msgSender token).toNat ∧
      ∃ w₁ w₂, w₁ = before ((w.setStatus _ENTERED).debit msgSender token amount) ∧
        w₁.CanPay token w.this msgSender amount ∧
        w₂ = after (w₁.pay token w.this msgSender amount) ∧
        w₂.market.Scorable w₂.book msgSender ∧ w₂.Healthy msgSender ∧
        r.2 = w₂.setStatus _NOT_ENTERED := by
  simp only [redeemCollateral, Tx.bind_eq_ok, moreThanZero_eq_ok, nonReentrant_eq_ok,
    _redeemCollateral_eq_ok, view_check_eq_ok]
  constructor
  · rintro ⟨_, _, ⟨hpos, rfl⟩, hstatus, _, ⟨_, _, ⟨hcover, hpay, rfl⟩, hscore, hhealthy, rfl⟩, heq⟩
    exact ⟨hpos, hstatus, hcover, _, _, rfl, hpay, rfl, hscore, hhealthy, heq⟩
  · rintro ⟨hpos, hstatus, hcover, _, _, rfl, hpay, rfl, hscore, hhealthy, heq⟩
    exact ⟨(), _, ⟨hpos, rfl⟩, hstatus, _, ⟨(), _, ⟨hcover, hpay, rfl⟩, hscore, hhealthy, rfl⟩, heq⟩

theorem mintDsc_eq_ok :
    mintDsc msgSender amount w = .ok r ↔
      amount ≠ 0 ∧ w._status ≠ _ENTERED ∧
      (w.s_DSCMinted msgSender).toNat + amount.toNat < 2 ^ 256 ∧
      w.market.Scorable (w.lend msgSender amount).book msgSender ∧
      (w.lend msgSender amount).Healthy msgSender ∧
      w.CanIssue msgSender amount ∧
      r.2 = ((w.lend msgSender amount).issue msgSender amount).setStatus _NOT_ENTERED := by
  simp only [mintDsc, Tx.bind_eq_ok, moreThanZero_eq_ok, nonReentrant_eq_ok, view_check_eq_ok,
    Tx.update_eq_ok, Tx.read_eq_ok, Tx.revertIf_eq_ok, except_bind_eq_ok, checkedAdd_eq_ok,
    except_pure_eq_ok, Prod.mk.injEq]
  constructor
  · rintro ⟨_, _, ⟨hpos, rfl⟩, hstatus, _, ⟨_, _, ⟨_, ⟨hfits, rfl⟩, rfl⟩, _, _,
      ⟨hscore, hhealthy, rfl⟩, _, _, ⟨rfl, rfl⟩, success, _, hmint, _, rfl⟩, heq⟩
    obtain ⟨hissue, hresult⟩ := callDsc_mint_eq_ok.mp hmint
    cases hresult
    exact ⟨hpos, hstatus, hfits, hscore, hhealthy, hissue, heq⟩
  · rintro ⟨hpos, hstatus, hfits, hscore, hhealthy, hissue, heq⟩
    exact ⟨(), _, ⟨hpos, rfl⟩, hstatus, _, ⟨(), _, ⟨_, ⟨hfits, rfl⟩, rfl⟩, (), _,
      ⟨hscore, hhealthy, rfl⟩, _, _, ⟨rfl, rfl⟩, true, _,
      callDsc_mint_eq_ok.mpr ⟨hissue, rfl⟩, by decide, rfl⟩, heq⟩

theorem burnDsc_eq_ok :
    burnDsc msgSender amount w = .ok r ↔
      amount ≠ 0 ∧ CanRepay msgSender msgSender amount w ∧
      w.market.Scorable (w.forgive msgSender amount).book msgSender ∧
      (w.forgive msgSender amount).Healthy msgSender ∧
      r.2 = repaid msgSender msgSender amount w := by
  simp only [burnDsc, Tx.bind_eq_ok, moreThanZero_eq_ok, _burnDsc_eq_ok, view_check_eq_ok]
  constructor
  · rintro ⟨_, _, ⟨hpos, rfl⟩, _, _, ⟨hrepay, rfl⟩, hscore, hhealthy, heq⟩
    exact ⟨hpos, hrepay, hscore, hhealthy, heq⟩
  · rintro ⟨hpos, hrepay, hscore, hhealthy, heq⟩
    exact ⟨(), _, ⟨hpos, rfl⟩, (), _, ⟨hrepay, rfl⟩, hscore, hhealthy, heq⟩

theorem depositCollateralAndMintDsc_eq_ok {ierc20 : IERC20} {amountDscToMint : UInt256} :
    depositCollateralAndMintDsc ierc20 msgSender token amount amountDscToMint w = .ok r ↔
      ∃ w₁, depositCollateral ierc20 msgSender token amount w = .ok ((), w₁) ∧
        mintDsc msgSender amountDscToMint w₁ = .ok r := by
  simp only [depositCollateralAndMintDsc, Tx.bind_eq_ok]
  exact ⟨fun ⟨_, w₁, h⟩ => ⟨w₁, h⟩, fun ⟨w₁, h⟩ => ⟨(), w₁, h⟩⟩

theorem redeemCollateralForDsc_eq_ok {ierc20 : IERC20} {amountDscToBurn : UInt256} :
    redeemCollateralForDsc ierc20 msgSender token amount amountDscToBurn w = .ok r ↔
      ∃ w₁, burnDsc msgSender amountDscToBurn w = .ok ((), w₁) ∧
        redeemCollateral ierc20 msgSender token amount w₁ = .ok r := by
  simp only [redeemCollateralForDsc, Tx.bind_eq_ok]
  exact ⟨fun ⟨_, w₁, h⟩ => ⟨w₁, h⟩, fun ⟨w₁, h⟩ => ⟨(), w₁, h⟩⟩

theorem liquidate_eq_ok {debtToCover : UInt256} :
    liquidate (IERC20.hooked before after) msgSender token user debtToCover w = .ok r ↔
      debtToCover ≠ 0 ∧ w._status ≠ _ENTERED ∧
      w.market.Scorable w.book user ∧ ¬w.Healthy user ∧
      w.market.Payable token debtToCover.toNat ∧
      ∃ seized w₁ w₂ w₃, seized.toNat = payout (w.market.price token) debtToCover.toNat ∧
        seized.toNat ≤ (w.s_collateralDeposited user token).toNat ∧
        w₁ = before ((w.setStatus _ENTERED).debit user token seized) ∧
        w₁.CanPay token w.this msgSender seized ∧
        w₂ = after (w₁.pay token w.this msgSender seized) ∧
        CanRepay user msgSender debtToCover w₂ ∧
        w₃ = repaid user msgSender debtToCover w₂ ∧
        w₃.market.Scorable w₃.book user ∧ w.healthFactorOf user < w₃.healthFactorOf user ∧
        w₃.market.Scorable w₃.book msgSender ∧ w₃.Healthy msgSender ∧
        r.2 = w₃.setStatus _NOT_ENTERED := by
  simp only [liquidate, Tx.bind_eq_ok, moreThanZero_eq_ok, nonReentrant_eq_ok, Tx.view_eq_ok,
    Tx.revertIf_eq_ok, _redeemCollateral_eq_ok, _burnDsc_eq_ok, _healthFactor_eq_ok,
    _revertIfHealthFactorIsBroken_eq_ok, ge_iff_le, BitVec.le_def, Nat.not_le,
    toNat_MIN_HEALTH_FACTOR]
  constructor
  · rintro ⟨_, _, ⟨hpos, rfl⟩, hstatus, _, ⟨start, _, ⟨⟨hscore, hstart⟩, rfl⟩, _, _, ⟨hlow, rfl⟩,
      equal, _, ⟨hequal, rfl⟩, scaled, _, ⟨hscaled, rfl⟩, bonus, _, ⟨hbonus, rfl⟩,
      seized, _, ⟨hseized, rfl⟩, _, _, ⟨hcover, hpay, rfl⟩, _, _, ⟨hrepay, rfl⟩,
      ending, _, ⟨⟨hscore', hending⟩, rfl⟩, _, _, ⟨hrise, rfl⟩,
      ⟨hscoreCaller, hcaller⟩, rfl⟩, heq⟩
    obtain ⟨hpayable, hpayout⟩ :=
      payout_eq_ok.mp ⟨equal, hequal, scaled, hscaled, bonus, hbonus, hseized⟩
    rw [hstart] at hlow hrise
    rw [hending] at hrise
    exact ⟨hpos, hstatus, hscore, Lending.Terms.scoreOf_lt_threshold.mp hlow, hpayable,
      seized, _, _, _, hpayout, hcover, rfl, hpay, rfl, hrepay, rfl, hscore', hrise,
      hscoreCaller, hcaller, heq⟩
  · rintro ⟨hpos, hstatus, hscore, hunhealthy, hpayable, seized, _, _, _, hpayout, hcover, rfl,
      hpay, rfl, hrepay, rfl, hscore', hrise, hscoreCaller, hcaller, heq⟩
    obtain ⟨equal, hequal, scaled, hscaled, bonus, hbonus, hseized⟩ :=
      payout_eq_ok.mpr ⟨hpayable, hpayout⟩
    obtain ⟨start, hstart, hstart'⟩ := exists_healthFactor hscore
    obtain ⟨ending, hending, hending'⟩ := exists_healthFactor hscore'
    have hlow : start.toNat < 10 ^ 18 :=
      hstart'.trans_lt (Lending.Terms.scoreOf_lt_threshold.mpr hunhealthy)
    refine ⟨(), _, ⟨hpos, rfl⟩, hstatus, _, ⟨start, _, ⟨⟨hscore, hstart'⟩, rfl⟩, (), _, ⟨hlow, rfl⟩,
      equal, _, ⟨hequal, rfl⟩, scaled, _, ⟨hscaled, rfl⟩, bonus, _, ⟨hbonus, rfl⟩,
      seized, _, ⟨hseized, rfl⟩, (), _, ⟨hcover, hpay, rfl⟩, (), _, ⟨hrepay, rfl⟩,
      ending, _, ⟨⟨hscore', hending'⟩, rfl⟩, (), _, ⟨?_, rfl⟩,
      ⟨hscoreCaller, hcaller⟩, rfl⟩, heq⟩
    rw [hstart', hending']
    exact hrise

end DefiStablecoin.DSCEngine
