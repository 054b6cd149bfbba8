import DefiStablecoin.Lending.Backing
import DefiStablecoin.Properties.Custody
import DefiStablecoin.Properties.Oracle

/-!
# Liquidating a whole position

A liquidator that can pay the whole debt of an unhealthy user in one of its
collateral tokens succeeds exactly when the payout, the debt's worth and a tenth
on top, is covered by the deposit.  At 110% it always is; between 100% and 110%
only the two roundings can make up for what is missing.
-/

namespace DefiStablecoin

/-! ## The payout -/

/-- The payout is covered exactly when the debt is below a bound on what the
deposit is worth without the bonus. -/
theorem payout_le_iff {price debt deposited : ℕ} (hprice : price ≠ 0) :
    payout price debt ≤ deposited ↔
      debt * 10 ^ 18 < price * 10 ^ 10 * ((10 * deposited + 9) / 11 + 1) := by
  have hscaled : 0 < price * 10 ^ 10 := by omega
  have hbonus : payout price debt ≤ deposited ↔
      tokenAmount price debt < (10 * deposited + 9) / 11 + 1 := by
    unfold payout
    omega
  rw [hbonus, tokenAmount, Nat.div_lt_iff_lt_mul hscaled, Nat.mul_comm (_ + 1)]

/-- At 110% the payout is covered, however the conversions round. -/
theorem payout_le_of_band {price debt deposited : ℕ} (hdebt : debt ≠ 0)
    (hband : 11 * debt ≤ 10 * usdValue price deposited) : payout price debt ≤ deposited := by
  have hprice : price ≠ 0 := by
    rintro rfl
    simp only [usdValue, Nat.zero_mul, Nat.zero_div] at hband
    omega
  rw [payout_le_iff hprice]
  have hworth : usdValue price deposited * 10 ^ 18 ≤ price * 10 ^ 10 * deposited :=
    Nat.div_mul_le_self _ _
  have hbound : 10 * deposited + 10 ≤ 11 * ((10 * deposited + 9) / 11 + 1) := by omega
  have hscaled := Nat.mul_le_mul_left (price * 10 ^ 10) hbound
  rw [Nat.mul_add, Nat.mul_left_comm, Nat.mul_left_comm (price * 10 ^ 10) 11] at hscaled
  omega

/-- The payout of a bounded debt never overflows before it is added up. -/
theorem tokenAmount_mul_ten_lt {price debt : ℕ} (hprice : price ≠ 0)
    (hdebt : debt * 10 ^ 18 < 2 ^ 256) : tokenAmount price debt * 10 < 2 ^ 256 := by
  have hle : tokenAmount price debt ≤ debt * 10 ^ 18 / 10 ^ 10 :=
    Nat.div_le_div_left (Nat.le_mul_of_pos_left _ (Nat.pos_of_ne_zero hprice)) (by decide)
  omega

namespace Deployment

open Solidity OpenZeppelin DSCEngine World

/-- A liquidator that is healthy and can pay the whole debt of a user. -/
structure CanPayAll (w : World) (user liquidator : Address) : Prop where
  indebted : 0 < (w.s_DSCMinted user).toNat
  healthy : ∃ factor, getHealthFactor liquidator w = .ok factor ∧ MIN_HEALTH_FACTOR ≤ factor
  other : liquidator ≠ user
  balance : (w.s_DSCMinted user).toNat ≤ ((w.token w.i_dsc)._balances liquidator).toNat
  allowance :
    (w.s_DSCMinted user).toNat ≤ ((w.token w.i_dsc)._allowances liquidator w.this).toNat

structure CanCoverAll (w : World) (user liquidator : Address) : Prop
    extends CanPayAll w user liquidator where
  unhealthy : ∃ factor, getHealthFactor user w = .ok factor ∧ factor < MIN_HEALTH_FACTOR

section Covered

variable {d : Deployment} {w : World} {token user liquidator : Address}

theorem scorable_of_getHealthFactor {factor : UInt256}
    (h : getHealthFactor user w = .ok factor) : w.market.Scorable w.book user :=
  (_healthFactor_eq_ok.mp h).1

theorem healthy_of_getHealthFactor {factor : UInt256} (h : getHealthFactor user w = .ok factor)
    (hmin : MIN_HEALTH_FACTOR ≤ factor) : w.Healthy user := by
  rw [BitVec.le_def, toNat_MIN_HEALTH_FACTOR, (_healthFactor_eq_ok.mp h).2] at hmin
  exact Lending.Terms.threshold_le_scoreOf.mp hmin

theorem unhealthy_of_getHealthFactor {factor : UInt256}
    (h : getHealthFactor user w = .ok factor) (hmin : factor < MIN_HEALTH_FACTOR) :
    ¬w.Healthy user := by
  rw [BitVec.lt_def, toNat_MIN_HEALTH_FACTOR, (_healthFactor_eq_ok.mp h).2] at hmin
  exact Lending.Terms.scoreOf_lt_threshold.mp hmin

namespace CanCoverAll

variable (hall : CanCoverAll w user liquidator)

include hall

theorem scorable_user : w.market.Scorable w.book user :=
  have ⟨_, hfactor, _⟩ := hall.unhealthy
  scorable_of_getHealthFactor hfactor

theorem scorable_liquidator : w.market.Scorable w.book liquidator :=
  have ⟨_, hfactor, _⟩ := hall.healthy
  scorable_of_getHealthFactor hfactor

theorem not_healthy_user : ¬w.Healthy user :=
  have ⟨_, hfactor, hlow⟩ := hall.unhealthy
  unhealthy_of_getHealthFactor hfactor hlow

theorem healthy_liquidator : w.Healthy liquidator :=
  have ⟨_, hfactor, hmin⟩ := hall.healthy
  healthy_of_getHealthFactor hfactor hmin

theorem debt_ne_zero : w.s_DSCMinted user ≠ 0 := fun hzero =>
  hall.indebted.ne' (toNat_eq_zero.mpr hzero)

theorem liquidator_ne_zero (h : w.TokensSound) : liquidator ≠ 0 :=
  (h.wellFormed w.i_dsc).ne_zero_of_balance (hall.indebted.trans_le hall.balance)

end CanCoverAll

/-- The world when the collateral has left the engine and the debt is still owed. -/
def seizedFrom (user token liquidator : Address) (seized : UInt256) (w : World) : World :=
  ((w.setStatus _ENTERED).debit user token seized).pay token w.this liquidator seized

theorem canPay_of_cover (h : d.Sound w) (hall : CanCoverAll w user liquidator) {seized : UInt256}
    (hheld : (w.s_collateralDeposited user token).toNat ≤ w.holdings token)
    (hcover : seized.toNat ≤ (w.s_collateralDeposited user token).toNat) :
    w.CanPay token w.this liquidator seized :=
  ⟨h.this_ne_zero, hall.liquidator_ne_zero h.tokens, hcover.trans hheld⟩

/-- The payout leaves the liquidator's stablecoins alone, so the debt can be repaid after it. -/
theorem canRepay_seizedFrom (h : d.Sound w) (hall : CanCoverAll w user liquidator)
    (htoken : token ≠ w.i_dsc) {seized : UInt256}
    (hpay : w.CanPay token w.this liquidator seized) :
    CanRepay user liquidator (w.s_DSCMinted user) (seizedFrom user token liquidator seized w) := by
  have htokens : (seizedFrom user token liquidator seized w).TokensSound :=
    TokensSound.pay (w := (w.setStatus _ENTERED).debit user token seized)
      ⟨h.tokens.wellFormed, h.tokens.noAllowance⟩ hpay
  have hdsc : (seizedFrom user token liquidator seized w).token w.i_dsc = w.token w.i_dsc :=
    Function.update_of_ne htoken.symm _ _
  have hthis : w.this ≠ 0 := h.this_ne_zero
  have howner : w.dscOwner = w.this := h.owner_this
  refine htokens.canRepay howner hthis hall.debt_ne_zero le_rfl ?_ ?_
  · exact hall.balance.trans (congrArg (fun k => (k._balances liquidator).toNat) hdsc).ge
  · exact hall.allowance.trans
      (congrArg (fun k => (k._allowances liquidator w.this).toNat) hdsc).ge

theorem healthFactorOf_lt_of_debt_eq_zero {w' : World} (hunhealthy : ¬w.Healthy user)
    (hdebt : w'.book.debt user = 0) : w.healthFactorOf user < w'.healthFactorOf user := by
  have hstart : w.healthFactorOf user < 10 ^ 18 :=
    Lending.Terms.scoreOf_lt_threshold.mpr hunhealthy
  have hend : w'.healthFactorOf user = 2 ^ 256 - 1 := if_pos hdebt
  rw [hend]
  exact hstart.trans (by decide)

theorem liquidate_covered (h : d.Sound w) (hall : CanCoverAll w user liquidator)
    (htoken : token ≠ w.i_dsc) (hquoted : w.market.Quoted token)
    (hprice : w.market.price token ≠ 0)
    (hheld : (w.s_collateralDeposited user token).toNat ≤ w.holdings token)
    (hpayout : payout (w.market.price token) (w.s_DSCMinted user).toNat ≤
      (w.s_collateralDeposited user token).toNat) :
    ∃ w', liquidate IERC20.standard liquidator token user (w.s_DSCMinted user) w = .ok ((), w') ∧
      w'.s_DSCMinted user = 0 ∧
      (w'.s_collateralDeposited user token).toNat +
          payout (w.market.price token) (w.s_DSCMinted user).toNat =
        (w.s_collateralDeposited user token).toNat := by
  have hpayable : w.market.Payable token (w.s_DSCMinted user).toNat :=
    ⟨hquoted, hprice, h.debt_lt user, tokenAmount_mul_ten_lt hprice (h.debt_lt user)⟩
  let seized : UInt256 := BitVec.ofNatLT _
    (hpayout.trans_lt (w.s_collateralDeposited user token).isLt)
  have hpay : w.CanPay token w.this liquidator seized := canPay_of_cover h hall hheld hpayout
  have hrepay := canRepay_seizedFrom h hall htoken hpay
  let w₃ := repaid user liquidator (w.s_DSCMinted user) (seizedFrom user token liquidator seized w)
  have hbook : w₃.book =
      (w.book.withdraw user token seized.toNat).repay user (w.s_DSCMinted user).toNat :=
    book_liquidated liquidator hpayout le_rfl
  -- the user ends without debt, and of the liquidator nothing has changed
  have hdebt : w₃.book.debt user = 0 := by
    rw [hbook]
    exact (Function.update_self ..).trans (Nat.sub_self _)
  have huntouched : w.book.Untouched liquidator w₃.book := by
    rw [hbook]
    exact w.book.untouched_withdraw_repay hall.other token _ _
  have hshrunk : ∀ t, w₃.book.collateral user t ≤ w.book.collateral user t := by
    rw [hbook]
    exact fun t => w.book.withdraw_le user user token t _
  have hscoreUser : w₃.market.Scorable w₃.book user :=
    hall.scorable_user.mono hshrunk (hdebt.trans_le (Nat.zero_le _))
  have hscoreLiquidator : w₃.market.Scorable w₃.book liquidator :=
    hall.scorable_liquidator.mono (fun t => (congrFun huntouched.1 t).le) huntouched.2.le
  have hcaller : w₃.Healthy liquidator := huntouched.healthy_iff.mpr hall.healthy_liquidator
  have hopen : w._status ≠ _ENTERED := by
    rw [h.status_eq]
    decide
  have hrise := healthFactorOf_lt_of_debt_eq_zero hall.not_healthy_user hdebt
  have hok : liquidate IERC20.standard liquidator token user (w.s_DSCMinted user) w =
      .ok ((), w₃.setStatus _NOT_ENTERED) := by
    rw [← IERC20.hooked_id, liquidate_eq_ok]
    exact ⟨hall.debt_ne_zero, hopen, hall.scorable_user, hall.not_healthy_user, hpayable, seized,
      _, _, w₃, rfl, hpayout, rfl, hpay, rfl, hrepay, rfl, hscoreUser, hrise, hscoreLiquidator,
      hcaller, rfl⟩
  have hleft : w₃.book.collateral user token =
      (w.s_collateralDeposited user token).toNat - seized.toNat := by
    rw [hbook]
    simp [Lending.Book.withdraw, Lending.Book.repay, book]
  exact ⟨_, hok, toNat_eq_zero.mp hdebt,
    (congrArg (· + seized.toNat) hleft).trans (Nat.sub_add_cancel hpayout)⟩

theorem payout_le_of_liquidate {debtToCover : UInt256} {r : Unit × World}
    (h : liquidate IERC20.standard liquidator token user debtToCover w = .ok r) :
    payout (w.market.price token) debtToCover.toNat ≤
      (w.s_collateralDeposited user token).toNat := by
  rw [← IERC20.hooked_id, liquidate_eq_ok] at h
  obtain ⟨_, _, _, _, _, seized, _, _, _, hseized, hcover, _⟩ := h
  exact hseized ▸ hcover

/-- In a reachable state the whole debt can be liquidated exactly when the payout is covered. -/
theorem liquidate_all_iff (d : Deployment) (actions : List (Action d))
    {value : UInt256} (hlisted : token ∈ d.s_tokenAddresses)
    (hall : CanCoverAll (d.run actions) user liquidator)
    (hvalue : getUsdValue token ((d.run actions).s_collateralDeposited user token)
      (d.run actions) = .ok value)
    (hprice : (d.run actions).market.price token ≠ 0) :
    (∃ w', liquidate IERC20.standard liquidator token user
        ((d.run actions).s_DSCMinted user) (d.run actions) = .ok ((), w') ∧
      w'.s_DSCMinted user = 0 ∧
      (w'.s_collateralDeposited user token).toNat +
          payout ((d.run actions).market.price token) ((d.run actions).s_DSCMinted user).toNat =
        ((d.run actions).s_collateralDeposited user token).toNat) ↔
      payout ((d.run actions).market.price token) ((d.run actions).s_DSCMinted user).toNat ≤
        ((d.run actions).s_collateralDeposited user token).toNat := by
  have hsound := d.sound_run actions
  have htoken : token ≠ (d.run actions).i_dsc := by
    rw [hsound.dsc_eq]
    rintro rfl
    exact d.dsc_not_mem hlisted
  constructor
  · rintro ⟨w', hok, _⟩
    exact payout_le_of_liquidate hok
  · exact liquidate_covered hsound hall htoken (getUsdValue_eq_ok.mp hvalue).1 hprice
      (d.holdings_ge actions user token)

end Covered

/-- **Above 110% every position can be liquidated at once.** -/
theorem liquidate_above_band (d : Deployment) (actions : List (Action d))
    (user liquidator token : Address) (value : UInt256) (hlisted : token ∈ d.s_tokenAddresses)
    (hall : CanCoverAll (d.run actions) user liquidator)
    (hvalue : getUsdValue token ((d.run actions).s_collateralDeposited user token)
      (d.run actions) = .ok value)
    (hband : 11 * ((d.run actions).s_DSCMinted user).toNat ≤ 10 * value.toNat) :
    ∃ w', liquidate IERC20.standard liquidator token user
        ((d.run actions).s_DSCMinted user) (d.run actions) = .ok ((), w') ∧
      w'.s_DSCMinted user = 0 ∧
      (w'.s_collateralDeposited user token).toNat +
          payout ((d.run actions).market.price token) ((d.run actions).s_DSCMinted user).toNat =
        ((d.run actions).s_collateralDeposited user token).toNat := by
  rw [(getUsdValue_eq_ok.mp hvalue).2.2] at hband
  have hdebt := hall.indebted
  have hprice : (d.run actions).market.price token ≠ 0 := by
    intro hzero
    simp only [hzero, usdValue, Nat.zero_mul, Nat.zero_div] at hband
    omega
  exact (liquidate_all_iff d actions hlisted hall hvalue hprice).mpr
    (payout_le_of_band hdebt.ne' hband)

/-- At $1500 the user's debt of $10000 is backed by $15000. -/
theorem liquidate_above_band_crash :
    let w := anvil.run (crash (1500 * 10 ^ 8))
    ∃ w', liquidate IERC20.standard liquidator weth USER (w.s_DSCMinted USER) w = .ok ((), w') ∧
      w'.s_DSCMinted USER = 0 ∧
      (w'.s_collateralDeposited USER weth).toNat +
          payout (w.market.price weth) (w.s_DSCMinted USER).toNat =
        (w.s_collateralDeposited USER weth).toNat :=
  liquidate_above_band anvil (crash (1500 * 10 ^ 8)) USER liquidator weth (15000 * 10 ^ 18)
    (by decide)
    ⟨⟨by decide +kernel, ⟨1500000000000000000, by decide +kernel, by decide⟩, by decide,
      by decide +kernel, by decide +kernel⟩, 750000000000000000, by decide +kernel, by decide⟩
    (by decide +kernel) (by decide +kernel)

theorem CanPayAll.canCoverAll {d : Deployment} {actions : List (Action d)}
    {user liquidator token : Address} {value : UInt256}
    (hall : CanPayAll (d.run actions) user liquidator)
    (honly : ∀ t ∈ d.s_tokenAddresses, t ≠ token →
      (d.run actions).s_collateralDeposited user t = 0)
    (hvalue : getUsdValue token ((d.run actions).s_collateralDeposited user token)
      (d.run actions) = .ok value)
    (hlow : value.toNat < 2 * ((d.run actions).s_DSCMinted user).toNat) :
    CanCoverAll (d.run actions) user liquidator := by
  have hsound := d.sound_run actions
  obtain ⟨_, hhealthy, _⟩ := hall.healthy
  have hquoted := quoted_of_scorable (scorable_of_getHealthFactor hhealthy)
  obtain ⟨_, hfits, hworth⟩ := getUsdValue_eq_ok.mp hvalue
  have hnone : ∀ t ∈ (d.run actions).s_collateralTokens, t ≠ token →
      (d.run actions).book.collateral user t = 0 := fun t ht hne =>
    toNat_eq_zero.mpr (honly t (hsound.collateralTokens_eq ▸ ht) hne)
  have hnodup : (d.run actions).s_collateralTokens.Nodup := hsound.collateralTokens_eq ▸ d.nodup
  have hwhole : (d.run actions).market.terms.value ((d.run actions).book.collateral user) ≤
      value.toNat :=
    (Lending.Terms.value_le_of_only hnodup hnone).trans_eq hworth.symm
  have hdebt := hsound.debt_lt user
  have hscore : (d.run actions).market.Scorable (d.run actions).book user := by
    refine ⟨⟨fun t ht => ⟨hquoted t ht, ?_⟩, ?_⟩, fun _ => ?_⟩
    · by_cases heq : t = token
      · exact heq ▸ hfits
      · rw [hnone t ht heq, Nat.mul_zero]
        decide
    · exact hwhole.trans_lt value.isLt
    · omega
  obtain ⟨factor, hfactor, hscored⟩ := exists_healthFactor hscore
  refine ⟨hall, factor, hfactor, ?_⟩
  rw [BitVec.lt_def, hscored, toNat_MIN_HEALTH_FACTOR]
  apply Lending.Terms.scoreOf_lt_threshold.mpr
  intro hcovered
  have hratio : 2 * ((d.run actions).s_DSCMinted user).toNat ≤ _ := hcovered
  omega

/-- **A position in one token that is worth more than its debt, and less than twice, can
be liquidated at once exactly when ten elevenths of it are worth the debt**, up to the two
roundings. -/
theorem liquidate_over_debt_iff (d : Deployment) (actions : List (Action d))
    (user liquidator token : Address) (value : UInt256) (hlisted : token ∈ d.s_tokenAddresses)
    (hall : CanPayAll (d.run actions) user liquidator)
    (honly : ∀ t ∈ d.s_tokenAddresses, t ≠ token →
      (d.run actions).s_collateralDeposited user t = 0)
    (hvalue : getUsdValue token ((d.run actions).s_collateralDeposited user token)
      (d.run actions) = .ok value)
    (hover : ((d.run actions).s_DSCMinted user).toNat < value.toNat)
    (hlow : value.toNat < 2 * ((d.run actions).s_DSCMinted user).toNat) :
    (∃ w', liquidate IERC20.standard liquidator token user
        ((d.run actions).s_DSCMinted user) (d.run actions) = .ok ((), w') ∧
      w'.s_DSCMinted user = 0 ∧
      (w'.s_collateralDeposited user token).toNat +
          payout ((d.run actions).market.price token) ((d.run actions).s_DSCMinted user).toNat =
        ((d.run actions).s_collateralDeposited user token).toNat) ↔
      ((d.run actions).s_DSCMinted user).toNat * 10 ^ 18 <
        (d.run actions).market.price token * 10 ^ 10 *
          ((10 * ((d.run actions).s_collateralDeposited user token).toNat + 9) / 11 + 1) := by
  have hprice : (d.run actions).market.price token ≠ 0 := by
    intro hzero
    rw [(getUsdValue_eq_ok.mp hvalue).2.2, hzero] at hover
    simp only [usdValue, Nat.zero_mul, Nat.zero_div] at hover
    omega
  have hcover := hall.canCoverAll honly hvalue hlow
  rw [liquidate_all_iff d actions hlisted hcover hvalue hprice, payout_le_iff hprice]

theorem forall_mem_anvil_of_wbtc {p : Address → Prop} (h : p wbtc) :
    ∀ t ∈ anvil.s_tokenAddresses, t ≠ weth → p t :=
  forall_mem_anvil (fun hne => absurd rfl hne) fun _ => h

/-- One unit of WETH, worth less than $2000 of the smallest debts. -/
def dust : List (Action anvil) :=
  [updateAnswer (4000 * 10 ^ 8)] ++ openPosition USER 1 1900 ++
    openPosition liquidator 10 1900 ++ [updateAnswer (2000 * 10 ^ 8)]

/-- The worth of so small a debt rounds to nothing, and the liquidation returns. -/
theorem liquidate_over_debt_dust :
    let w := anvil.run dust
    ∃ w', liquidate IERC20.standard liquidator weth USER (w.s_DSCMinted USER) w = .ok ((), w') ∧
      w'.s_DSCMinted USER = 0 ∧
      (w'.s_collateralDeposited USER weth).toNat +
          payout (w.market.price weth) (w.s_DSCMinted USER).toNat =
        (w.s_collateralDeposited USER weth).toNat :=
  (liquidate_over_debt_iff anvil dust USER liquidator weth 2000 (by decide)
    ⟨by decide +kernel, ⟨5263157894736842105, by decide +kernel, by decide⟩, by decide,
      by decide +kernel, by decide +kernel⟩
    (forall_mem_anvil_of_wbtc (by decide +kernel)) (by decide +kernel) (by decide +kernel)
    (by decide +kernel)).mpr (by decide +kernel)

/-- At $1050 the debt of $10000 is backed by $10500, and the liquidation reverts. -/
theorem liquidate_reverts_crash :
    let w := anvil.run (crash (1050 * 10 ^ 8))
    weth ∈ anvil.s_tokenAddresses ∧ CanCoverAll w USER liquidator ∧
    (∀ t, t ≠ weth → w.s_collateralDeposited USER t = 0) ∧
    getUsdValue weth (w.s_collateralDeposited USER weth) w = .ok (10500 * 10 ^ 18) ∧
    w.s_DSCMinted USER = 10000 * 10 ^ 18 ∧
    ¬Tx.Returns (liquidate IERC20.standard liquidator weth USER (w.s_DSCMinted USER)) w := by
  refine ⟨by decide, ?_, fun t ht => ?_, by decide +kernel⟩
  · exact ⟨⟨by decide +kernel, ⟨1050000000000000000, by decide +kernel, by decide⟩, by decide,
      by decide +kernel, by decide +kernel⟩, 525000000000000000, by decide +kernel, by decide⟩
  · by_cases hwbtc : t = wbtc
    · subst hwbtc
      decide +kernel
    · have hsound := anvil.sound_run (crash (1050 * 10 ^ 8))
      have hmem : t ∉ anvil.s_tokenAddresses := by simp [anvil, ht, hwbtc]
      refine hsound.unlisted t ?_ USER
      rw [hsound.priceFeeds_eq]
      exact anvil.genesis_priceFeeds_of_not_mem hmem

end Deployment

end DefiStablecoin
