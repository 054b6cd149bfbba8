import DefiStablecoin.Proofs.Calls

/-!
# Transactions over standard tokens

Between transactions the guard is open.  Over standard collateral tokens every
transaction then returns under conditions on the world that it finds alone, and
leaves a world that is known beforehand: the guard's round trip leaves no trace.
-/

namespace DefiStablecoin.DSCEngine

open Solidity OpenZeppelin World

variable {w w' : World} {msgSender token user : Address} {amount : UInt256}

/-! ## What the transactions leave -/

def deposited (user token : Address) (amount : UInt256) (w : World) : World :=
  (w.credit user token amount).collect token w.this user amount

def redeemed (source recipient token : Address) (amount : UInt256) (w : World) : World :=
  (w.debit source token amount).pay token w.this recipient amount

def minted (user : Address) (amount : UInt256) (w : World) : World :=
  (w.lend user amount).issue user amount

def liquidated (user liquidator token : Address) (seized debtToCover : UInt256) (w : World) :
    World :=
  repaid user liquidator debtToCover (redeemed user liquidator token seized w)

theorem book_of_liquidated {w : World} {user token : Address} {seized debtToCover : UInt256}
    (liquidator : Address)
    (hcover : seized.toNat ≤ (w.s_collateralDeposited user token).toNat)
    (howed : debtToCover.toNat ≤ (w.s_DSCMinted user).toNat) :
    (liquidated user liquidator token seized debtToCover w).book =
      (w.book.withdraw user token seized.toNat).repay user debtToCover.toNat := by
  have hdebit : (redeemed user liquidator token seized w).book =
      w.book.withdraw user token seized.toNat := book_debit hcover
  rw [← hdebit]
  exact book_forgive (w := redeemed user liquidator token seized w) howed

theorem setStatus_self {status : UInt256} (h : w._status = status) : w.setStatus status = w := by
  subst h
  rfl

/-! ## When they return -/

theorem open_of_status (h : w._status = _NOT_ENTERED) : w._status ≠ _ENTERED := by
  rw [h]
  decide

section Open

variable (hstatus : w._status = _NOT_ENTERED)

include hstatus

theorem depositCollateral_standard_eq_ok :
    depositCollateral IERC20.standard msgSender token amount w = .ok ((), w') ↔
      amount ≠ 0 ∧ w.s_priceFeeds token ≠ 0 ∧
      (w.s_collateralDeposited msgSender token).toNat + amount.toNat < 2 ^ 256 ∧
      w.CanCollect token w.this msgSender amount ∧ w' = deposited msgSender token amount w := by
  have hend := setStatus_self (w := deposited msgSender token amount w) hstatus
  rw [← IERC20.hooked_id, depositCollateral_eq_ok]
  constructor
  · rintro ⟨hpos, hallowed, _, hfits, _, rfl, hcollect, rfl⟩
    exact ⟨hpos, hallowed, hfits, hcollect, hend⟩
  · rintro ⟨hpos, hallowed, hfits, hcollect, rfl⟩
    exact ⟨hpos, hallowed, open_of_status hstatus, hfits, _, rfl, hcollect, hend.symm⟩

theorem redeemCollateral_standard_eq_ok :
    redeemCollateral IERC20.standard msgSender token amount w = .ok ((), w') ↔
      amount ≠ 0 ∧ amount.toNat ≤ (w.s_collateralDeposited msgSender token).toNat ∧
      w.CanPay token w.this msgSender amount ∧
      w.market.Scorable (redeemed msgSender msgSender token amount w).book msgSender ∧
      (redeemed msgSender msgSender token amount w).Healthy msgSender ∧
      w' = redeemed msgSender msgSender token amount w := by
  have hend := setStatus_self (w := redeemed msgSender msgSender token amount w) hstatus
  rw [← IERC20.hooked_id, redeemCollateral_eq_ok]
  constructor
  · rintro ⟨hpos, _, hcover, _, _, rfl, hpay, rfl, hscore, hhealthy, rfl⟩
    exact ⟨hpos, hcover, hpay, hscore, hhealthy, hend⟩
  · rintro ⟨hpos, hcover, hpay, hscore, hhealthy, rfl⟩
    exact ⟨hpos, open_of_status hstatus, hcover, _, _, rfl, hpay, rfl, hscore, hhealthy, hend.symm⟩

theorem mintDsc_open_eq_ok :
    mintDsc msgSender amount w = .ok ((), w') ↔
      amount ≠ 0 ∧ (w.s_DSCMinted msgSender).toNat + amount.toNat < 2 ^ 256 ∧
      w.market.Scorable (minted msgSender amount w).book msgSender ∧
      (minted msgSender amount w).Healthy msgSender ∧ w.CanIssue msgSender amount ∧
      w' = minted msgSender amount w := by
  have hend := setStatus_self (w := minted msgSender amount w) hstatus
  rw [mintDsc_eq_ok]
  constructor
  · rintro ⟨hpos, _, hfits, hscore, hhealthy, hissue, rfl⟩
    exact ⟨hpos, hfits, hscore, hhealthy, hissue, hend⟩
  · rintro ⟨hpos, hfits, hscore, hhealthy, hissue, rfl⟩
    exact ⟨hpos, open_of_status hstatus, hfits, hscore, hhealthy, hissue, hend.symm⟩

theorem liquidate_standard_eq_ok {debtToCover : UInt256} :
    liquidate IERC20.standard msgSender token user debtToCover w = .ok ((), w') ↔
      debtToCover ≠ 0 ∧ w.market.Scorable w.book user ∧ ¬w.Healthy user ∧
      w.market.Payable token debtToCover.toNat ∧
      ∃ seized : UInt256, seized.toNat = payout (w.market.price token) debtToCover.toNat ∧
        seized.toNat ≤ (w.s_collateralDeposited user token).toNat ∧
        w.CanPay token w.this msgSender seized ∧
        CanRepay user msgSender debtToCover (redeemed user msgSender token seized w) ∧
        w.market.Scorable (liquidated user msgSender token seized debtToCover w).book user ∧
        w.healthFactorOf user <
          (liquidated user msgSender token seized debtToCover w).healthFactorOf user ∧
        w.market.Scorable (liquidated user msgSender token seized debtToCover w).book msgSender ∧
        (liquidated user msgSender token seized debtToCover w).Healthy msgSender ∧
        w' = liquidated user msgSender token seized debtToCover w := by
  rw [← IERC20.hooked_id, liquidate_eq_ok]
  constructor
  · rintro ⟨hpos, _, hscore, hunhealthy, hpayable, seized, _, _, _, hpayout, hcover, rfl, hpay,
      rfl, hrepay, rfl, hscore', hrise, hscoreCaller, hcaller, rfl⟩
    have hend := setStatus_self (w := liquidated user msgSender token seized debtToCover w) hstatus
    exact ⟨hpos, hscore, hunhealthy, hpayable, seized, hpayout, hcover, hpay, hrepay, hscore',
      hrise, hscoreCaller, hcaller, hend⟩
  · rintro ⟨hpos, hscore, hunhealthy, hpayable, seized, hpayout, hcover, hpay, hrepay, hscore',
      hrise, hscoreCaller, hcaller, rfl⟩
    have hend := setStatus_self (w := liquidated user msgSender token seized debtToCover w) hstatus
    exact ⟨hpos, open_of_status hstatus, hscore, hunhealthy, hpayable, seized, _, _, _, hpayout,
      hcover, rfl, hpay, rfl, hrepay, rfl, hscore', hrise, hscoreCaller, hcaller, hend.symm⟩

end Open

end DefiStablecoin.DSCEngine
