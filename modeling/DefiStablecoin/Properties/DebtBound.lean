import DefiStablecoin.Properties.Conversions
import DefiStablecoin.Properties.Liquidation
import DefiStablecoin.System.Surroundings

/-!
# Debts that can always be priced

No line of the engine bounds a debt, but a mint computes the health factor of the
debt it leaves: the scaled value that this divides by the debt fits a word, and a
healthy debt is at most half the value.  Nothing else adds debt, so the bound
outlives every later price, and the payout for a recorded debt never overflows.
-/

namespace DefiStablecoin

open Solidity OpenZeppelin OracleLib DSCEngine World

def DebtsFit (w : World) : Prop := ∀ user, (w.s_DSCMinted user).toNat * 10 ^ 18 < 2 ^ 256

theorem mintDsc_keeps_debtsFit (msgSender : Address) (amount : UInt256) :
    Tx.Keeps DebtsFit (mintDsc msgSender amount) := by
  intro w _ w' hok hw
  obtain ⟨hpos, _, hfits, hscore, hhealthy, hissue, rfl⟩ := mintDsc_eq_ok.mp hok
  have hmove : Move msgSender w ((w.lend msgSender amount).issue msgSender amount) :=
    .borrow hpos hfits hscore hhealthy hissue
  exact hmove.debt_lt hw

theorem _burnDsc_keeps_debtsFit (amount : UInt256) (onBehalfOf dscFrom : Address) :
    Tx.Keeps DebtsFit (_burnDsc amount onBehalfOf dscFrom) := by
  intro w _ w' hok hw
  obtain ⟨hrepay, rfl⟩ := _burnDsc_eq_ok.mp hok
  have hmove : Move dscFrom w (repaid onBehalfOf dscFrom amount w) := .repay hrepay
  exact hmove.debt_lt hw

theorem survives_debtsFit : Survives DebtsFit where
  setStatus _ _ hw := hw
  setCollateral _ _ _ _ hw := hw
  mintDsc := mintDsc_keeps_debtsFit
  _burnDsc := _burnDsc_keeps_debtsFit

namespace Deployment

variable {d : Deployment} {w : World}

theorem debtsFit_of_reachable (h : d.Reachable w) : DebtsFit w :=
  h.invariant survives_debtsFit (fun _ _ hstorage hv user => by rw [hstorage]; exact hv user)
    sound_genesis.debt_lt

theorem exists_payout {token : Address} {debtToCover : UInt256} {P : ℕ}
    (hpriced : PricedAt w token P) (hdebt : debtToCover.toNat * 10 ^ 18 < 2 ^ 256) :
    ∃ equal, getTokenAmountFromUsd token debtToCover w = .ok equal ∧
      ∃ scaled, checkedMul (ε := Revert) equal LIQUIDATION_BONUS = .ok scaled ∧
      ∃ bonus, checkedDiv (ε := Revert) scaled LIQUIDATION_PRECISION = .ok bonus ∧
      ∃ seized, checkedAdd (ε := Revert) equal bonus = .ok seized := by
  have hbonus := tokenAmount_mul_ten_lt hpriced.price_ne_zero hdebt
  have hlt : payout (w.market.price token) debtToCover.toNat < 2 ^ 256 := by
    unfold payout
    omega
  have hpayable : w.market.Payable token debtToCover.toNat :=
    ⟨hpriced.quoted, hpriced.price_ne_zero, hdebt, hbonus⟩
  obtain ⟨equal, hequal, scaled, hscaled, bonus, hbonus, hseized⟩ :=
    payout_eq_ok.mpr ⟨hpayable, (rfl : (BitVec.ofNatLT _ hlt : UInt256).toNat = _)⟩
  exact ⟨equal, hequal, scaled, hscaled, bonus, hbonus, _, hseized⟩

/-- **The payout for a recorded debt never overflows**: in every reachable state all
debts can be scaled, and whatever a price has become since they were minted, the
payout for any part of a debt can be computed at it. -/
theorem payout_of_reachable (d : Deployment) (w : World) (h : d.Reachable w) :
    (∀ user, (w.s_DSCMinted user).toNat * 10 ^ 18 < 2 ^ 256) ∧
    ∀ (user token : Address) (debtToCover : UInt256) (round : RoundData),
      debtToCover ≤ w.s_DSCMinted user → w.feed (w.s_priceFeeds token) = some round →
      Fresh w.timestamp round → 0 < round.answer.toInt →
      round.answer.toInt * 10 ^ 10 < 2 ^ 256 →
      ∃ equal, getTokenAmountFromUsd token debtToCover w = .ok equal ∧
        ∃ scaled, checkedMul (ε := Revert) equal LIQUIDATION_BONUS = .ok scaled ∧
        ∃ bonus, checkedDiv (ε := Revert) scaled LIQUIDATION_PRECISION = .ok bonus ∧
        ∃ seized, checkedAdd (ε := Revert) equal bonus = .ok seized := by
  have hdebts := debtsFit_of_reachable h
  refine ⟨hdebts, fun user token debtToCover round hle hfeed hfresh hpos hfits => ?_⟩
  have hdebt : debtToCover.toNat * 10 ^ 18 < 2 ^ 256 :=
    (Nat.mul_le_mul_right _ (BitVec.le_def.mp hle)).trans_lt (hdebts user)
  obtain ⟨p, hp⟩ := Int.eq_ofNat_of_zero_le hpos.le
  have hscaled : ((p * 10 ^ 10 : ℕ) : ℤ) = round.answer.toInt * 10 ^ 10 := by
    rw [hp]
    norm_cast
  have hlt : p * 10 ^ 10 < 2 ^ 256 := by exact_mod_cast hscaled.trans_lt hfits
  exact exists_payout (pricedAt_of_round hfeed hfresh hpos hscaled hlt) hdebt

/-- At the lowest price of WETH that is not zero the user's debt of $10000 can still be
priced. -/
theorem payout_of_reachable_crash :
    let w := anvil.run (crash 1)
    ∃ equal, getTokenAmountFromUsd weth (w.s_DSCMinted USER) w = .ok equal ∧
      ∃ scaled, checkedMul (ε := Revert) equal LIQUIDATION_BONUS = .ok scaled ∧
      ∃ bonus, checkedDiv (ε := Revert) scaled LIQUIDATION_PRECISION = .ok bonus ∧
      ∃ seized, checkedAdd (ε := Revert) equal bonus = .ok seized := by
  intro w
  have hfeed : w.feed (w.s_priceFeeds weth) = some (mockRound 1) := rfl
  exact (payout_of_reachable anvil w (reachable_run anvil (crash 1))).2 USER weth _ _
    (BitVec.le_refl _) hfeed (by decide) (by decide) (by decide)

end Deployment

end DefiStablecoin
