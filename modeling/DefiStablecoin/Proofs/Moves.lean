import DefiStablecoin.Proofs.Accounting
import DefiStablecoin.Proofs.Standard
import Mathlib.Logic.Relation

/-!
# What a call does to the ledgers

Over standard collateral tokens every call of the engine is a sequence of moves.
A move changes a position together with the tokens that stand for it, so each of
the books that the engine keeps balances across a move, and hence across a call.
-/

namespace DefiStablecoin.DSCEngine

open Solidity OpenZeppelin World

/-- One change of a position, and the tokens moved for it. -/
inductive Move (msgSender : Address) (w : World) : World → Prop
  | deposit {token : Address} {amount : UInt256} (hallowed : w.s_priceFeeds token ≠ 0)
      (hfits : (w.s_collateralDeposited msgSender token).toNat + amount.toNat < 2 ^ 256)
      (hcollect : w.CanCollect token w.this msgSender amount) :
      Move msgSender w ((w.credit msgSender token amount).collect token w.this msgSender amount)
  | withdraw {token source : Address} {amount : UInt256}
      (hcover : amount.toNat ≤ (w.s_collateralDeposited source token).toNat)
      (hpay : w.CanPay token w.this msgSender amount) :
      Move msgSender w ((w.debit source token amount).pay token w.this msgSender amount)
  | borrow {amount : UInt256} (hpos : amount ≠ 0)
      (hfits : (w.s_DSCMinted msgSender).toNat + amount.toNat < 2 ^ 256)
      (hscore : w.market.Scorable (w.lend msgSender amount).book msgSender)
      (hhealthy : (w.lend msgSender amount).Healthy msgSender)
      (hissue : w.CanIssue msgSender amount) :
      Move msgSender w ((w.lend msgSender amount).issue msgSender amount)
  | repay {onBehalfOf : Address} {amount : UInt256}
      (hrepay : CanRepay onBehalfOf msgSender amount w) :
      Move msgSender w (repaid onBehalfOf msgSender amount w)

/-- What one call of the engine never changes. -/
structure SameSetting (w w' : World) : Prop where
  this_eq : w'.this = w.this
  dsc_eq : w'.i_dsc = w.i_dsc
  owner_eq : w'.dscOwner = w.dscOwner
  status_eq : w'._status = w._status
  market_eq : w'.market = w.market

namespace SameSetting

variable {w w' w'' : World}

theorem refl (w : World) : SameSetting w w := ⟨rfl, rfl, rfl, rfl, rfl⟩

theorem trans (h : SameSetting w w') (h' : SameSetting w' w'') : SameSetting w w'' :=
  ⟨h'.this_eq.trans h.this_eq, h'.dsc_eq.trans h.dsc_eq, h'.owner_eq.trans h.owner_eq,
    h'.status_eq.trans h.status_eq, h'.market_eq.trans h.market_eq⟩

theorem symm (h : SameSetting w w') : SameSetting w' w :=
  ⟨h.this_eq.symm, h.dsc_eq.symm, h.owner_eq.symm, h.status_eq.symm, h.market_eq.symm⟩

theorem priceFeeds_eq (h : SameSetting w w') : w'.s_priceFeeds = w.s_priceFeeds :=
  congrArg Market.s_priceFeeds h.market_eq

theorem collateralTokens_eq (h : SameSetting w w') :
    w'.s_collateralTokens = w.s_collateralTokens :=
  congrArg Market.s_collateralTokens h.market_eq

end SameSetting

namespace Move

variable {w w' : World} {msgSender : Address}

theorem sameSetting (h : Move msgSender w w') : SameSetting w w' := by
  cases h <;> exact ⟨rfl, rfl, rfl, rfl, rfl⟩

theorem tokensSound (h : Move msgSender w w') (hw : w.TokensSound) : w'.TokensSound := by
  cases h with
  | deposit _ _ hcollect => exact hw.deposited hcollect
  | withdraw _ hpay => exact hw.redeemed hpay
  | borrow _ _ _ _ hissue => exact hw.minted hissue
  | repay hrepay => exact hw.repaid hrepay

theorem holdings_balance (h : Move msgSender w w') (hw : w.TokensSound)
    (hne : msgSender ≠ w.this) (t : Address) :
    w'.holdings t + w.deposits t = w.holdings t + w'.deposits t := by
  cases h with
  | @deposit token amount _ hfits hcollect =>
      have hheld := holdings_deposited hw hcollect hne t
      have hdeposited := deposits_credit hfits t
      calc _ = w.holdings t + (if t = token then amount.toNat else 0) + w.deposits t :=
            congrArg (· + w.deposits t) hheld
        _ = w.holdings t + (w.credit msgSender token amount).deposits t := by omega
        _ = _ := rfl
  | @withdraw token source amount hcover hpay =>
      have hheld := holdings_redeemed source hw hpay hne t
      have hdeposited := deposits_debit hcover t
      calc _ = (redeemed source msgSender token amount w).holdings t +
              ((w.debit source token amount).deposits t +
                (if t = token then amount.toNat else 0)) :=
            congrArg ((redeemed source msgSender token amount w).holdings t + ·) hdeposited.symm
        _ = (redeemed source msgSender token amount w).holdings t +
              (if t = token then amount.toNat else 0) +
                (w.debit source token amount).deposits t := by omega
        _ = w.holdings t + (w.debit source token amount).deposits t :=
            congrArg (· + (w.debit source token amount).deposits t) hheld
  | @borrow amount _ _ _ _ _ =>
      exact congrArg (· + w.deposits t)
        (holdings_issue (w := w.lend msgSender amount) hne t)
  | repay hrepay => exact congrArg (· + w.deposits t) (holdings_repaid hw hrepay hne t)

theorem debts_balance (h : Move msgSender w w') (hw : w.TokensSound) :
    w'.debts + w.supply = w.debts + w'.supply := by
  cases h with
  | deposit => exact congrArg (w.debts + ·) supply_deposited.symm
  | withdraw => exact congrArg (w.debts + ·) supply_redeemed.symm
  | @borrow amount _ hfits _ _ hissue =>
      have hsupply := supply_minted msgSender hissue.2.2.2
      have hdebts := debts_lend hfits
      calc _ = w.debts + amount.toNat + w.supply := congrArg (· + w.supply) hdebts
        _ = w.debts + (w.supply + amount.toNat) := by omega
        _ = _ := congrArg (w.debts + ·) hsupply.symm
  | repay hrepay =>
      have hsupply := supply_repaid hw hrepay
      have hdebts := debts_repaid hrepay
      omega

theorem unlisted (h : Move msgSender w w') {t : Address} (ht : w.s_priceFeeds t = 0)
    (hw : ∀ u, w.s_collateralDeposited u t = 0) (u : Address) :
    w'.s_collateralDeposited u t = 0 := by
  cases h with
  | @deposit token amount hallowed _ _ =>
      have hne : t ≠ token := fun heq => hallowed (heq ▸ ht)
      by_cases hu : u = msgSender
      · subst hu
        simpa [credit, collect, hne] using hw u
      · simpa [credit, collect, hu] using hw u
  | @withdraw token source amount hcover _ =>
      by_cases hu : u = source
      · subst hu
        by_cases htoken : t = token
        · subst htoken
          -- nothing is recorded, so nothing is withdrawn
          rw [hw u, toNat_zero, Nat.le_zero, toNat_eq_zero] at hcover
          simp [debit, pay, hw u, hcover]
        · simpa [debit, pay, htoken] using hw u
      · simpa [debit, pay, hu] using hw u
  | borrow => exact hw u
  | repay => exact hw u

theorem zero_deposited (h : Move msgSender w w')
    (hw : ∀ t, w.s_collateralDeposited 0 t = 0) (t : Address) :
    w'.s_collateralDeposited 0 t = 0 := by
  cases h with
  | deposit _ _ hcollect =>
      have hne : (0 : Address) ≠ msgSender := hcollect.2.1.symm
      simpa [credit, collect, hne] using hw t
  | @withdraw token source amount hcover _ =>
      by_cases hsource : 0 = source
      · subst hsource
        by_cases ht : t = token
        · subst ht
          rw [hw t, toNat_zero, Nat.le_zero, toNat_eq_zero] at hcover
          simp [debit, pay, hw t, hcover]
        · simpa [debit, pay, ht] using hw t
      · simpa [debit, pay, hsource] using hw t
  | borrow => exact hw t
  | repay => exact hw t

/-- The health check of a mint bounds the debt that it leaves; nothing else adds debt. -/
theorem debt_lt (h : Move msgSender w w')
    (hw : ∀ u, (w.s_DSCMinted u).toNat * 10 ^ 18 < 2 ^ 256) (u : Address) :
    (w'.s_DSCMinted u).toNat * 10 ^ 18 < 2 ^ 256 := by
  cases h with
  | deposit => exact hw u
  | withdraw => exact hw u
  | @borrow amount hpos hfits hscore hhealthy _ =>
      by_cases hu : u = msgSender
      · subst hu
        have hnew : ((w.lend u amount).s_DSCMinted u).toNat =
            (w.s_DSCMinted u).toNat + amount.toNat := by
          simp [lend, BitVec.toNat_add_of_lt hfits]
        have hamount : amount.toNat ≠ 0 := fun h => hpos (toNat_eq_zero.mp h)
        have hdebt : ((w.lend u amount).s_DSCMinted u).toNat ≠ 0 := by omega
        have hhalf : ((w.lend u amount).s_DSCMinted u).toNat ≤
            (w.lend u amount).collateralValue u / 2 :=
          (Nat.le_div_iff_mul_le (by decide)).mpr (Nat.mul_comm 2 _ ▸ hhealthy)
        exact (Nat.mul_le_mul_right _ hhalf).trans_lt (hscore.2 hdebt).2
      · simpa [lend, World.issue, hu] using hw u
  | @repay onBehalfOf amount hrepay =>
      by_cases hu : u = onBehalfOf
      · subst hu
        rw [debt_repaid_self hrepay.1]
        exact (Nat.mul_le_mul_right _ (Nat.sub_le _ _)).trans_lt (hw u)
      · rw [debt_repaid_of_ne hu]
        exact hw u

end Move

/-! ## Calls as sequences of moves -/

abbrev Moves (msgSender : Address) : World → World → Prop :=
  Relation.ReflTransGen (Move msgSender)

section Calls

variable {w w' : World} {msgSender token user : Address} {amount : UInt256}

theorem depositCollateral_moves (hstatus : w._status = _NOT_ENTERED)
    (h : depositCollateral IERC20.standard msgSender token amount w = .ok ((), w')) :
    Moves msgSender w w' := by
  obtain ⟨_, hallowed, hfits, hcollect, rfl⟩ := (depositCollateral_standard_eq_ok hstatus).mp h
  exact .single (Move.deposit hallowed hfits hcollect)

theorem redeemCollateral_moves (hstatus : w._status = _NOT_ENTERED)
    (h : redeemCollateral IERC20.standard msgSender token amount w = .ok ((), w')) :
    Moves msgSender w w' := by
  obtain ⟨_, hcover, hpay, _, _, rfl⟩ := (redeemCollateral_standard_eq_ok hstatus).mp h
  exact .single (Move.withdraw hcover hpay)

theorem mintDsc_moves (hstatus : w._status = _NOT_ENTERED)
    (h : mintDsc msgSender amount w = .ok ((), w')) : Moves msgSender w w' := by
  obtain ⟨hpos, hfits, hscore, hhealthy, hissue, rfl⟩ := (mintDsc_open_eq_ok hstatus).mp h
  exact .single (Move.borrow hpos hfits hscore hhealthy hissue)

theorem burnDsc_moves (h : burnDsc msgSender amount w = .ok ((), w')) :
    Moves msgSender w w' := by
  rw [burnDsc_eq_ok] at h
  obtain ⟨_, hrepay, _, _, rfl⟩ := h
  exact .single (Move.repay hrepay)

theorem liquidate_moves (hstatus : w._status = _NOT_ENTERED)
    (h : liquidate IERC20.standard msgSender token user amount w = .ok ((), w')) :
    Moves msgSender w w' := by
  obtain ⟨_, _, _, _, seized, _, hcover, hpay, hrepay, _, _, _, _, rfl⟩ :=
    (liquidate_standard_eq_ok hstatus).mp h
  have hwithdraw : Move msgSender w (redeemed user msgSender token seized w) :=
    Move.withdraw hcover hpay
  exact (Relation.ReflTransGen.single hwithdraw).tail (Move.repay hrepay)

namespace Moves

theorem sameSetting (h : Moves msgSender w w') : SameSetting w w' := by
  induction h with
  | refl => exact .refl w
  | tail _ hmove ih => exact ih.trans hmove.sameSetting

theorem tokensSound (h : Moves msgSender w w') (hw : w.TokensSound) : w'.TokensSound := by
  induction h with
  | refl => exact hw
  | tail _ hmove ih => exact hmove.tokensSound ih

theorem holdings_balance (h : Moves msgSender w w') (hw : w.TokensSound)
    (hne : msgSender ≠ w.this) (t : Address) :
    w'.holdings t + w.deposits t = w.holdings t + w'.deposits t := by
  induction h with
  | refl => rfl
  | tail hmoves hmove ih =>
      have hsame := sameSetting hmoves
      have hheld := hmove.holdings_balance (tokensSound hmoves hw) (hsame.this_eq ▸ hne) t
      omega

theorem debts_balance (h : Moves msgSender w w') (hw : w.TokensSound) :
    w'.debts + w.supply = w.debts + w'.supply := by
  induction h with
  | refl => rfl
  | tail hmoves hmove ih =>
      have howed := hmove.debts_balance (tokensSound hmoves hw)
      omega

theorem zero_deposited (h : Moves msgSender w w')
    (hw : ∀ t, w.s_collateralDeposited 0 t = 0) : ∀ t, w'.s_collateralDeposited 0 t = 0 := by
  induction h with
  | refl => exact hw
  | tail _ hmove ih => exact hmove.zero_deposited ih

end Moves

/-- **Every call is a sequence of moves.** -/
theorem run_moves {c : Call} (hstatus : w._status = _NOT_ENTERED)
    (h : c.run IERC20.standard msgSender w = .ok ((), w')) : Moves msgSender w w' := by
  cases c with
  | depositCollateral t a => exact depositCollateral_moves hstatus h
  | redeemCollateral t a => exact redeemCollateral_moves hstatus h
  | mintDsc x => exact mintDsc_moves hstatus h
  | burnDsc x => exact burnDsc_moves h
  | liquidate t v x => exact liquidate_moves hstatus h
  | depositCollateralAndMintDsc t a x =>
      obtain ⟨w₁, hdeposit, hmint⟩ := depositCollateralAndMintDsc_eq_ok.mp h
      have hfirst := depositCollateral_moves hstatus hdeposit
      exact hfirst.trans (mintDsc_moves (hfirst.sameSetting.status_eq.trans hstatus) hmint)
  | redeemCollateralForDsc t a x =>
      obtain ⟨w₁, hburn, hredeem⟩ := redeemCollateralForDsc_eq_ok.mp h
      have hfirst := burnDsc_moves hburn
      have hstatus' := hfirst.sameSetting.status_eq.trans hstatus
      exact hfirst.trans (redeemCollateral_moves hstatus' hredeem)

end Calls

end DefiStablecoin.DSCEngine
