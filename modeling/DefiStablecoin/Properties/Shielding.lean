import DefiStablecoin.System.Invariants

/-!
# Deposits that shield a position

A deposit values nothing, so it can be as large as the token allows.  From some
size on the user's collateral can no longer be valued without an overflow: the
health factor cannot be computed any more, and nobody can liquidate the user.
-/

namespace DefiStablecoin.Deployment

open Solidity OpenZeppelin DSCEngine World

variable {d : Deployment} {w w' : World} {user token : Address} {amount : UInt256}

/-! ## The valuation after a deposit -/

def valueAfterDeposit (w : World) (user token : Address) (amount : UInt256) : ℕ :=
  w.collateralValue user +
      usdValue (w.market.price token)
        ((w.s_collateralDeposited user token).toNat + amount.toNat) -
    usdValue (w.market.price token) (w.s_collateralDeposited user token).toNat

/-- Nothing overflows when the position is valued and scored after the deposit. -/
def DepositFits (w : World) (user token : Address) (amount : UInt256) : Prop :=
  w.market.price token * 10 ^ 10 *
      ((w.s_collateralDeposited user token).toNat + amount.toNat) < 2 ^ 256 ∧
    valueAfterDeposit w user token amount < 2 ^ 256 ∧
    ((w.s_DSCMinted user).toNat ≠ 0 →
      valueAfterDeposit w user token amount / 2 * 10 ^ 18 < 2 ^ 256)

instance : Decidable (DepositFits w user token amount) :=
  inferInstanceAs (Decidable (_ ∧ _ ∧ (_ → _)))

section Deposited

variable (h : d.Sound w) (htoken : w.s_priceFeeds token ≠ 0)
  (hfits : (w.s_collateralDeposited user token).toNat + amount.toNat < 2 ^ 256)

include hfits

theorem collateral_book_deposited :
    (deposited user token amount w).book.collateral user =
      Function.update (w.book.collateral user) token
        ((w.s_collateralDeposited user token).toNat + amount.toNat) := by
  have hbook : (deposited user token amount w).book =
      w.book.deposit user token amount.toNat := book_credit hfits
  rw [hbook]
  exact Function.update_self ..

theorem le_collateralValue_deposited :
    w.collateralValue user ≤ (deposited user token amount w).collateralValue user := by
  apply w.market.terms.value_mono
  intro t
  rw [collateral_book_deposited hfits]
  by_cases ht : t = token
  · subst ht
    rw [Function.update_self]
    exact Nat.le_add_right _ _
  · rw [Function.update_of_ne ht]

include h htoken

theorem collateralValue_deposited :
    (deposited user token amount w).collateralValue user =
      valueAfterDeposit w user token amount := by
  have hnodup : w.s_collateralTokens.Nodup := h.collateralTokens_eq ▸ d.nodup
  have hvalue := w.market.terms.value_update hnodup (mem_of_priceFeed h htoken)
    (w.book.collateral user) ((w.s_collateralDeposited user token).toNat + amount.toNat)
  rw [← collateral_book_deposited hfits] at hvalue
  exact Nat.eq_sub_of_add_eq hvalue

theorem scorable_deposited_iff (hscore : w.market.Scorable w.book user) :
    w.market.Scorable (deposited user token amount w).book user ↔
      DepositFits w user token amount := by
  have hvalue : w.market.terms.value ((deposited user token amount w).book.collateral user) =
      valueAfterDeposit w user token amount := collateralValue_deposited h htoken hfits
  have hdebt : (deposited user token amount w).book.debt user = (w.s_DSCMinted user).toNat := rfl
  unfold Market.Scorable Market.Valued DepositFits
  rw [hvalue, hdebt, collateral_book_deposited hfits]
  constructor
  · rintro ⟨⟨htokens, hsum⟩, hbounds⟩
    have hproduct := (htokens token (mem_of_priceFeed h htoken)).2
    rw [Function.update_self] at hproduct
    exact ⟨hproduct, hsum, fun hne => (hbounds hne).2⟩
  · rintro ⟨hproduct, hsum, hbound⟩
    refine ⟨⟨fun t ht => ⟨(hscore.1.1 t ht).1, ?_⟩, hsum⟩, fun hne => ?_⟩
    · by_cases heq : t = token
      · subst heq
        rw [Function.update_self]
        exact hproduct
      · rw [Function.update_of_ne heq]
        exact (hscore.1.1 t ht).2
    · have hscaled := hbound hne
      exact ⟨by omega, hscaled⟩

end Deposited

/-- Whatever a liquidation takes and repays, its target can still be scored. -/
theorem exists_healthFactor_liquidated {seizedToken : Address} {seized debtToCover : UInt256}
    (liquidator : Address) (hscore : w.market.Scorable w.book user)
    (hcover : seized.toNat ≤ (w.s_collateralDeposited user seizedToken).toNat)
    (howed : debtToCover.toNat ≤ (w.s_DSCMinted user).toNat) :
    ∃ factor, getHealthFactor user
      (DSCEngine.liquidated user liquidator seizedToken seized debtToCover w) = .ok factor := by
  have hbook := book_of_liquidated liquidator hcover howed
  have hafter : w.market.Scorable
      (DSCEngine.liquidated user liquidator seizedToken seized debtToCover w).book user := by
    refine hscore.mono (fun t => ?_) ?_
    · rw [hbook]
      exact w.book.withdraw_le user user seizedToken t seized.toNat
    · rw [hbook]
      simp [Lending.Book.repay, Lending.Book.withdraw]
  exact (exists_healthFactor hafter).imp fun _ h => h.1

/-- **A deposit leaves its user's health factor computable, and no lower, exactly when the
valuation after it fits.** When it does not fit, nobody can liquidate the user; when it
does, the health factor can be computed at the end of every liquidation of the user too. -/
theorem deposit_keeps_healthFactor_iff (d : Deployment) (actions : List (Action d))
    (user token : Address) (amount factor : UInt256) (w' : World)
    (hreturns : getHealthFactor user (d.run actions) = .ok factor)
    (hok : depositCollateral IERC20.standard user token amount (d.run actions) = .ok ((), w')) :
    ((∃ factor', getHealthFactor user w' = .ok factor' ∧ factor ≤ factor') ↔
      DepositFits (d.run actions) user token amount) ∧
    (¬DepositFits (d.run actions) user token amount →
      ∀ (liquidator seizedToken : Address) (debtToCover : UInt256) (r : Unit × World),
        liquidate IERC20.standard liquidator seizedToken user debtToCover w' ≠ .ok r) ∧
    (DepositFits (d.run actions) user token amount →
      ∀ (liquidator seizedToken : Address) (seized debtToCover : UInt256),
        seized ≤ w'.s_collateralDeposited user seizedToken → debtToCover ≤ w'.s_DSCMinted user →
          ∃ factor', getHealthFactor user
            (DSCEngine.liquidated user liquidator seizedToken seized debtToCover w') =
              .ok factor') := by
  have hsound := d.sound_run actions
  obtain ⟨hscore, hfactor⟩ := _healthFactor_eq_ok.mp hreturns
  obtain ⟨_, hallowed, hfits, _, rfl⟩ :=
    (depositCollateral_standard_eq_ok hsound.status_eq).mp hok
  have hiff := scorable_deposited_iff hsound hallowed hfits hscore
  have hrise := healthFactor_le_of_value_le ((d.run actions).s_DSCMinted user).toNat
    (le_collateralValue_deposited hfits)
  refine ⟨⟨?_, fun hfit => ?_⟩, fun hnofit liquidator seizedToken debtToCover r hliquidate => ?_,
    fun hfit liquidator seizedToken seized debtToCover hcover howed => ?_⟩
  · rintro ⟨factor', hreturns', _⟩
    exact hiff.mp (_healthFactor_eq_ok.mp hreturns').1
  · obtain ⟨factor', hreturns', hfactor'⟩ :=
      exists_healthFactor (w := deposited user token amount (d.run actions)) (hiff.mpr hfit)
    refine ⟨factor', hreturns', ?_⟩
    rw [BitVec.le_def, hfactor, hfactor', healthFactorOf_eq, healthFactorOf_eq]
    exact hrise
  · rw [← IERC20.hooked_id, liquidate_eq_ok] at hliquidate
    exact hnofit (hiff.mp hliquidate.2.2.1)
  · exact exists_healthFactor_liquidated (w := deposited user token amount (d.run actions))
      liquidator (hiff.mpr hfit) (BitVec.le_def.mp hcover) (BitVec.le_def.mp howed)

theorem rounds_of_getHealthFactor {factor : UInt256} (h : getHealthFactor user w = .ok factor) :
    ∀ t ∈ w.s_collateralTokens, ∃ round, w.feed (w.s_priceFeeds t) = some round ∧
      OracleLib.Fresh w.timestamp round ∧ 0 ≤ round.answer.toInt := by
  intro t ht
  have hquoted := ((_healthFactor_eq_ok.mp h).1.1.1 t ht).1
  obtain ⟨round, hfeed, hnonneg⟩ := hquoted.nonneg
  obtain ⟨round', hfeed', hfresh, _⟩ := hquoted
  cases hfeed.symm.trans hfeed'
  exact ⟨round, hfeed, hfresh, hnonneg⟩

def crashAndIssue (amount : UInt256) : List (Action anvil) :=
  crash (1500 * 10 ^ 8) ++
    [.issueToken ⟨weth, weth_ne_dsc⟩ USER amount,
      .token ⟨weth, weth_ne_dsc⟩ USER (.approve anvil.dscEngine amount)]

/-- One more WETH lifts the health factor. -/
theorem deposit_keeps_healthFactor_weth :
    let w := anvil.run (crashAndIssue (10 ^ 18))
    ∃ factor', getHealthFactor USER
        (Tx.attempt (depositCollateral IERC20.standard USER weth (10 ^ 18)) w) = .ok factor' ∧
      750000000000000000 ≤ factor' := by
  intro w
  have hreturns : Tx.Returns (depositCollateral IERC20.standard USER weth (10 ^ 18)) w := by
    decide +kernel
  exact (deposit_keeps_healthFactor_iff anvil (crashAndIssue (10 ^ 18)) USER weth (10 ^ 18)
    750000000000000000 _ (by decide +kernel) hreturns.eq_ok).1.mpr (by decide +kernel)

/-- After a deposit of `2 ^ 200` units the health factor of the user reverts, and with it
the liquidation that the deposit has come before. -/
theorem deposit_shields_position :
    let w := anvil.run (crashAndIssue (2 ^ 200))
    let w' := Tx.attempt (depositCollateral IERC20.standard USER weth (2 ^ 200)) w
    (∀ t ∈ w.s_collateralTokens, ∃ round, w.feed (w.s_priceFeeds t) = some round ∧
      OracleLib.Fresh w.timestamp round ∧ 0 ≤ round.answer.toInt) ∧
    getHealthFactor USER w = .ok 750000000000000000 ∧
    Tx.Returns (liquidate IERC20.standard liquidator weth USER (10000 * 10 ^ 18)) w ∧
    Tx.Returns (depositCollateral IERC20.standard USER weth (2 ^ 200)) w ∧
    getHealthFactor USER w' = .error (SolidityError.panic arithmeticPanic) ∧
    ¬Tx.Returns (liquidate IERC20.standard liquidator weth USER (10000 * 10 ^ 18)) w' := by
  intro w w'
  have hreturns : getHealthFactor USER w = .ok 750000000000000000 := by decide +kernel
  exact ⟨rounds_of_getHealthFactor hreturns, hreturns, by decide +kernel, by decide +kernel,
    by decide +kernel, by decide +kernel⟩

end DefiStablecoin.Deployment
