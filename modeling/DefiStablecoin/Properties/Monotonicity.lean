import DefiStablecoin.System.Invariants

/-!
# The health factor is monotone

More collateral, higher prices and less debt never lower the health factor of an
account, and a valuation that fits still fits for less collateral at lower prices.
Only an account without debt is scored without the products that its value could
overflow, so only there can a better position be scored where a worse one is not.
-/

namespace DefiStablecoin.DSCEngine

open Solidity OracleLib World

/-- In `w'` the user has deposited at least as much of every registered token as in
`w`, at prices at least as high, and owes at most as much. -/
structure Improves (user : Address) (w w' : World) : Prop where
  tokens_eq : w'.s_collateralTokens = w.s_collateralTokens
  rounds : ∀ t ∈ w.s_collateralTokens, ∃ round round',
    staleCheckLatestRoundData (w.s_priceFeeds t) w = .ok round ∧
    staleCheckLatestRoundData (w'.s_priceFeeds t) w' = .ok round' ∧
    0 ≤ round.answer.toInt ∧ round.answer.toInt ≤ round'.answer.toInt
  deposited_le : ∀ t ∈ w.s_collateralTokens,
    w.s_collateralDeposited user t ≤ w'.s_collateralDeposited user t
  debt_le : w'.s_DSCMinted user ≤ w.s_DSCMinted user

/-- Answers that are not negative compare like the words that they are read as. -/
theorem toNat_le_of_toInt_le {a b : Int256} (ha : 0 ≤ a.toInt) (h : a.toInt ≤ b.toInt) :
    a.toNat ≤ b.toNat := by
  have hvalue : a.toInt = a.toNat := BitVec.toInt_eq_toNat_of_lt (BitVec.toInt_pos_iff.mp ha)
  have hvalue' : b.toInt = b.toNat :=
    BitVec.toInt_eq_toNat_of_lt (BitVec.toInt_pos_iff.mp (ha.trans h))
  rw [hvalue, hvalue'] at h
  exact Int.ofNat_le.mp h

namespace Improves

variable {user : Address} {w w' : World} (h : Improves user w w')

include h

theorem price_le {t : Address} (ht : t ∈ w.s_collateralTokens) :
    w.market.price t ≤ w'.market.price t := by
  obtain ⟨round, round', hround, hround', hnonneg, hle⟩ := h.rounds t ht
  rw [price_of_round hround, price_of_round hround']
  exact toNat_le_of_toInt_le hnonneg hle

theorem collateral_le {t : Address} (ht : t ∈ w.s_collateralTokens) :
    w.book.collateral user t ≤ w'.book.collateral user t :=
  BitVec.le_def.mp (h.deposited_le t ht)

theorem collateralValue_le : w.collateralValue user ≤ w'.collateralValue user :=
  Lending.Terms.value_le_value h.tokens_eq fun _ ht =>
    usdValue_le_usdValue (h.price_le ht) (h.collateral_le ht)

theorem quoted {t : Address} (ht : t ∈ w.s_collateralTokens) (hquoted : w'.market.Quoted t) :
    w.market.Quoted t := by
  obtain ⟨round, _, hround, _⟩ := h.rounds t ht
  obtain ⟨_, _, _, hfits⟩ := hquoted
  have hprice := h.price_le ht
  rw [price_of_round hround] at hprice
  exact quoted_iff.mpr ⟨round, hround, (Nat.mul_le_mul_right _ hprice).trans_lt hfits⟩

/-- Token by token, and in their sum, the lower valuation fits where the higher one does. -/
theorem valued (hvalued : w'.market.Valued (w'.book.collateral user)) :
    w.market.Valued (w.book.collateral user) := by
  obtain ⟨htokens, hsum⟩ := hvalued
  refine ⟨fun t ht => ?_, h.collateralValue_le.trans_lt hsum⟩
  have hmem : t ∈ w'.s_collateralTokens := h.tokens_eq ▸ ht
  obtain ⟨hquoted, hfits⟩ := htokens t hmem
  refine ⟨h.quoted ht hquoted, lt_of_le_of_lt ?_ hfits⟩
  exact Nat.mul_le_mul (Nat.mul_le_mul_right _ (h.price_le ht)) (h.collateral_le ht)

/-- With debt left, the better position has passed every product of the worse one;
without debt it has skipped the two that scale the value. -/
theorem scorable_iff (hscore : w'.market.Scorable w'.book user) :
    w.market.Scorable w.book user ↔
      (w'.book.debt user = 0 → w.book.debt user ≠ 0 →
        w.collateralValue user / 2 * 10 ^ 18 < 2 ^ 256) := by
  obtain ⟨hvalued', hbounds'⟩ := hscore
  have hvalue := h.collateralValue_le
  constructor
  · rintro ⟨_, hbounds⟩ _ hdebt
    exact (hbounds hdebt).2
  · intro hfits
    refine ⟨h.valued hvalued', fun hdebt => ?_⟩
    have hscaled : w.collateralValue user / 2 * 10 ^ 18 < 2 ^ 256 := by
      by_cases hzero : w'.book.debt user = 0
      · exact hfits hzero hdebt
      · have hbound : w'.collateralValue user / 2 * 10 ^ 18 < 2 ^ 256 := (hbounds' hzero).2
        exact (Nat.mul_le_mul_right _ (Nat.div_le_div_right hvalue)).trans_lt hbound
    have hweighted : w.collateralValue user * 50 < 2 ^ 256 := by omega
    exact ⟨hweighted, hscaled⟩

theorem healthFactorOf_le (hscore : w.market.Scorable w.book user) :
    w.healthFactorOf user ≤ w'.healthFactorOf user := by
  have hlt : w.healthFactorOf user < 2 ^ 256 :=
    healthFactorOf_lt.resolve_right (not_not.mpr hscore)
  exact healthFactor_le_healthFactor hlt (BitVec.le_def.mp h.debt_le) h.collateralValue_le

end Improves

/-- **The health factor is monotone in deposits, prices and debt**, and so is its
valuation, which fits wherever the higher one does.  The health factor of the worse
position can then be computed too, unless the better one has no debt and skips the
products that the worse one overflows. -/
theorem _healthFactor_mono {user : Address} {w w' : World} (h : Improves user w w') :
    (∀ hf hf' : UInt256, _healthFactor user w = .ok hf → _healthFactor user w' = .ok hf' →
      hf ≤ hf') ∧
    (∀ value' : UInt256, getAccountCollateralValue user w' = .ok value' →
      ∃ value, getAccountCollateralValue user w = .ok value ∧ value ≤ value') ∧
    (∀ hf' : UInt256, _healthFactor user w' = .ok hf' →
      ∃ value : UInt256, getAccountCollateralValue user w = .ok value ∧
        ((∃ hf, _healthFactor user w = .ok hf) ↔
          (w'.s_DSCMinted user = 0 → w.s_DSCMinted user ≠ 0 →
            value.toNat / 2 * 10 ^ 18 < 2 ^ 256))) := by
  refine ⟨fun hf hf' hok hok' => ?_, fun value' hok' => ?_, fun hf' hok' => ?_⟩
  · obtain ⟨hscore, hfactor⟩ := _healthFactor_eq_ok.mp hok
    obtain ⟨_, hfactor'⟩ := _healthFactor_eq_ok.mp hok'
    rw [BitVec.le_def, hfactor, hfactor']
    exact h.healthFactorOf_le hscore
  · obtain ⟨hvalued', hvalue'⟩ := getAccountCollateralValue_eq_ok.mp hok'
    obtain ⟨value, hok, hvalue⟩ := exists_collateralValue (h.valued hvalued')
    refine ⟨value, hok, ?_⟩
    rw [BitVec.le_def, hvalue, hvalue']
    exact h.collateralValue_le
  · obtain ⟨hscore', _⟩ := _healthFactor_eq_ok.mp hok'
    obtain ⟨value, hok, hvalue⟩ := exists_collateralValue (h.valued hscore'.1)
    have hreturns : (∃ hf, _healthFactor user w = .ok hf) ↔ w.market.Scorable w.book user :=
      ⟨fun ⟨_, hok⟩ => (_healthFactor_eq_ok.mp hok).1,
        fun hscore => (exists_healthFactor hscore).imp fun _ hf => hf.1⟩
    refine ⟨value, hok, ?_⟩
    rw [hreturns, h.scorable_iff hscore', hvalue]
    simp only [World.book, toNat_eq_zero, ne_eq]

/-- A third token beside WETH and WBTC, all three on the feed of WETH, and `2 ^ 185`
units of each deposited by the user. -/
def threeDeposits : World :=
  let tokens : List Address := [Deployment.weth, Deployment.wbtc, 12]
  { Deployment.anvil.genesis with
    s_priceFeeds := fun t => if t ∈ tokens then Deployment.wethUsdPriceFeed else 0
    s_collateralTokens := tokens
    s_collateralDeposited := fun user t =>
      if user = Deployment.USER ∧ t ∈ tokens then 2 ^ 185 else 0 }

/-- **The early return for no debt skips products that overflow.** Without debt the
position is scored, and the worse one with a debt of a single unit is not. -/
theorem _healthFactor_overflows_with_debt :
    let w := threeDeposits.setMinted Deployment.USER 1
    Improves Deployment.USER w threeDeposits ∧
      _healthFactor Deployment.USER threeDeposits = .ok maxUInt256 ∧
      _healthFactor Deployment.USER w = .error (SolidityError.panic arithmeticPanic) := by
  intro w
  refine ⟨⟨rfl, fun t ht => ?_, fun _ _ => BitVec.le_def.mpr le_rfl, by decide +kernel⟩,
    by decide +kernel, by decide +kernel⟩
  have hfeed : threeDeposits.s_priceFeeds t = Deployment.wethUsdPriceFeed := if_pos ht
  have hround : staleCheckLatestRoundData Deployment.wethUsdPriceFeed threeDeposits =
      .ok (Deployment.mockRound (2000 * 10 ^ 8)) :=
    staleCheckLatestRoundData_eq_ok.mpr ⟨rfl, by decide⟩
  refine ⟨_, _, ?_, hfeed ▸ hround, by decide, le_rfl⟩
  exact (congrArg (staleCheckLatestRoundData · w) hfeed).trans hround

/-- The user's health factor is higher at $1800 than at $1500. -/
theorem _healthFactor_mono_crash :
    let w := Deployment.anvil.run (Deployment.crash (1500 * 10 ^ 8))
    let w' := Deployment.anvil.run (Deployment.crash (1800 * 10 ^ 8))
    ∃ hf hf', _healthFactor Deployment.USER w = .ok hf ∧
      _healthFactor Deployment.USER w' = .ok hf' ∧ hf ≤ hf' := by
  intro w w'
  have htokens :=
    (Deployment.anvil.sound_run (Deployment.crash (1500 * 10 ^ 8))).collateralTokens_eq
  have htokens' :=
    (Deployment.anvil.sound_run (Deployment.crash (1800 * 10 ^ 8))).collateralTokens_eq
  have himproves : Improves Deployment.USER w w' := by
    refine ⟨htokens'.trans htokens.symm, ?_, ?_, by decide +kernel⟩
    · rw [htokens]
      apply Deployment.forall_mem_anvil
      · exact ⟨Deployment.mockRound (1500 * 10 ^ 8), Deployment.mockRound (1800 * 10 ^ 8),
          staleCheckLatestRoundData_eq_ok.mpr ⟨rfl, by decide⟩,
          staleCheckLatestRoundData_eq_ok.mpr ⟨rfl, by decide⟩, by decide, by decide⟩
      · exact ⟨Deployment.mockRound (1000 * 10 ^ 8), Deployment.mockRound (1000 * 10 ^ 8),
          staleCheckLatestRoundData_eq_ok.mpr ⟨rfl, by decide⟩,
          staleCheckLatestRoundData_eq_ok.mpr ⟨rfl, by decide⟩, by decide, by decide⟩
    · rw [htokens]
      exact Deployment.forall_mem_anvil (by decide +kernel) (by decide +kernel)
  have hok : _healthFactor Deployment.USER w = .ok 750000000000000000 := by decide +kernel
  have hok' : _healthFactor Deployment.USER w' = .ok 900000000000000000 := by decide +kernel
  exact ⟨_, _, hok, hok', (_healthFactor_mono himproves).1 _ _ hok hok'⟩

end DefiStablecoin.DSCEngine
