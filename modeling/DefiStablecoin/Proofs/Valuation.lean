import DefiStablecoin.Contracts.DSCEngine
import DefiStablecoin.Lending.Step
import DefiStablecoin.Solidity.Rounding

/-!
# What the engine's views compute

Each view is characterised by the condition under which it returns and by its
result in unbounded arithmetic.  The valuation and the health factor then form
the terms of a lending protocol, and the engine's two ledgers its book.
-/

namespace DefiStablecoin

open Solidity OracleLib DSCEngine

@[simp] theorem toNat_ADDITIONAL_FEED_PRECISION :
    ADDITIONAL_FEED_PRECISION.toNat = 10 ^ 10 := rfl

@[simp] theorem toNat_PRECISION : PRECISION.toNat = 10 ^ 18 := rfl

@[simp] theorem toNat_LIQUIDATION_THRESHOLD : LIQUIDATION_THRESHOLD.toNat = 50 := rfl

@[simp] theorem toNat_LIQUIDATION_PRECISION : LIQUIDATION_PRECISION.toNat = 100 := rfl

@[simp] theorem toNat_MIN_HEALTH_FACTOR : MIN_HEALTH_FACTOR.toNat = 10 ^ 18 := rfl

@[simp] theorem toNat_LIQUIDATION_BONUS : LIQUIDATION_BONUS.toNat = 10 := rfl

/-! ## Valuation in unbounded arithmetic -/

/-- The dollar value of an amount, at 18 decimals, rounded down. -/
def usdValue (price amount : ℕ) : ℕ := price * 10 ^ 10 * amount / 10 ^ 18

/-- The token amount that a dollar amount buys, rounded down. -/
def tokenAmount (price usdAmountInWei : ℕ) : ℕ := usdAmountInWei * 10 ^ 18 / (price * 10 ^ 10)

/-- What a liquidator is paid for covering a debt: its worth, and a tenth on top. -/
def payout (price debtToCover : ℕ) : ℕ :=
  tokenAmount price debtToCover + tokenAmount price debtToCover * 10 / 100

def healthFactor (debt value : ℕ) : ℕ :=
  if debt = 0 then 2 ^ 256 - 1 else value * 50 / 100 * 10 ^ 18 / debt

theorem half_eq (value : ℕ) : value * 50 / 100 = value / 2 := by
  omega

theorem usdValue_eq_convert (price amount : ℕ) :
    usdValue price amount = convert (price * 10 ^ 10) (10 ^ 18) amount := by
  rw [usdValue, convert, Nat.mul_comm]

theorem tokenAmount_eq_convert (price usdAmountInWei : ℕ) :
    tokenAmount price usdAmountInWei = convert (10 ^ 18) (price * 10 ^ 10) usdAmountInWei :=
  rfl

theorem usdValue_add_le (price a b : ℕ) :
    usdValue price a + usdValue price b ≤ usdValue price (a + b) := by
  simp only [usdValue_eq_convert]
  exact convert_add_le _ _ a b

theorem tokenAmount_add_le (price a b : ℕ) :
    tokenAmount price a + tokenAmount price b ≤ tokenAmount price (a + b) :=
  convert_add_le _ _ a b

theorem usdValue_le_usdValue {price price' a a' : ℕ} (hprice : price ≤ price') (h : a ≤ a') :
    usdValue price a ≤ usdValue price' a' :=
  Nat.div_le_div_right (Nat.mul_le_mul (Nat.mul_le_mul_right _ hprice) h)

/-- The health factor reaches its minimum exactly when the value covers the debt twice. -/
theorem min_le_healthFactor (debt value : ℕ) :
    10 ^ 18 ≤ healthFactor debt value ↔ 2 * debt ≤ value := by
  unfold healthFactor
  split
  · omega
  · have hdebt : 0 < debt := by omega
    rw [half_eq, Nat.le_div_iff_mul_le hdebt]
    omega

theorem healthFactor_le_of_value_le (debt : ℕ) {value value' : ℕ} (h : value ≤ value') :
    healthFactor debt value ≤ healthFactor debt value' := by
  unfold healthFactor
  split
  · exact le_rfl
  · rw [half_eq, half_eq]
    apply Nat.div_le_div_right
    apply Nat.mul_le_mul_right
    exact Nat.div_le_div_right h

/-- A health factor that fits a word only rises when the debt falls and the value rises. -/
theorem healthFactor_le_healthFactor {debt value debt' value' : ℕ}
    (hlt : healthFactor debt value < 2 ^ 256) (hdebt : debt' ≤ debt) (hvalue : value ≤ value') :
    healthFactor debt value ≤ healthFactor debt' value' := by
  by_cases hzero : debt' = 0
  · have hmax : healthFactor debt' value' = 2 ^ 256 - 1 := if_pos hzero
    omega
  · have hpos : debt ≠ 0 := by omega
    have hfall : healthFactor debt value' ≤ healthFactor debt' value' := by
      simp only [healthFactor, hzero, hpos, if_false]
      exact Nat.div_le_div_left hdebt (by omega)
    exact (healthFactor_le_of_value_le debt hvalue).trans hfall

theorem healthFactor_mono {debt value debt' value' : ℕ}
    (hlow : healthFactor debt value < 10 ^ 18) (hdebt : debt' ≤ debt) (hvalue : value ≤ value') :
    healthFactor debt value ≤ healthFactor debt' value' :=
  healthFactor_le_healthFactor (hlow.trans (by decide)) hdebt hvalue

def terms (tokens : List Address) (price : Address → ℕ) : Lending.Terms Address where
  tokens := tokens
  worth t a := usdValue (price t) a
  score := healthFactor
  threshold := 10 ^ 18
  ratio := 2
  worth_add_le t a b := usdValue_add_le (price t) a b
  threshold_le_score := min_le_healthFactor
  score_mono := healthFactor_mono

/-! ## Markets -/

/-- What the views read besides the positions: the registry, the feeds and the time. -/
structure Market where
  s_priceFeeds : Address → Address
  s_collateralTokens : List Address
  feed : Address → Option RoundData
  timestamp : UInt256

namespace Market

/-- The answer of the token's feed, as the word that `uint256(price)` makes of it. -/
def price (m : Market) (token : Address) : ℕ :=
  (m.feed (m.s_priceFeeds token)).elim 0 fun round => round.answer.toNat

/-- The token's feed gives a price that the engine can use: it answers, the
answer is fresh, and scaling it does not overflow. -/
def Quoted (m : Market) (token : Address) : Prop :=
  ∃ round, m.feed (m.s_priceFeeds token) = some round ∧ Fresh m.timestamp round ∧
    m.price token * 10 ^ 10 < 2 ^ 256

def terms (m : Market) : Lending.Terms Address :=
  DefiStablecoin.terms m.s_collateralTokens m.price

theorem Quoted.nonneg {m : Market} {token : Address} (h : m.Quoted token) :
    ∃ round, m.feed (m.s_priceFeeds token) = some round ∧ 0 ≤ round.answer.toInt := by
  obtain ⟨round, hfeed, _, hfits⟩ := h
  refine ⟨round, hfeed, ?_⟩
  by_contra hneg
  have hlarge := toNat_ge_of_toInt_neg (not_le.mp hneg)
  simp only [price, hfeed, Option.elim_some] at hfits
  omega

def Payable (m : Market) (token : Address) (debtToCover : ℕ) : Prop :=
  m.Quoted token ∧ m.price token ≠ 0 ∧ debtToCover * 10 ^ 18 < 2 ^ 256 ∧
    tokenAmount (m.price token) debtToCover * 10 < 2 ^ 256

/-- A row of deposits can be valued: every registered token is quoted, whatever
is deposited of it, and no product or sum overflows. -/
def Valued (m : Market) (deposited : Address → ℕ) : Prop :=
  (∀ t ∈ m.s_collateralTokens,
      m.Quoted t ∧ m.price t * 10 ^ 10 * deposited t < 2 ^ 256) ∧
    m.terms.value deposited < 2 ^ 256

def Scorable (m : Market) (b : Lending.Book Address Address) (user : Address) : Prop :=
  m.Valued (b.collateral user) ∧
    (b.debt user ≠ 0 →
      m.terms.value (b.collateral user) * 50 < 2 ^ 256 ∧
        m.terms.value (b.collateral user) / 2 * 10 ^ 18 < 2 ^ 256)

theorem Valued.mono {m : Market} {f g : Address → ℕ} (h : m.Valued g) (hle : ∀ t, f t ≤ g t) :
    m.Valued f := by
  obtain ⟨htokens, hsum⟩ := h
  refine ⟨fun t ht => ⟨(htokens t ht).1, ?_⟩, (m.terms.value_mono hle).trans_lt hsum⟩
  exact (Nat.mul_le_mul_left _ (hle t)).trans_lt (htokens t ht).2

theorem Scorable.mono {m : Market} {b b' : Lending.Book Address Address} {user : Address}
    (h : m.Scorable b user) (hcollateral : ∀ t, b'.collateral user t ≤ b.collateral user t)
    (hdebt : b'.debt user ≤ b.debt user) : m.Scorable b' user := by
  obtain ⟨hvalued, hscore⟩ := h
  refine ⟨hvalued.mono hcollateral, fun hpos => ?_⟩
  have hvalue := m.terms.value_mono hcollateral
  have hbound := hscore (by omega)
  omega

end Market

namespace World

def market (w : World) : Market :=
  ⟨w.s_priceFeeds, w.s_collateralTokens, w.feed, w.timestamp⟩

def book (w : World) : Lending.Book Address Address where
  collateral user token := (w.s_collateralDeposited user token).toNat
  debt user := (w.s_DSCMinted user).toNat

def collateralValue (w : World) (user : Address) : ℕ :=
  w.market.terms.value (w.book.collateral user)

def Healthy (w : World) (user : Address) : Prop := w.market.terms.Healthy w.book user

instance (w : World) (user : Address) : Decidable (w.Healthy user) :=
  inferInstanceAs (Decidable (w.market.terms.Healthy w.book user))

def healthFactorOf (w : World) (user : Address) : ℕ := w.market.terms.scoreOf w.book user

variable (w : World) (user token : Address) (amount status : UInt256)

@[simp] theorem market_setStatus : (w.setStatus status).market = w.market := rfl

@[simp] theorem book_setStatus : (w.setStatus status).book = w.book := rfl

@[simp] theorem market_setCollateral : (w.setCollateral user token amount).market = w.market := rfl

@[simp] theorem market_setMinted : (w.setMinted user amount).market = w.market := rfl

@[simp] theorem market_setToken (k : OpenZeppelin.ERC20) : (w.setToken token k).market = w.market :=
  rfl

@[simp] theorem book_setToken (k : OpenZeppelin.ERC20) : (w.setToken token k).book = w.book := rfl

@[simp] theorem market_setDsc (d : DecentralizedStableCoin) : (w.setDsc d).market = w.market := rfl

@[simp] theorem book_setDsc (d : DecentralizedStableCoin) : (w.setDsc d).book = w.book := rfl

theorem healthy_iff : w.Healthy user ↔ 2 * (w.s_DSCMinted user).toNat ≤ w.collateralValue user :=
  Iff.rfl

theorem healthFactorOf_eq :
    w.healthFactorOf user = healthFactor (w.s_DSCMinted user).toNat (w.collateralValue user) :=
  rfl

end World

/-! ## When the views return -/

section Views

variable {w : World} {user token priceFeed : Address} {amount v : UInt256}

/-- A usable round, as the pricing functions see it. -/
theorem quoted_iff :
    w.market.Quoted token ↔ ∃ round,
      staleCheckLatestRoundData (w.s_priceFeeds token) w = .ok round ∧
      round.answer.toNat * 10 ^ 10 < 2 ^ 256 := by
  unfold Market.Quoted Market.price
  constructor
  · rintro ⟨round, hfeed, hfresh, hfits⟩
    rw [hfeed] at hfits
    exact ⟨round, staleCheckLatestRoundData_eq_ok.mpr ⟨hfeed, hfresh⟩, hfits⟩
  · rintro ⟨round, hround, hfits⟩
    obtain ⟨hfeed, hfresh⟩ := staleCheckLatestRoundData_eq_ok.mp hround
    refine ⟨round, hfeed, hfresh, ?_⟩
    rw [show w.market.feed (w.market.s_priceFeeds token) = some round from hfeed]
    exact hfits

theorem price_of_round {round : RoundData}
    (h : staleCheckLatestRoundData (w.s_priceFeeds token) w = .ok round) :
    w.market.price token = round.answer.toNat := by
  obtain ⟨hfeed, _⟩ := staleCheckLatestRoundData_eq_ok.mp h
  unfold Market.price
  rw [show w.market.feed (w.market.s_priceFeeds token) = some round from hfeed]
  rfl

theorem getUsdValue_eq_ok :
    getUsdValue token amount w = .ok v ↔
      w.market.Quoted token ∧ w.market.price token * 10 ^ 10 * amount.toNat < 2 ^ 256 ∧
        v.toNat = usdValue (w.market.price token) amount.toNat := by
  rw [quoted_iff]
  simp only [getUsdValue, except_bind_eq_ok, checkedMul_eq_ok_toNat, checkedDiv_eq_ok_toNat,
    toNat_ADDITIONAL_FEED_PRECISION, toNat_PRECISION, usdValue]
  constructor
  · rintro ⟨round, hround, price, hprice, scaled, hscaled, _, hv⟩
    rw [price_of_round hround, ← hprice, ← hscaled]
    exact ⟨⟨round, hround, by omega⟩, by omega, hv⟩
  · rintro ⟨⟨round, hround, hfits⟩, hprod, hv⟩
    rw [price_of_round hround] at hprod hv
    refine ⟨round, hround, BitVec.ofNatLT _ hfits, rfl, BitVec.ofNatLT _ hprod, rfl, by decide, hv⟩

theorem getTokenAmountFromUsd_eq_ok :
    getTokenAmountFromUsd token amount w = .ok v ↔
      w.market.Quoted token ∧ w.market.price token ≠ 0 ∧ amount.toNat * 10 ^ 18 < 2 ^ 256 ∧
        v.toNat = tokenAmount (w.market.price token) amount.toNat := by
  rw [quoted_iff]
  simp only [getTokenAmountFromUsd, except_bind_eq_ok, checkedMul_eq_ok_toNat,
    checkedDiv_eq_ok_toNat, toNat_ADDITIONAL_FEED_PRECISION, toNat_PRECISION, tokenAmount]
  constructor
  · rintro ⟨round, hround, scaled, hscaled, price, hprice, hne, hv⟩
    rw [price_of_round hround, ← hprice, ← hscaled]
    exact ⟨⟨round, hround, by omega⟩, by omega, by omega, hv⟩
  · rintro ⟨⟨round, hround, hfits⟩, hne, hprod, hv⟩
    rw [price_of_round hround] at hne hv
    refine ⟨round, hround, BitVec.ofNatLT _ hprod, rfl, BitVec.ofNatLT _ hfits, rfl, ?_, hv⟩
    exact Nat.mul_ne_zero hne (by decide)

theorem payout_eq_ok {debtToCover seized : UInt256} :
    (∃ equal, getTokenAmountFromUsd token debtToCover w = .ok equal ∧
      ∃ scaled, checkedMul (ε := Revert) equal LIQUIDATION_BONUS = .ok scaled ∧
      ∃ bonus, checkedDiv (ε := Revert) scaled LIQUIDATION_PRECISION = .ok bonus ∧
      checkedAdd (ε := Revert) equal bonus = .ok seized) ↔
      w.market.Payable token debtToCover.toNat ∧
        seized.toNat = payout (w.market.price token) debtToCover.toNat := by
  simp only [getTokenAmountFromUsd_eq_ok, checkedMul_eq_ok_toNat, checkedDiv_eq_ok_toNat,
    checkedAdd_eq_ok_toNat, toNat_LIQUIDATION_BONUS, toNat_LIQUIDATION_PRECISION,
    Market.Payable, payout]
  constructor
  · rintro ⟨equal, ⟨hquoted, hne, hfits, hequal⟩, scaled, hscaled, bonus, ⟨_, hbonus⟩, hseized⟩
    rw [hscaled, hequal] at hbonus
    rw [hequal] at hscaled
    rw [hequal, hbonus] at hseized
    exact ⟨⟨hquoted, hne, hfits, hscaled.symm.trans_lt scaled.isLt⟩, hseized⟩
  · rintro ⟨⟨hquoted, hne, hfits, hscaled⟩, hseized⟩
    have hequal : tokenAmount (w.market.price token) debtToCover.toNat < 2 ^ 256 := by omega
    have hbonus : tokenAmount (w.market.price token) debtToCover.toNat * 10 / 100 < 2 ^ 256 := by
      omega
    exact ⟨BitVec.ofNatLT _ hequal, ⟨hquoted, hne, hfits, rfl⟩, BitVec.ofNatLT _ hscaled, rfl,
      BitVec.ofNatLT _ hbonus, ⟨by decide, rfl⟩, hseized⟩

/-- The loop of `getAccountCollateralValue`, from any running total. -/
theorem addCollateralValues_eq_ok {tokens : List Address} {acc : UInt256} :
    addCollateralValues user w tokens acc = .ok v ↔
      (∀ t ∈ tokens, w.market.Quoted t ∧
        w.market.price t * 10 ^ 10 * w.book.collateral user t < 2 ^ 256) ∧
      v.toNat = acc.toNat +
        (tokens.map fun t => usdValue (w.market.price t) (w.book.collateral user t)).sum := by
  induction tokens generalizing acc with
  | nil =>
      simp only [addCollateralValues, List.not_mem_nil, false_implies, implies_true, true_and,
        List.map_nil, List.sum_nil, Nat.add_zero, Except.ok.injEq]
      exact ⟨fun h => h ▸ rfl, fun h => BitVec.eq_of_toNat_eq h.symm⟩
  | cons t rest ih =>
      simp only [addCollateralValues, except_bind_eq_ok, getUsdValue_eq_ok,
        checkedAdd_eq_ok_toNat, ih, List.forall_mem_cons, List.map_cons, List.sum_cons]
      constructor
      · rintro ⟨value, ⟨hquoted, hfits, hvalue⟩, next, hnext, hrest, hv⟩
        refine ⟨⟨⟨hquoted, hfits⟩, hrest⟩, ?_⟩
        rw [hv, hnext, hvalue, Nat.add_assoc]
        rfl
      · rintro ⟨⟨⟨hquoted, hfits⟩, hrest⟩, hv⟩
        -- every partial sum is below the final one, which is a word
        have hvlt := v.isLt
        have hvalue : usdValue (w.market.price t) (w.book.collateral user t) < 2 ^ 256 := by omega
        have hnext : acc.toNat + usdValue (w.market.price t) (w.book.collateral user t) <
            2 ^ 256 := by omega
        refine ⟨BitVec.ofNatLT _ hvalue, ⟨hquoted, hfits, rfl⟩, BitVec.ofNatLT _ hnext, rfl,
          hrest, ?_⟩
        rw [hv, BitVec.toNat_ofNatLT, Nat.add_assoc]

theorem getAccountCollateralValue_eq_ok :
    getAccountCollateralValue user w = .ok v ↔
      w.market.Valued (w.book.collateral user) ∧ v.toNat = w.collateralValue user := by
  unfold getAccountCollateralValue
  rw [addCollateralValues_eq_ok]
  have hvalue : (w.s_collateralTokens.map fun t =>
      usdValue (w.market.price t) (w.book.collateral user t)).sum = w.collateralValue user := rfl
  rw [hvalue, toNat_zero, Nat.zero_add]
  constructor
  · rintro ⟨htokens, hv⟩
    exact ⟨⟨htokens, hv.symm.trans_lt v.isLt⟩, hv⟩
  · rintro ⟨⟨htokens, _⟩, hv⟩
    exact ⟨htokens, hv⟩

theorem _calculateHealthFactor_eq_ok {totalDscMinted collateralValueInUsd : UInt256} :
    _calculateHealthFactor totalDscMinted collateralValueInUsd = .ok v ↔
      (totalDscMinted.toNat ≠ 0 → collateralValueInUsd.toNat * 50 < 2 ^ 256 ∧
        collateralValueInUsd.toNat / 2 * 10 ^ 18 < 2 ^ 256) ∧
      v.toNat = healthFactor totalDscMinted.toNat collateralValueInUsd.toNat := by
  unfold _calculateHealthFactor healthFactor
  by_cases hzero : totalDscMinted = 0
  · subst hzero
    simp only [if_true, toNat_zero, ne_eq, not_true, false_implies, true_and, Except.ok.injEq]
    exact ⟨fun h => h ▸ rfl, fun h => (BitVec.eq_of_toNat_eq h).symm⟩
  · have hpos : totalDscMinted.toNat ≠ 0 := fun h => hzero (toNat_eq_zero.mp h)
    simp only [hzero, hpos, if_false, except_bind_eq_ok, checkedMul_eq_ok_toNat,
      checkedDiv_eq_ok_toNat, toNat_LIQUIDATION_THRESHOLD, toNat_LIQUIDATION_PRECISION,
      toNat_PRECISION, ne_eq, not_false_eq_true, true_implies, true_and]
    constructor
    · rintro ⟨weighted, hweighted, adjusted, ⟨_, hadjusted⟩, scaled, hscaled, hv⟩
      rw [hweighted, half_eq] at hadjusted
      rw [half_eq, ← hadjusted, ← hscaled]
      exact ⟨⟨by omega, by omega⟩, hv⟩
    · rintro ⟨⟨hweighted, hscaled⟩, hv⟩
      rw [half_eq] at hv
      refine ⟨BitVec.ofNatLT _ hweighted, rfl, BitVec.ofNatLT (collateralValueInUsd.toNat / 2)
        (by omega), ⟨by decide, ?_⟩, BitVec.ofNatLT _ hscaled, rfl, hv⟩
      rw [BitVec.toNat_ofNatLT, BitVec.toNat_ofNatLT, half_eq]

theorem _healthFactor_eq_ok :
    _healthFactor user w = .ok v ↔
      w.market.Scorable w.book user ∧ v.toNat = w.healthFactorOf user := by
  simp only [_healthFactor, _getAccountInformation, except_bind_eq_ok, except_pure_eq_ok,
    getAccountCollateralValue_eq_ok]
  constructor
  · rintro ⟨_, ⟨value, ⟨hvalued, hvalue⟩, rfl⟩, hscore⟩
    obtain ⟨hbounds, hv⟩ := _calculateHealthFactor_eq_ok.mp hscore
    rw [hvalue] at hbounds hv
    exact ⟨⟨hvalued, hbounds⟩, hv⟩
  · rintro ⟨⟨hvalued, hbounds⟩, hv⟩
    refine ⟨_, ⟨BitVec.ofNatLT (w.collateralValue user) hvalued.2, ⟨hvalued, rfl⟩, rfl⟩, ?_⟩
    exact _calculateHealthFactor_eq_ok.mpr ⟨hbounds, hv⟩

theorem healthFactorOf_lt : w.healthFactorOf user < 2 ^ 256 ∨ ¬w.market.Scorable w.book user := by
  rw [World.healthFactorOf_eq, healthFactor]
  split
  · exact .inl (by decide)
  · by_cases hscore : w.market.Scorable w.book user
    · have hbound : w.collateralValue user / 2 * 10 ^ 18 < 2 ^ 256 := (hscore.2 ‹_›).2
      rw [half_eq]
      exact .inl ((Nat.div_le_self _ _).trans_lt hbound)
    · exact .inr hscore

/-- The health factor of a scorable position fits a word, so the view returns it. -/
theorem exists_healthFactor (h : w.market.Scorable w.book user) :
    ∃ hf : UInt256, _healthFactor user w = .ok hf ∧ hf.toNat = w.healthFactorOf user := by
  have hlt := healthFactorOf_lt.resolve_right (not_not.mpr h)
  exact ⟨BitVec.ofNatLT _ hlt, _healthFactor_eq_ok.mpr ⟨h, rfl⟩, rfl⟩

theorem exists_collateralValue (h : w.market.Valued (w.book.collateral user)) :
    ∃ value : UInt256, getAccountCollateralValue user w = .ok value ∧
      value.toNat = w.collateralValue user :=
  ⟨BitVec.ofNatLT _ h.2, getAccountCollateralValue_eq_ok.mpr ⟨h, rfl⟩, rfl⟩

theorem _revertIfHealthFactorIsBroken_eq_ok {u : Unit} :
    _revertIfHealthFactorIsBroken user w = .ok u ↔
      w.market.Scorable w.book user ∧ w.Healthy user := by
  simp only [_revertIfHealthFactorIsBroken, except_bind_eq_ok, failIf_eq_ok, BitVec.lt_def,
    Nat.not_lt, toNat_MIN_HEALTH_FACTOR]
  constructor
  · rintro ⟨hf, hok, hle⟩
    obtain ⟨hscore, hvalue⟩ := _healthFactor_eq_ok.mp hok
    rw [hvalue] at hle
    exact ⟨hscore, Lending.Terms.threshold_le_scoreOf.mp hle⟩
  · rintro ⟨hscore, hhealthy⟩
    obtain ⟨hf, hok, hvalue⟩ := exists_healthFactor hscore
    exact ⟨hf, hok, hvalue ▸ Lending.Terms.threshold_le_scoreOf.mpr hhealthy⟩

end Views

end DefiStablecoin
