import DefiStablecoin.Proofs.Keeping
import DefiStablecoin.System.Deployment

/-!
# No bad oracle datum is acted on

Every transaction but a plain deposit computes a health factor, and with it the
value of every registered token, held or not.  One bad round among the feeds
therefore reverts them all, whatever code is behind the collateral tokens.
-/

namespace DefiStablecoin.DSCEngine

open Solidity OpenZeppelin World OracleLib

/-- A round that must not be used: too old, from the future, or negative. -/
def BadRound (timestamp : UInt256) (round : RoundData) : Prop :=
  round.updatedAt.toNat + TIMEOUT.toNat < timestamp.toNat ∨
    timestamp.toNat < round.updatedAt.toNat ∨ round.answer.toInt < 0

/-- Collateral tokens that touch neither the registry nor the feeds nor the clock. -/
structure KeepsMarket (ierc20 : IERC20) : Prop where
  transfer : ∀ {token msgSender dst : Address} {amount : UInt256} {w : World} {r : Bool × World},
    ierc20.transfer token msgSender dst amount w = .ok r → r.2.market = w.market
  transferFrom : ∀ {token msgSender src dst : Address} {amount : UInt256} {w : World}
    {r : Bool × World},
    ierc20.transferFrom token msgSender src dst amount w = .ok r → r.2.market = w.market

theorem keepsMarket_standard : KeepsMarket IERC20.standard where
  transfer h := by
    obtain ⟨k, _, hw⟩ := callToken_eq_ok.mp h
    rw [hw, market_setToken]
  transferFrom h := by
    obtain ⟨k, _, hw⟩ := callToken_eq_ok.mp h
    rw [hw, market_setToken]

theorem KeepsMarket.keeps {ierc20 : IERC20} (h : KeepsMarket ierc20) (m : Market) :
    ierc20.Keeps fun w => w.market = m where
  transfer _ _ _ _ _ _ _ hok hw := (h.transfer hok).trans hw
  transferFrom _ _ _ _ _ _ _ _ hok hw := (h.transferFrom hok).trans hw

theorem survives_market (m : Market) : Survives fun w => w.market = m where
  setStatus _ _ hw := hw
  setCollateral _ _ _ _ hw := hw
  mintDsc _ _ w _ w' hok hw := by
    obtain ⟨_, _, _, _, _, _, rfl⟩ := mintDsc_eq_ok.mp hok
    exact hw
  _burnDsc _ _ _ w _ w' hok hw := by
    obtain ⟨_, rfl⟩ := _burnDsc_eq_ok.mp hok
    exact hw

variable {ierc20 : IERC20} {w w' : World} {r : Unit × World}
  {msgSender token user source recipient : Address} {amount : UInt256} {round : RoundData}

/-! ## What a usable market excludes -/

theorem not_quoted_of_badRound (hfeed : w.feed (w.s_priceFeeds token) = some round)
    (hbad : BadRound w.timestamp round) : ¬w.market.Quoted token := by
  intro hquoted
  obtain ⟨round', hfeed', hnonneg⟩ := hquoted.nonneg
  obtain ⟨round'', hfeed'', ⟨hle, hold⟩, _⟩ := hquoted
  cases hfeed.symm.trans hfeed'
  cases hfeed.symm.trans hfeed''
  have htime : w.market.timestamp = w.timestamp := rfl
  rw [htime] at hle hold
  rcases hbad with hstale | hfuture | hneg
  · omega
  · omega
  · omega

theorem quoted_of_scorable (h : w.market.Scorable w.book user) :
    ∀ t ∈ w.s_collateralTokens, w.market.Quoted t := fun t ht => (h.1.1 t ht).1

/-! ## What a transaction that returns has seen -/

section Returns

variable (hkeeps : KeepsMarket ierc20)

include hkeeps

theorem _redeemCollateral_market
    (h : _redeemCollateral ierc20 token amount source recipient w = .ok r) :
    r.2.market = w.market :=
  _redeemCollateral_keeps (survives_market w.market) (hkeeps.keeps w.market) token source recipient
    amount h rfl

theorem depositCollateral_market
    (h : depositCollateral ierc20 msgSender token amount w = .ok r) :
    r.2.market = w.market :=
  depositCollateral_keeps (survives_market w.market) (hkeeps.keeps w.market) msgSender token
    amount h rfl

theorem redeemCollateral_quoted
    (h : redeemCollateral ierc20 msgSender token amount w = .ok r) :
    ∀ t ∈ w.s_collateralTokens, w.market.Quoted t := by
  simp only [redeemCollateral, Tx.bind_eq_ok, moreThanZero_eq_ok, nonReentrant_eq_ok,
    view_check_eq_ok] at h
  obtain ⟨_, w₀, ⟨_, hw₀⟩, _, _, ⟨_, w₁, hredeem, hscore, _⟩, _⟩ := h
  have hstart : w₀.market = w.market := congrArg World.market hw₀
  have hmarket : w₁.market = w.market := (_redeemCollateral_market hkeeps hredeem).trans hstart
  have htokens : w₁.s_collateralTokens = w.s_collateralTokens :=
    congrArg Market.s_collateralTokens hmarket
  rw [← htokens, ← hmarket]
  exact quoted_of_scorable hscore

end Returns

theorem mintDsc_quoted (h : mintDsc msgSender amount w = .ok r) :
    ∀ t ∈ w.s_collateralTokens, w.market.Quoted t :=
  have hscore := (mintDsc_eq_ok.mp h).2.2.2.1
  fun t ht => (hscore.1.1 t ht).1

theorem burnDsc_quoted (h : burnDsc msgSender amount w = .ok r) :
    ∀ t ∈ w.s_collateralTokens, w.market.Quoted t :=
  have hscore := (burnDsc_eq_ok.mp h).2.2.1
  fun t ht => (hscore.1.1 t ht).1

/-- A liquidation starts with the health factor of its target. -/
theorem liquidate_quoted (h : liquidate ierc20 msgSender token user amount w = .ok r) :
    ∀ t ∈ w.s_collateralTokens, w.market.Quoted t := by
  simp only [liquidate, Tx.bind_eq_ok, moreThanZero_eq_ok, nonReentrant_eq_ok, Tx.view_eq_ok,
    _healthFactor_eq_ok] at h
  obtain ⟨_, _, ⟨_, rfl⟩, _, _, ⟨_, _, ⟨⟨hscore, _⟩, _⟩, _⟩, _⟩ := h
  exact quoted_of_scorable hscore

/-- The calls that ask for the prices only after a token has been called. -/
def Call.PaysFirst : Call → Prop
  | .redeemCollateral _ _ => True
  | .depositCollateralAndMintDsc _ _ _ => True
  | _ => False

theorem run_quoted {c : Call} (hkeeps : c.PaysFirst → KeepsMarket ierc20)
    (hc : ∀ token amount, c ≠ .depositCollateral token amount)
    (h : c.run ierc20 msgSender w = .ok r) : ∀ t ∈ w.s_collateralTokens, w.market.Quoted t := by
  cases c with
  | depositCollateral t a => exact absurd rfl (hc t a)
  | redeemCollateral t a => exact redeemCollateral_quoted (hkeeps trivial) h
  | mintDsc x => exact mintDsc_quoted h
  | burnDsc x => exact burnDsc_quoted h
  | liquidate t u x => exact liquidate_quoted h
  | depositCollateralAndMintDsc t a x =>
      obtain ⟨w₁, hdeposit, hmint⟩ := depositCollateralAndMintDsc_eq_ok.mp h
      have hmarket : w₁.market = w.market := depositCollateral_market (hkeeps trivial) hdeposit
      have htokens : w₁.s_collateralTokens = w.s_collateralTokens :=
        congrArg Market.s_collateralTokens hmarket
      rw [← htokens, ← hmarket]
      exact mintDsc_quoted hmint
  | redeemCollateralForDsc t a x =>
      obtain ⟨w₁, hburn, _⟩ := redeemCollateralForDsc_eq_ok.mp h
      exact burnDsc_quoted hburn

/-- **No bad oracle datum is ever acted on.** While one registered feed reports a bad
round, every call but a plain deposit reverts, the two that call a token first if the
token leaves the market alone; and a negative answer never turns into a price, for any
amount. -/
theorem run_reverts_of_badRound (ierc20 : IERC20) (w : World) :
    ((∃ t ∈ w.s_collateralTokens, ∃ round,
        w.feed (w.s_priceFeeds t) = some round ∧ BadRound w.timestamp round) →
      ∀ c : Call, (∀ token amount, c ≠ .depositCollateral token amount) →
        (c.PaysFirst → KeepsMarket ierc20) →
          ∀ (msgSender : Address) (r : Unit × World), c.run ierc20 msgSender w ≠ .ok r) ∧
    (∀ (token : Address) (round : RoundData), w.feed (w.s_priceFeeds token) = some round →
      round.answer.toInt < 0 → ∀ amount v : UInt256,
        getUsdValue token amount w ≠ .ok v ∧ getTokenAmountFromUsd token amount w ≠ .ok v) := by
  constructor
  · rintro ⟨t, ht, round, hfeed, hbad⟩ c hc hkeeps msgSender r hok
    exact not_quoted_of_badRound hfeed hbad (run_quoted hkeeps hc hok t ht)
  · intro token round hfeed hneg amount v
    have hnot := not_quoted_of_badRound hfeed (.inr (.inr hneg))
    exact ⟨fun hok => hnot (getUsdValue_eq_ok.mp hok).1,
      fun hok => hnot (getTokenAmountFromUsd_eq_ok.mp hok).1⟩

/-- A negative answer for WETH stops a user from redeeming any. -/
theorem redeemCollateral_reverts_negative :
    let w := Deployment.anvil.run (Deployment.openPosition Deployment.USER (10 * 10 ^ 18)
      (100 * 10 ^ 18) ++ [Deployment.updateAnswer (-1)])
    ∀ r, redeemCollateral IERC20.standard Deployment.USER Deployment.weth (10 ^ 18) w ≠ .ok r := by
  intro w
  have hbad : ∃ t ∈ w.s_collateralTokens, ∃ round,
      w.feed (w.s_priceFeeds t) = some round ∧ BadRound w.timestamp round :=
    ⟨Deployment.weth, by decide, Deployment.mockRound (-1), rfl, .inr (.inr (by decide))⟩
  exact (run_reverts_of_badRound IERC20.standard w).1 hbad
    (.redeemCollateral Deployment.weth (10 ^ 18)) (fun _ _ => by simp)
    (fun _ => keepsMarket_standard) Deployment.USER

end DefiStablecoin.DSCEngine
