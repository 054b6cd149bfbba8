import DefiStablecoin.Lending.Backing
import DefiStablecoin.Properties.Liquidation
import DefiStablecoin.Properties.Oracle
import DefiStablecoin.Properties.Splitting

/-!
# Prices within a band

A position is opened at 200% and a liquidation takes 110% of what it covers.  As
long as the usable answers of every feed stay within a band whose lower end is at
least 55% of its upper end, every position therefore stays backed at 110% of its
debt, at the lowest prices of the band, whoever is liquidated or not.
-/

namespace DefiStablecoin.Deployment

open Solidity OpenZeppelin DSCEngine World Lending

variable {d : Deployment} {w w' : World} {a : Action d} {u : Unit} {low high : Address → ℕ}

/-- Whatever a feed answers that the engine can use lies between two bounds. -/
def InBand (d : Deployment) (low high : Address → ℕ) (w : World) : Prop :=
  ∀ t ∈ d.s_tokenAddresses, w.market.Quoted t →
    low t ≤ w.market.price t ∧ w.market.price t ≤ high t

/-- The terms at the lower ends of the bands, under which 110% of a debt is to be covered. -/
def worstTerms (d : Deployment) (low : Address → ℕ) : Terms Address :=
  .linear d.s_tokenAddresses (fun t => 10 * (low t * 10 ^ 10)) (11 * 10 ^ 18)

structure Supported (d : Deployment) (low : Address → ℕ) (w : World) : Prop where
  sound : d.Sound w
  healthy : ∀ v, (d.worstTerms low).Healthy w.book v

/-! ## What one call keeps -/

theorem terms_implies_worst (h : d.Sound w)
    (hband : ∀ t ∈ d.s_tokenAddresses, 11 * high t ≤ 20 * low t) (hin : d.InBand low high w)
    (hquoted : ∀ t ∈ w.s_collateralTokens, w.market.Quoted t) :
    w.market.terms.Implies (d.worstTerms low) := by
  apply Terms.implies_of_worth_le (k := 11 * 10 ^ 18) (l := 2) (by decide)
  · exact h.collateralTokens_eq.symm
  · exact Nat.le_of_eq (Nat.mul_comm ..)
  intro t ht amount
  have hlisted : t ∈ d.s_tokenAddresses := h.collateralTokens_eq ▸ ht
  have hhigh := (hin t hlisted (hquoted t ht)).2
  have hprice : 11 * w.market.price t ≤ 20 * low t :=
    (Nat.mul_le_mul_left 11 hhigh).trans (hband t hlisted)
  have hfloor : usdValue (w.market.price t) amount * 10 ^ 18 ≤
      w.market.price t * 10 ^ 10 * amount := Nat.div_mul_le_self _ _
  calc 11 * 10 ^ 18 * usdValue (w.market.price t) amount
      = 11 * (usdValue (w.market.price t) amount * 10 ^ 18) := by
        rw [Nat.mul_assoc, Nat.mul_comm (10 ^ 18)]
    _ ≤ 11 * (w.market.price t * 10 ^ 10 * amount) := Nat.mul_le_mul_left _ hfloor
    _ = 11 * w.market.price t * (10 ^ 10 * amount) := by ring
    _ ≤ 20 * low t * (10 ^ 10 * amount) := Nat.mul_le_mul_right _ hprice
    _ = 2 * (10 * (low t * 10 ^ 10) * amount) := by ring

/-- A liquidation in the band takes no more than 110% of the debt, at the lowest price too. -/
theorem liquidate_within {token user msgSender : Address} {debtToCover : UInt256}
    (h : d.Sound w) (hin : d.InBand low high w)
    (hok : liquidate IERC20.standard msgSender token user debtToCover w = .ok ((), w')) :
    (Op.liquidate user token (payout (w.market.price token) debtToCover.toNat)
      debtToCover.toNat).Within (d.worstTerms low) := by
  intro hlisted amount
  have hlow : low token ≤ w.market.price token := by
    have hquoted := ((liquidate_standard_eq_ok h.status_eq).mp hok).2.2.2.1.1
    exact (hin token hlisted hquoted).1
  have htaken : 10 * (low token * 10 ^ 10) * payout (w.market.price token) debtToCover.toNat ≤
      11 * 10 ^ 18 * debtToCover.toNat := by
    refine (Nat.mul_le_mul_right _ ?_).trans (payout_mul_le _ debtToCover.toNat)
    exact Nat.mul_le_mul_left 10 (Nat.mul_le_mul_right _ hlow)
  calc (d.worstTerms low).worth token (amount + payout (w.market.price token) debtToCover.toNat)
      = 10 * (low token * 10 ^ 10) * amount +
          10 * (low token * 10 ^ 10) * payout (w.market.price token) debtToCover.toNat :=
        Nat.mul_add ..
    _ ≤ 10 * (low token * 10 ^ 10) * amount + 11 * 10 ^ 18 * debtToCover.toNat :=
        Nat.add_le_add_left htaken _

theorem ops_within {msgSender : Address} {c : Call} (h : d.Sound w) (hin : d.InBand low high w)
    (hok : c.run IERC20.standard msgSender w = .ok ((), w')) :
    ∀ op ∈ c.ops w.market, op.Within (d.worstTerms low) := by
  cases c with
  | liquidate token user debtToCover =>
      intro op hop
      cases List.mem_singleton.mp hop
      exact liquidate_within h hin hok
  | _ => simp [Call.ops, Op.Within]

theorem supported_engine {msgSender : Address} {c : Call}
    (hband : ∀ t ∈ d.s_tokenAddresses, 11 * high t ≤ 20 * low t) (h : d.Sound w)
    (hin : d.InBand low high w) (hok : c.run IERC20.standard msgSender w = .ok ((), w'))
    {v : Address} (hv : (d.worstTerms low).Healthy w.book v) :
    (d.worstTerms low).Healthy w'.book v := by
  refine (run_refines hok).2.backed d.nodup ?_ (ops_within h hin hok) hv
  rintro ⟨op, hop, hnot⟩
  have hc : ∀ token amount, c ≠ .depositCollateral token amount := by
    rintro token amount rfl
    exact hnot token amount.toNat (List.mem_singleton.mp hop)
  exact terms_implies_worst h hband hin (run_quoted (fun _ => keepsMarket_standard) hc hok)

theorem supported_tx (hband : ∀ t ∈ d.s_tokenAddresses, 11 * high t ≤ 20 * low t)
    (h : d.Supported low w) (hin : d.InBand low high w) (hok : a.tx w = .ok (u, w')) :
    d.Supported low w' := by
  refine ⟨sound_tx h.sound hok, fun v => ?_⟩
  obtain ⟨msgSender, c, rfl⟩ | hbook := book_tx h.sound hok
  · exact supported_engine hband h.sound hin hok (h.healthy v)
  · exact hbook ▸ h.healthy v

theorem supported_genesis : d.Supported low d.genesis := ⟨sound_genesis, fun _ => Nat.zero_le _⟩

theorem supported_run {actions : List (Action d)}
    (hband : ∀ t ∈ d.s_tokenAddresses, 11 * high t ≤ 20 * low t)
    (halong : Machine.Along d.step (fun w _ => d.InBand low high w) d.genesis actions) :
    d.Supported low (d.run actions) := by
  refine Machine.run_invariant_along (I := d.Supported low) (fun w a h hin => ?_) supported_genesis
    halong
  rcases Tx.attempt_cases a.tx w with ⟨_, hok⟩ | ⟨_, hsame⟩
  · exact supported_tx hband h hin hok
  · rwa [step, hsame]

/-! ## What follows for the system -/

/-- **Backing in a band.** In every run whose usable prices stay within the band,
at most 45% below its upper end, every position is backed at 110% at the lowest
prices, and so is the whole supply by what the engine holds. -/
theorem backed_at_worst_prices (d : Deployment) (low high : Address → ℕ)
    (hband : ∀ t ∈ d.s_tokenAddresses, 11 * high t ≤ 20 * low t) (actions : List (Action d))
    (halong : Machine.Along d.step (fun w _ => d.InBand low high w) d.genesis actions) :
    (∀ v, 11 * 10 ^ 18 * ((d.run actions).s_DSCMinted v).toNat ≤
      (d.s_tokenAddresses.map fun t =>
        10 * (low t * 10 ^ 10) * ((d.run actions).s_collateralDeposited v t).toNat).sum) ∧
    11 * 10 ^ 18 * (d.run actions).supply ≤
      (d.s_tokenAddresses.map
        fun t => 10 * (low t * 10 ^ 10) * (d.run actions).holdings t).sum := by
  have hsupported := supported_run hband halong
  refine ⟨hsupported.healthy, ?_⟩
  have hreserve : ∀ t, ∑ v, (d.run actions).book.collateral v t ≤ (d.run actions).holdings t :=
    fun t => (Nat.le_add_right _ _).trans (d.holdings_run actions t).ge
  calc 11 * 10 ^ 18 * (d.run actions).supply ≤ 11 * 10 ^ 18 * (d.run actions).debts := by
        have hdebts := d.debts_run actions
        exact Nat.mul_le_mul_left _ (by omega)
    _ ≤ (d.worstTerms low).value (d.run actions).holdings :=
        Terms.solvent hsupported.healthy hreserve
    _ = _ := rfl

/-- The price falls by 45%, the unhealthy user is liquidated, and the price recovers. -/
def slump : List (Action anvil) :=
  crash (1100 * 10 ^ 8) ++
    [.engine liquidator (.liquidate weth USER (10000 * 10 ^ 18)), updateAnswer (1900 * 10 ^ 8)]

def slumpLow (t : Address) : ℕ := if t = weth then 1100 * 10 ^ 8 else 1000 * 10 ^ 8

def slumpHigh (t : Address) : ℕ := if t = weth then 2000 * 10 ^ 8 else 1000 * 10 ^ 8

theorem slump_band : ∀ t ∈ anvil.s_tokenAddresses, 11 * slumpHigh t ≤ 20 * slumpLow t :=
  forall_mem_anvil (by decide) (by decide)

/-- The run stays in the band; the answers can be compared one by one. -/
theorem slump_along :
    Machine.Along anvil.step (fun w _ => anvil.InBand slumpLow slumpHigh w) anvil.genesis
      slump := by
  have hprices : Machine.Along anvil.step (fun w _ => anvil.s_tokenAddresses.all fun t =>
      slumpLow t ≤ w.market.price t ∧ w.market.price t ≤ slumpHigh t) anvil.genesis slump := by
    decide +kernel
  refine Machine.along_mono (I := fun _ => True) (fun _ _ _ => trivial)
    (fun w _ _ hw t ht _ => ?_) trivial hprices
  simpa using List.all_eq_true.mp hw t ht

theorem backed_at_worst_prices_slump :
    (∀ v, 11 * 10 ^ 18 * ((anvil.run slump).s_DSCMinted v).toNat ≤
      (anvil.s_tokenAddresses.map fun t =>
        10 * (slumpLow t * 10 ^ 10) * ((anvil.run slump).s_collateralDeposited v t).toNat).sum) ∧
    11 * 10 ^ 18 * (anvil.run slump).supply ≤
      (anvil.s_tokenAddresses.map fun t =>
        10 * (slumpLow t * 10 ^ 10) * (anvil.run slump).holdings t).sum :=
  backed_at_worst_prices anvil slumpLow slumpHigh slump_band slump slump_along

theorem slump_crash :
    Machine.Along anvil.step (fun w _ => anvil.InBand slumpLow slumpHigh w) anvil.genesis
        (crash (1100 * 10 ^ 8)) ∧
      anvil.InBand slumpLow slumpHigh (anvil.run (crash (1100 * 10 ^ 8))) := by
  obtain ⟨hbefore, hafter⟩ := Machine.along_append.mp slump_along
  exact ⟨hbefore, hafter.1⟩

/-- At prices of the band every position is worth 110% of its debt as the engine values
it, up to one unit for each token that the valuation rounds. -/
theorem value_ge_of_inBand (d : Deployment) (low high : Address → ℕ)
    (hband : ∀ t ∈ d.s_tokenAddresses, 11 * high t ≤ 20 * low t) (actions : List (Action d))
    (halong : Machine.Along d.step (fun w _ => d.InBand low high w) d.genesis actions)
    (hin : d.InBand low high (d.run actions)) (user : Address) (value : UInt256)
    (hvalue : getAccountCollateralValue user (d.run actions) = .ok value) :
    11 * ((d.run actions).s_DSCMinted user).toNat ≤
      10 * (value.toNat + d.s_tokenAddresses.length) := by
  set w := d.run actions with hw
  have hsupported := supported_run hband halong
  have htokens : w.market.terms.tokens = d.s_tokenAddresses := hsupported.sound.collateralTokens_eq
  obtain ⟨hvalued, hresult⟩ := getAccountCollateralValue_eq_ok.mp hvalue
  have hlisted : ∀ t ∈ d.s_tokenAddresses, t ∈ w.market.s_collateralTokens :=
    fun t ht => (congrArg (t ∈ ·) htokens).mpr ht
  have hunit : ∀ t ∈ d.s_tokenAddresses,
      10 * (low t * 10 ^ 10) * w.book.collateral user t ≤
        10 ^ 19 * (w.market.terms.worth t (w.book.collateral user t) + 1) := by
    intro t ht
    have hlow : low t ≤ w.market.price t := (hin t ht (hvalued.1 t (hlisted t ht)).1).1
    have hfloor : w.market.price t * 10 ^ 10 * w.book.collateral user t <
        10 ^ 18 * (w.market.terms.worth t (w.book.collateral user t) + 1) :=
      Nat.lt_mul_div_succ _ (by decide)
    calc 10 * (low t * 10 ^ 10) * w.book.collateral user t
        ≤ 10 * (w.market.price t * 10 ^ 10) * w.book.collateral user t :=
          Nat.mul_le_mul_right _ (Nat.mul_le_mul_left _ (Nat.mul_le_mul_right _ hlow))
      _ = 10 * (w.market.price t * 10 ^ 10 * w.book.collateral user t) := Nat.mul_assoc ..
      _ ≤ 10 * (10 ^ 18 * (w.market.terms.worth t (w.book.collateral user t) + 1)) :=
          Nat.mul_le_mul_left _ hfloor.le
      _ = 10 ^ 19 * (w.market.terms.worth t (w.book.collateral user t) + 1) := by ring
  have hsum : (d.worstTerms low).value (w.book.collateral user) ≤
      10 ^ 19 * (value.toNat + d.s_tokenAddresses.length) := by
    calc (d.worstTerms low).value (w.book.collateral user)
        ≤ (d.s_tokenAddresses.map fun t =>
            10 ^ 19 * (w.market.terms.worth t (w.book.collateral user t) + 1)).sum :=
          List.sum_le_sum hunit
      _ = 10 ^ 19 * (value.toNat + d.s_tokenAddresses.length) := by
          rw [List.sum_map_mul_left, List.sum_map_add, hresult, ← htokens]
          simp [collateralValue, Terms.value]
  have hbacked : 11 * 10 ^ 18 * (w.s_DSCMinted user).toNat ≤ _ :=
    (hsupported.healthy user).trans hsum
  omega

/-- The user's 10 WETH are worth $11000, 110% of its debt and no more. -/
theorem value_ge_of_inBand_slump :
    11 * ((anvil.run (crash (1100 * 10 ^ 8))).s_DSCMinted USER).toNat ≤
      10 * ((11000 * 10 ^ 18 : UInt256).toNat + anvil.s_tokenAddresses.length) :=
  value_ge_of_inBand anvil slumpLow slumpHigh slump_band (crash (1100 * 10 ^ 8)) slump_crash.1
    slump_crash.2 USER (11000 * 10 ^ 18) (by decide +kernel)

/-- What backs a debt at 110% before any rounding covers the payout for it. -/
theorem payout_le_of_backed {price debt deposited : ℕ} (hdebt : debt ≠ 0)
    (h : 11 * 10 ^ 18 * debt ≤ 10 * (price * 10 ^ 10) * deposited) :
    payout price debt ≤ deposited := by
  have hprice : price ≠ 0 := by
    rintro rfl
    simp only [Nat.zero_mul, Nat.mul_zero, Nat.le_zero, Nat.mul_eq_zero] at h
    omega
  have hscaled : 0 < price * 10 ^ 10 := by omega
  apply Nat.le_of_mul_le_mul_left (c := 10 * (price * 10 ^ 10)) _ (by omega)
  exact (payout_mul_le price debt).trans h

/-- **In the band every position in one token can be liquidated at once**, however
unhealthy it has become. -/
theorem liquidate_in_band (d : Deployment) (low high : Address → ℕ)
    (hband : ∀ t ∈ d.s_tokenAddresses, 11 * high t ≤ 20 * low t) (actions : List (Action d))
    (halong : Machine.Along d.step (fun w _ => d.InBand low high w) d.genesis actions)
    (hin : d.InBand low high (d.run actions)) (user liquidator token : Address)
    (honly : ∀ t ∈ d.s_tokenAddresses, t ≠ token →
      (d.run actions).s_collateralDeposited user t = 0)
    (hall : CanCoverAll (d.run actions) user liquidator) :
    ∃ w', liquidate IERC20.standard liquidator token user
        ((d.run actions).s_DSCMinted user) (d.run actions) = .ok ((), w') ∧
      w'.s_DSCMinted user = 0 ∧
      (w'.s_collateralDeposited user token).toNat +
          payout ((d.run actions).market.price token) ((d.run actions).s_DSCMinted user).toNat =
        ((d.run actions).s_collateralDeposited user token).toNat := by
  set w := d.run actions with hw
  have hsound : d.Sound w := d.sound_run actions
  have hdebt := hall.indebted
  have hbacked : 11 * 10 ^ 18 * (w.s_DSCMinted user).toNat ≤
      10 * (low token * 10 ^ 10) * (w.s_collateralDeposited user token).toNat := by
    apply ((supported_run hband halong).healthy user).trans
    apply Terms.value_le_of_only d.nodup
    exact fun t ht hne => toNat_eq_zero.mpr (honly t ht hne)
  -- a token that is not listed has no deposits, which would back nothing
  have hlisted : token ∈ d.s_tokenAddresses := by
    by_contra hmem
    have hfeed : w.s_priceFeeds token = 0 := by
      rw [hsound.priceFeeds_eq]
      exact d.genesis_priceFeeds_of_not_mem hmem
    rw [hsound.unlisted token hfeed user, toNat_zero] at hbacked
    omega
  have hquoted : w.market.Quoted token :=
    quoted_of_scorable hall.scorable_user token (hsound.collateralTokens_eq ▸ hlisted)
  have hcovered : 11 * 10 ^ 18 * (w.s_DSCMinted user).toNat ≤
      10 * (w.market.price token * 10 ^ 10) * (w.s_collateralDeposited user token).toNat := by
    apply hbacked.trans
    exact Nat.mul_le_mul_right _
      (Nat.mul_le_mul_left _ (Nat.mul_le_mul_right _ (hin token hlisted hquoted).1))
  have hprice : w.market.price token ≠ 0 := by
    intro hzero
    rw [hzero] at hcovered
    omega
  have htoken : token ≠ w.i_dsc := hsound.dsc_eq ▸ ne_of_mem_of_not_mem hlisted d.dsc_not_mem
  exact liquidate_covered hsound hall htoken hquoted hprice (d.holdings_ge actions user token)
    (payout_le_of_backed hdebt.ne' hcovered)

/-- At 55% of its price the collateral still pays for all of the user's debt. -/
theorem liquidate_in_band_slump :
    let w := anvil.run (crash (1100 * 10 ^ 8))
    ∃ w', liquidate IERC20.standard liquidator weth USER (w.s_DSCMinted USER) w = .ok ((), w') ∧
      w'.s_DSCMinted USER = 0 ∧
      (w'.s_collateralDeposited USER weth).toNat +
          payout (w.market.price weth) (w.s_DSCMinted USER).toNat =
        (w.s_collateralDeposited USER weth).toNat :=
  liquidate_in_band anvil slumpLow slumpHigh slump_band (crash (1100 * 10 ^ 8)) slump_crash.1
    slump_crash.2 USER liquidator weth
    (forall_mem_anvil_of_wbtc (by decide +kernel))
    ⟨⟨by decide +kernel, ⟨1100000000000000000, by decide +kernel, by decide⟩, by decide,
      by decide +kernel, by decide +kernel⟩, 550000000000000000, by decide +kernel, by decide⟩

end DefiStablecoin.Deployment
