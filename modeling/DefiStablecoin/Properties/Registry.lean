import DefiStablecoin.Proofs.Registry
import Mathlib.Algebra.BigOperators.Group.Finset.Basic

/-!
# Consistency of the token registry

The constructor writes one registry in two forms, a mapping and an array, from
arrays that it does not inspect.  The two forms agree, and every deposit counts
once, exactly when no token is repeated and no price feed is the zero address.
-/

namespace DefiStablecoin.DSCEngine

open Solidity

variable {tokenAddresses priceFeedAddresses : List Address} {dscAddress : Address}
  {e : DSCEngine}

/-- The account's collateral value is the sum of `getUsdValue` over the tokens
with a price feed, each of them once. -/
def CountsOnce (w : World) : Prop :=
  ∀ (user : Address) (v : UInt256), getAccountCollateralValue user w = .ok v ↔
    ∃ value : Address → UInt256,
      (∀ t, w.s_priceFeeds t ≠ 0 →
        getUsdValue t (w.s_collateralDeposited user t) w = .ok (value t)) ∧
      v.toNat = ∑ t with w.s_priceFeeds t ≠ 0, (value t).toNat

/-- The two forms of the registry agree, so that every deposit counts once,
whatever the ledgers and the feeds become. -/
structure Consistent (e : DSCEngine) : Prop where
  nodup : e.s_collateralTokens.Nodup
  mem_iff : ∀ t, t ∈ e.s_collateralTokens ↔ e.s_priceFeeds t ≠ 0
  countsOnce : ∀ w : World, w.s_priceFeeds = e.s_priceFeeds →
    w.s_collateralTokens = e.s_collateralTokens → CountsOnce w

theorem getAccountCollateralValue_eq_ok_sum {w : World} {user : Address} {v : UInt256} :
    getAccountCollateralValue user w = .ok v ↔
      ∃ value : Address → UInt256,
        (∀ t ∈ w.s_collateralTokens,
          getUsdValue t (w.s_collateralDeposited user t) w = .ok (value t)) ∧
        v.toNat = (w.s_collateralTokens.map fun t => (value t).toNat).sum := by
  have hsum : w.collateralValue user = (w.s_collateralTokens.map fun t =>
      usdValue (w.market.price t) (w.s_collateralDeposited user t).toNat).sum := rfl
  simp only [getAccountCollateralValue_eq_ok, getUsdValue_eq_ok]
  constructor
  · rintro ⟨⟨htokens, hlt⟩, hv⟩
    have heach : ∀ t ∈ w.s_collateralTokens,
        usdValue (w.market.price t) (w.s_collateralDeposited user t).toNat < 2 ^ 256 :=
      fun t ht => (List.le_sum_of_mem (List.mem_map_of_mem ht)).trans_lt hlt
    have hvalue : ∀ t ∈ w.s_collateralTokens,
        (BitVec.ofNat 256 (usdValue (w.market.price t)
          (w.s_collateralDeposited user t).toNat)).toNat =
        usdValue (w.market.price t) (w.s_collateralDeposited user t).toNat := fun t ht => by
      rw [BitVec.toNat_ofNat, Nat.mod_eq_of_lt (heach t ht)]
    refine ⟨_, fun t ht => ⟨(htokens t ht).1, (htokens t ht).2, hvalue t ht⟩, ?_⟩
    rw [hv, hsum, List.map_congr_left hvalue]
  · rintro ⟨value, htokens, hv⟩
    have hv' : v.toNat = w.collateralValue user := by
      rw [hv, hsum, List.map_congr_left fun t ht => (htokens t ht).2.2]
    exact ⟨⟨fun t ht => ⟨(htokens t ht).1, (htokens t ht).2.1⟩, hv'.symm.trans_lt v.isLt⟩, hv'⟩

theorem countsOnce_of_nodup {w : World} (hnodup : w.s_collateralTokens.Nodup)
    (hmem : ∀ t, t ∈ w.s_collateralTokens ↔ w.s_priceFeeds t ≠ 0) : CountsOnce w := by
  intro user v
  have hset : (Finset.univ.filter fun t => w.s_priceFeeds t ≠ 0) =
      w.s_collateralTokens.toFinset := by
    ext t
    simp [hmem]
  simp only [getAccountCollateralValue_eq_ok_sum, hset, List.sum_toFinset _ hnodup, hmem]

/-- **The registry is consistent exactly when no token is repeated and no price
feed is the zero address.** -/
theorem constructor_consistent_iff
    (h : constructor tokenAddresses priceFeedAddresses dscAddress = .ok e) :
    Consistent e ↔ tokenAddresses.Nodup ∧ 0 ∉ priceFeedAddresses := by
  obtain ⟨hlength, rfl⟩ := constructor_eq_ok.mp h
  constructor
  · rintro ⟨hnodup, hmem, _⟩
    refine ⟨hnodup, fun hzero => ?_⟩
    rw [← List.map_snd_zip hlength.ge] at hzero
    obtain ⟨⟨t, p⟩, hpair, hp⟩ := List.mem_map.mp hzero
    have hfeed := registeredFeeds_of_mem hlength hnodup hpair
    exact (hmem t).mp (List.of_mem_zip hpair).1 (hfeed.trans hp)
  · rintro ⟨hnodup, hzero⟩
    have hmem : ∀ t, t ∈ tokenAddresses ↔
        registeredFeeds tokenAddresses priceFeedAddresses t ≠ 0 := by
      intro t
      constructor
      · intro ht
        rw [← List.map_fst_zip hlength.le] at ht
        obtain ⟨⟨t', p⟩, hpair, rfl⟩ := List.mem_map.mp ht
        rw [registeredFeeds_of_mem hlength hnodup hpair]
        rintro rfl
        exact hzero (List.of_mem_zip hpair).2
      · intro hfeed
        by_contra ht
        exact hfeed (registeredFeeds_of_not_mem ht)
    refine ⟨hnodup, hmem, fun w hfeeds htokens => countsOnce_of_nodup ?_ ?_⟩
    · rw [htokens]
      exact hnodup
    · rw [htokens, hfeeds]
      exact hmem

/-- Two tokens with their feeds make a consistent registry. -/
theorem constructor_consistent_pair :
    ∃ e, constructor [10, 11] [20, 21] 2 = .ok e ∧ Consistent e := by
  obtain ⟨e, hok⟩ : ∃ e, constructor [10, 11] [20, 21] 2 = .ok e :=
    ⟨_, constructor_eq_ok.mpr ⟨rfl, rfl⟩⟩
  exact ⟨e, hok, (constructor_consistent_iff hok).mpr ⟨by decide, by decide⟩⟩

/-- The constructor accepts a token listed twice, and a token without a feed. -/
theorem constructor_inconsistent :
    (∃ e, constructor [10, 10] [20, 20] 2 = .ok e ∧ ¬Consistent e) ∧
      ∃ e, constructor [10] [0] 2 = .ok e ∧ ¬Consistent e := by
  refine ⟨⟨_, constructor_eq_ok.mpr ⟨rfl, rfl⟩, fun h => ?_⟩,
    ⟨_, constructor_eq_ok.mpr ⟨rfl, rfl⟩, fun h => ?_⟩⟩
  · exact absurd h.nodup (by decide)
  · exact (h.mem_iff 10).mp (by decide) (by decide)

end DefiStablecoin.DSCEngine
