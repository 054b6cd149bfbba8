import DefiStablecoin.Proofs.Valuation

/-!
# What the constructor registers

The loop of the constructor overwrites a mapping and appends to an array.  The
array lists the tokens as they are given; the mapping holds the feed of a token
that is not repeated, and nothing for a token that is not given.
-/

namespace DefiStablecoin.DSCEngine

open Solidity

variable {pairs : List (Address × Address)} {s_priceFeeds : Address → Address}
  {s_collateralTokens : List Address} {token priceFeed : Address}

/-! ## The constructor's loop -/

theorem registerTokens_tokens :
    (registerTokens pairs s_priceFeeds s_collateralTokens).2 =
      s_collateralTokens ++ pairs.map Prod.fst := by
  induction pairs generalizing s_priceFeeds s_collateralTokens with
  | nil => simp [registerTokens]
  | cons pair rest ih =>
      obtain ⟨t, p⟩ := pair
      simp [registerTokens, ih]

theorem registerTokens_feeds_of_not_mem (h : token ∉ pairs.map Prod.fst) :
    (registerTokens pairs s_priceFeeds s_collateralTokens).1 token = s_priceFeeds token := by
  induction pairs generalizing s_priceFeeds s_collateralTokens with
  | nil => rfl
  | cons pair rest ih =>
      obtain ⟨t, p⟩ := pair
      simp only [List.map_cons, List.mem_cons, not_or] at h
      rw [registerTokens, ih h.2, Function.update_of_ne h.1]

/-- Without repetitions no later pair overwrites an earlier one. -/
theorem registerTokens_feeds_of_mem (hnodup : (pairs.map Prod.fst).Nodup)
    (h : (token, priceFeed) ∈ pairs) :
    (registerTokens pairs s_priceFeeds s_collateralTokens).1 token = priceFeed := by
  induction pairs generalizing s_priceFeeds s_collateralTokens with
  | nil => cases h
  | cons pair rest ih =>
      obtain ⟨t, p⟩ := pair
      rw [List.map_cons, List.nodup_cons] at hnodup
      rcases List.mem_cons.mp h with heq | hrest
      · cases heq
        rw [registerTokens, registerTokens_feeds_of_not_mem hnodup.1, Function.update_self]
      · exact ih hnodup.2 hrest

variable {tokenAddresses priceFeedAddresses : List Address} {dscAddress : Address}
  {e : DSCEngine}

def registeredFeeds (tokenAddresses priceFeedAddresses : List Address) : Address → Address :=
  (registerTokens (tokenAddresses.zip priceFeedAddresses) (fun _ => 0) []).1

theorem constructor_eq_ok :
    constructor tokenAddresses priceFeedAddresses dscAddress = .ok e ↔
      tokenAddresses.length = priceFeedAddresses.length ∧
        e = {
          s_priceFeeds := registeredFeeds tokenAddresses priceFeedAddresses
          s_collateralDeposited := fun _ _ => 0
          s_DSCMinted := fun _ => 0
          s_collateralTokens := tokenAddresses
          i_dsc := dscAddress
          _status := _NOT_ENTERED } := by
  simp only [constructor, except_bind_eq_ok, failIf_eq_ok, except_pure_eq_ok, not_not,
    registerTokens_tokens, List.nil_append, exists_const, registeredFeeds]
  constructor
  · rintro ⟨hlength, rfl⟩
    rw [List.map_fst_zip hlength.le]
    exact ⟨hlength, rfl⟩
  · rintro ⟨hlength, rfl⟩
    rw [List.map_fst_zip hlength.le]
    exact ⟨hlength, rfl⟩

theorem registeredFeeds_of_not_mem (h : token ∉ tokenAddresses) :
    registeredFeeds tokenAddresses priceFeedAddresses token = 0 :=
  registerTokens_feeds_of_not_mem fun hmem => by
    obtain ⟨pair, hpair, rfl⟩ := List.mem_map.mp hmem
    exact h (List.of_mem_zip hpair).1

theorem registeredFeeds_of_mem (hlength : tokenAddresses.length = priceFeedAddresses.length)
    (hnodup : tokenAddresses.Nodup)
    (h : (token, priceFeed) ∈ tokenAddresses.zip priceFeedAddresses) :
    registeredFeeds tokenAddresses priceFeedAddresses token = priceFeed :=
  registerTokens_feeds_of_mem (by rwa [List.map_fst_zip hlength.le]) h

end DefiStablecoin.DSCEngine
