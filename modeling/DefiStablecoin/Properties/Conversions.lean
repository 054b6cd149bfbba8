import DefiStablecoin.Properties.Decimals

/-!
# Converting there and back

Each of the two conversions undoes the other up to what the roundings lose, which
is at most the rate rounded up and never in the caller's favour.  An amount that is
valued in parts loses less than one unit of value for each part.
-/

namespace DefiStablecoin.DSCEngine

open Solidity OpenZeppelin OracleLib

variable {w : World} {token : Address} {round : RoundData} {P : ℕ}

/-! ## At a given price -/

/-- The token has the scaled price `P`: its feed's answer is positive and usable. -/
structure PricedAt (w : World) (token : Address) (P : ℕ) : Prop where
  quoted : w.market.Quoted token
  scaled : w.market.price token * 10 ^ 10 = P
  pos : 0 < P

theorem pricedAt_of_round (hfeed : w.feed (w.s_priceFeeds token) = some round)
    (hfresh : Fresh w.timestamp round) (hpos : 0 < round.answer.toInt)
    (hP : (P : ℤ) = round.answer.toInt * 10 ^ 10) (hfits : P < 2 ^ 256) :
    PricedAt w token P := by
  have hscaled : w.market.price token * 10 ^ 10 = P := by
    rw [price_of_answer hfeed hpos]
    omega
  exact ⟨⟨round, hfeed, hfresh, hscaled.trans_lt hfits⟩, hscaled, by omega⟩

namespace PricedAt

variable (h : PricedAt w token P)

include h

theorem price_ne_zero : w.market.price token ≠ 0 := by
  have hpos := h.pos
  rw [← h.scaled] at hpos
  omega

theorem exists_usdValue {amount : UInt256} (hfits : P * amount.toNat < 2 ^ 256) :
    ∃ value : UInt256, getUsdValue token amount w = .ok value ∧
      value.toNat = convert P (10 ^ 18) amount.toNat := by
  have hlt : convert P (10 ^ 18) amount.toNat < 2 ^ 256 :=
    (Nat.div_le_self _ _).trans_lt (Nat.mul_comm P _ ▸ hfits)
  refine ⟨BitVec.ofNatLT _ hlt, getUsdValue_eq_ok.mpr ⟨h.quoted, ?_, ?_⟩, rfl⟩
  · rwa [h.scaled]
  · rw [usdValue_eq_convert, h.scaled]
    rfl

theorem exists_tokenAmount {usdAmountInWei : UInt256}
    (hfits : usdAmountInWei.toNat * 10 ^ 18 < 2 ^ 256) :
    ∃ tokens : UInt256, getTokenAmountFromUsd token usdAmountInWei w = .ok tokens ∧
      tokens.toNat = convert (10 ^ 18) P usdAmountInWei.toNat := by
  have hlt : convert (10 ^ 18) P usdAmountInWei.toNat < 2 ^ 256 :=
    (Nat.div_le_self _ _).trans_lt hfits
  refine ⟨BitVec.ofNatLT _ hlt,
    getTokenAmountFromUsd_eq_ok.mpr ⟨h.quoted, h.price_ne_zero, hfits, ?_⟩, rfl⟩
  rw [tokenAmount_eq_convert, h.scaled]
  rfl

theorem usd_round_trip {usdAmountInWei : UInt256}
    (hfits : usdAmountInWei.toNat * 10 ^ 18 < 2 ^ 256) :
    ∃ tokens value, getTokenAmountFromUsd token usdAmountInWei w = .ok tokens ∧
      getUsdValue token tokens w = .ok value ∧ value ≤ usdAmountInWei ∧
      usdAmountInWei.toNat - value.toNat ≤ P ⌈/⌉ (10 ^ 18 : ℕ) := by
  obtain ⟨tokens, htokens, htokens'⟩ := h.exists_tokenAmount hfits
  have hproduct : P * tokens.toNat ≤ usdAmountInWei.toNat * 10 ^ 18 := by
    rw [htokens', Nat.mul_comm]
    exact convert_mul_le _ _ _
  obtain ⟨value, hvalue, hvalue'⟩ := h.exists_usdValue (hproduct.trans_lt hfits)
  rw [htokens'] at hvalue'
  refine ⟨tokens, value, htokens, hvalue, ?_, ?_⟩
  · rw [BitVec.le_def, hvalue']
    exact convert_convert_le _ _ _
  · rw [hvalue', Nat.sub_le_iff_le_add']
    exact le_convert_convert_add (by decide) h.pos _

theorem token_round_trip {amount : UInt256} (hfits : P * amount.toNat < 2 ^ 256) :
    ∃ value tokens, getUsdValue token amount w = .ok value ∧
      getTokenAmountFromUsd token value w = .ok tokens ∧ tokens ≤ amount ∧
      amount.toNat - tokens.toNat ≤ 10 ^ 18 ⌈/⌉ P := by
  obtain ⟨value, hvalue, hvalue'⟩ := h.exists_usdValue hfits
  have hproduct : value.toNat * 10 ^ 18 ≤ P * amount.toNat := by
    rw [hvalue', Nat.mul_comm P]
    exact convert_mul_le _ _ _
  obtain ⟨tokens, htokens, htokens'⟩ := h.exists_tokenAmount (hproduct.trans_lt hfits)
  rw [hvalue'] at htokens'
  refine ⟨value, tokens, hvalue, htokens, ?_, ?_⟩
  · rw [BitVec.le_def, htokens']
    exact convert_convert_le _ _ _
  · rw [htokens', Nat.sub_le_iff_le_add']
    exact le_convert_convert_add h.pos (by decide) _

theorem exists_usdValues {amounts : List UInt256}
    (hfits : P * (amounts.map BitVec.toNat).sum < 2 ^ 256) :
    ∃ values : List UInt256,
      List.Forall₂ (fun amount value => getUsdValue token amount w = .ok value) amounts values ∧
      values.map BitVec.toNat = (amounts.map BitVec.toNat).map (convert P (10 ^ 18)) := by
  have hpart : ∀ amount ∈ amounts, ∃ value : UInt256, getUsdValue token amount w = .ok value ∧
      value.toNat = convert P (10 ^ 18) amount.toNat := by
    intro amount hmem
    have hle : amount.toNat ≤ (amounts.map BitVec.toNat).sum :=
      List.le_sum_of_mem (List.mem_map_of_mem hmem)
    exact h.exists_usdValue ((Nat.mul_le_mul_left P hle).trans_lt hfits)
  choose! valueOf hvalueOf using hpart
  refine ⟨amounts.map valueOf, ?_, ?_⟩
  · rw [List.forall₂_map_right_iff, List.forall₂_same]
    exact fun amount hmem => (hvalueOf amount hmem).1
  · rw [List.map_map, List.map_map]
    exact List.map_congr_left fun amount hmem => (hvalueOf amount hmem).2

end PricedAt

/-- **The two conversions are inverse up to a rounding error that never favours the
caller**, and valuing an amount in parts loses less than one unit for each part. -/
theorem conversions_round_trip (hfeed : w.feed (w.s_priceFeeds token) = some round)
    (hfresh : Fresh w.timestamp round) (hpos : 0 < round.answer.toInt)
    (hP : (P : ℤ) = round.answer.toInt * 10 ^ 10) (hfits : P < 2 ^ 256) :
    (∀ usdAmountInWei : UInt256, usdAmountInWei.toNat * 10 ^ 18 < 2 ^ 256 →
      ∃ tokens value, getTokenAmountFromUsd token usdAmountInWei w = .ok tokens ∧
        getUsdValue token tokens w = .ok value ∧ value ≤ usdAmountInWei ∧
        usdAmountInWei.toNat - value.toNat ≤ P ⌈/⌉ (10 ^ 18 : ℕ)) ∧
    (∀ amount : UInt256, P * amount.toNat < 2 ^ 256 →
      ∃ value tokens, getUsdValue token amount w = .ok value ∧
        getTokenAmountFromUsd token value w = .ok tokens ∧ tokens ≤ amount ∧
        amount.toNat - tokens.toNat ≤ 10 ^ 18 ⌈/⌉ P ∧
        (10 ^ 18 ≤ P → amount.toNat - tokens.toNat ≤ 1)) ∧
    (∀ (amounts : List UInt256) (total : UInt256), amounts ≠ [] →
      total.toNat = (amounts.map BitVec.toNat).sum → P * total.toNat < 2 ^ 256 →
      ∃ values value,
        List.Forall₂ (fun amount value => getUsdValue token amount w = .ok value)
          amounts values ∧
        getUsdValue token total w = .ok value ∧
        (values.map BitVec.toNat).sum ≤ value.toNat ∧
        value.toNat < (values.map BitVec.toNat).sum + amounts.length) := by
  have hpriced := pricedAt_of_round hfeed hfresh hpos hP hfits
  refine ⟨fun usdAmountInWei hfits => hpriced.usd_round_trip hfits, ?_, ?_⟩
  · intro amount hfits
    obtain ⟨value, tokens, hvalue, htokens, hle, hloss⟩ := hpriced.token_round_trip hfits
    refine ⟨value, tokens, hvalue, htokens, hle, hloss, fun hdollar => ?_⟩
    have hunit : 10 ^ 18 ⌈/⌉ P ≤ 1 := (ceilDiv_le_iff_le_mul hpriced.pos).mpr (by omega)
    exact hloss.trans hunit
  · intro amounts total hne htotal hfits
    obtain ⟨value, hvalue, hvalue'⟩ := hpriced.exists_usdValue hfits
    rw [htotal] at hfits hvalue'
    obtain ⟨values, hvalues, hvalues'⟩ := hpriced.exists_usdValues hfits
    refine ⟨values, value, hvalues, hvalue, ?_, ?_⟩
    · rw [hvalue', hvalues']
      exact sum_convert_le _ _ _
    · rw [hvalue', hvalues']
      have hparts : amounts.map BitVec.toNat ≠ [] := mt List.map_eq_nil_iff.mp hne
      have hlt := convert_sum_lt (by decide : 0 < 10 ^ 18) P hparts
      rwa [List.length_map] at hlt

/-- At $2000 a smaller dollar amount buys nothing, and all of it is lost. -/
theorem conversions_round_trip_weth :
    let w := Deployment.anvil.genesis
    ∃ tokens value, getTokenAmountFromUsd Deployment.weth 1999 w = .ok tokens ∧
      getUsdValue Deployment.weth tokens w = .ok value ∧ value ≤ 1999 ∧
      (1999 : UInt256).toNat - value.toNat ≤ (2000 * 10 ^ 18) ⌈/⌉ (10 ^ 18 : ℕ) := by
  intro w
  have hfeed : w.feed (w.s_priceFeeds Deployment.weth) =
      some (Deployment.mockRound (2000 * 10 ^ 8)) := rfl
  exact (conversions_round_trip (P := 2000 * 10 ^ 18) hfeed (by decide) (by decide) (by decide)
    (by decide)).1 1999 (by decide)

end DefiStablecoin.DSCEngine
