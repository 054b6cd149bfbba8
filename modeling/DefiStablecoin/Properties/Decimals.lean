import DefiStablecoin.System.Deployment
import Mathlib.Tactic.Positivity
import Mathlib.Tactic.Ring

/-!
# Decimals

The two conversions scale every price by the same constants, which fit a feed
with 8 decimals on a token with 18.  They are right for other tokens only where
the decimals add up to the same 26, or where everything rounds to nothing.
-/

namespace DefiStablecoin

/-! ## Comparing floored quotients -/

section Floors

variable {n c n' c' : ℕ}

/-- Two quotients, one of them at least twice the other, have the same floor only at zero. -/
theorem div_eq_div_iff_of_scaled {s : ℕ} (hc : 0 < c) (hc' : 0 < c') (hs : 2 ≤ s)
    (h : n' * c = n * c' * s) : n / c = n' / c' ↔ n < c ∧ n' < c' := by
  have hscaled : n' / c' = n * s / c :=
    calc n' / c' = n' * c / (c' * c) := (Nat.mul_div_mul_right _ _ hc).symm
      _ = n * s * c' / (c * c') := by rw [h, Nat.mul_right_comm, Nat.mul_comm c']
      _ = n * s / c := Nat.mul_div_mul_right _ _ hc'
  constructor
  · intro heq
    have hgrow : n / c * s ≤ n * s / c := by
      rw [Nat.le_div_iff_mul_le hc, Nat.mul_right_comm]
      exact Nat.mul_le_mul_right _ (Nat.div_mul_le_self n c)
    have htwice : n / c * 2 ≤ n / c * s := Nat.mul_le_mul_left _ hs
    have hzero : n / c = 0 := by omega
    refine ⟨(Nat.div_eq_zero_iff_lt hc).mp hzero, ?_⟩
    exact (Nat.div_eq_zero_iff_lt hc').mp (heq ▸ hzero)
  · rintro ⟨hlt, hlt'⟩
    rw [Nat.div_eq_of_lt hlt, Nat.div_eq_of_lt hlt']

/-- Quotients that differ by a power of ten have the same floor only at zero, or when
the power is none. -/
theorem div_eq_div_iff_of_pow {i j : ℕ} (hc : 0 < c) (hc' : 0 < c')
    (h : n' * c * 10 ^ i = n * c' * 10 ^ j) : n / c = n' / c' ↔ i = j ∨ (n < c ∧ n' < c') := by
  have hten : ∀ e, e ≠ 0 → 2 ≤ 10 ^ e := fun e he =>
    le_trans (by decide) (Nat.pow_le_pow_right (by decide : 0 < 10) (Nat.pos_of_ne_zero he))
  rcases Nat.lt_trichotomy i j with hij | rfl | hij
  · obtain ⟨e, rfl⟩ := Nat.exists_eq_add_of_le hij.le
    rw [Nat.pow_add, Nat.mul_comm (10 ^ i), ← Nat.mul_assoc] at h
    have hcancel := Nat.eq_of_mul_eq_mul_right (by positivity) h
    rw [div_eq_div_iff_of_scaled hc hc' (hten e (by omega)) hcancel]
    omega
  · have hcancel := Nat.eq_of_mul_eq_mul_right (by positivity) h
    have heq : n / c = n' / c' :=
      calc n / c = n * c' / (c * c') := (Nat.mul_div_mul_right _ _ hc').symm
        _ = n' * c / (c' * c) := by rw [hcancel, Nat.mul_comm c']
        _ = n' / c' := Nat.mul_div_mul_right _ _ hc
    simp [heq]
  · obtain ⟨e, rfl⟩ := Nat.exists_eq_add_of_le hij.le
    rw [Nat.pow_add, Nat.mul_comm (10 ^ j), ← Nat.mul_assoc] at h
    have hcancel := Nat.eq_of_mul_eq_mul_right (by positivity) h
    rw [eq_comm, div_eq_div_iff_of_scaled hc' hc (hten e (by omega)) hcancel.symm]
    omega

end Floors

namespace DSCEngine

open Solidity World

/-! ## The conversions with decimals -/

/-- What an amount of a token with `k` decimals is worth at a price with `f`
decimals, in dollars with 18. -/
def usdValueOf (k f price amount : ℕ) : ℕ := amount * price * 10 ^ 18 / 10 ^ (k + f)

def tokenAmountOf (k f price usdAmount : ℕ) : ℕ := usdAmount * 10 ^ (k + f) / (price * 10 ^ 18)

/-- Both conversions, the engine's and the right one, round to nothing. -/
def RoundsToZero (k f price amount usdAmount : ℕ) : Prop :=
  (price * 10 ^ 10 * amount < 10 ^ 18 ∧ amount * price * 10 ^ 18 < 10 ^ (k + f)) ∧
    (usdAmount * 10 ^ 18 < price * 10 ^ 10 ∧ usdAmount * 10 ^ (k + f) < price * 10 ^ 18)

theorem usdValue_eq_iff (k f price amount : ℕ) :
    usdValue price amount = usdValueOf k f price amount ↔
      k + f = 26 ∨ (price * 10 ^ 10 * amount < 10 ^ 18 ∧
        amount * price * 10 ^ 18 < 10 ^ (k + f)) := by
  apply div_eq_div_iff_of_pow (by positivity) (by positivity)
  ring

theorem tokenAmount_eq_iff {price : ℕ} (hprice : 0 < price) (k f usdAmount : ℕ) :
    tokenAmount price usdAmount = tokenAmountOf k f price usdAmount ↔
      k + f = 26 ∨ (usdAmount * 10 ^ 18 < price * 10 ^ 10 ∧
        usdAmount * 10 ^ (k + f) < price * 10 ^ 18) := by
  rw [eq_comm (a := k + f)]
  apply div_eq_div_iff_of_pow (by positivity) (by positivity)
  ring

variable {w : World} {token : Address} {amount usdAmountInWei value tokens : UInt256}
  {round : RoundData}

theorem price_of_answer (hfeed : w.feed (w.s_priceFeeds token) = some round)
    (hpos : 0 < round.answer.toInt) : w.market.price token = round.answer.toInt.toNat := by
  have hprice : w.market.price token = round.answer.toNat := by
    unfold Market.price
    rw [show w.market.feed (w.market.s_priceFeeds token) = some round from hfeed]
    rfl
  rw [hprice, BitVec.toInt_eq_toNat_of_lt (BitVec.toInt_pos_iff.mp hpos.le), Int.toNat_natCast]

/-- **The conversions respect the decimals of a token and its feed exactly when these
add up to 26 or everything rounds to nothing.** -/
theorem conversions_respect_decimals_iff (k f : ℕ)
    (hfeed : w.feed (w.s_priceFeeds token) = some round) (hpos : 0 < round.answer.toInt)
    (hvalue : getUsdValue token amount w = .ok value)
    (htokens : getTokenAmountFromUsd token usdAmountInWei w = .ok tokens) :
    (value.toNat = usdValueOf k f round.answer.toInt.toNat amount.toNat ∧
      tokens.toNat = tokenAmountOf k f round.answer.toInt.toNat usdAmountInWei.toNat) ↔
      k + f = 26 ∨
        RoundsToZero k f round.answer.toInt.toNat amount.toNat usdAmountInWei.toNat := by
  have hprice := price_of_answer hfeed hpos
  have hpositive : 0 < round.answer.toInt.toNat := by omega
  obtain ⟨_, _, hvalue⟩ := getUsdValue_eq_ok.mp hvalue
  obtain ⟨_, _, _, htokens⟩ := getTokenAmountFromUsd_eq_ok.mp htokens
  rw [hvalue, htokens, hprice, usdValue_eq_iff, tokenAmount_eq_iff hpositive, ← or_and_left]
  rfl

/-- With 18 decimals of the token and 8 of its feed, one WETH is worth its price. -/
theorem conversions_respect_decimals_weth :
    (2000 * 10 ^ 18 : UInt256).toNat =
        usdValueOf 18 8 (2000 * 10 ^ 8 : Int256).toInt.toNat (10 ^ 18 : UInt256).toNat ∧
      (5 * 10 ^ 17 : UInt256).toNat =
        tokenAmountOf 18 8 (2000 * 10 ^ 8 : Int256).toInt.toNat
          (1000 * 10 ^ 18 : UInt256).toNat := by
  have hfeed : Deployment.anvil.genesis.feed
      (Deployment.anvil.genesis.s_priceFeeds Deployment.weth) =
        some (Deployment.mockRound (2000 * 10 ^ 8)) := rfl
  have hvalue : getUsdValue Deployment.weth (10 ^ 18) Deployment.anvil.genesis =
      .ok (2000 * 10 ^ 18) := by decide +kernel
  have htokens : getTokenAmountFromUsd Deployment.weth (1000 * 10 ^ 18)
      Deployment.anvil.genesis = .ok (5 * 10 ^ 17) := by decide +kernel
  exact (conversions_respect_decimals_iff 18 8 hfeed (by decide) hvalue htokens).mpr (.inl rfl)

/-- With 8 decimals of the token and 8 of its feed, one WBTC at $1000 is worth a
ten-billionth of its price, and $1000 buy ten billion WBTC. -/
theorem conversions_disrespect_decimals_wbtc :
    let w := Deployment.anvil.genesis
    (w.feed (w.s_priceFeeds Deployment.wbtc)).map RoundData.answer = some (1000 * 10 ^ 8) ∧
    getUsdValue Deployment.wbtc (10 ^ 8) w = .ok (1000 * 10 ^ 8) ∧
    (1000 * 10 ^ 8 : UInt256).toNat ≠ usdValueOf 8 8 (1000 * 10 ^ 8) (10 ^ 8) ∧
    getTokenAmountFromUsd Deployment.wbtc (1000 * 10 ^ 18) w = .ok (10 ^ 18) ∧
    (10 ^ 18 : UInt256).toNat ≠ tokenAmountOf 8 8 (1000 * 10 ^ 8) (1000 * 10 ^ 18) := by
  decide +kernel

end DSCEngine

end DefiStablecoin
