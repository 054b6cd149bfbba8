import DefiStablecoin.Contracts.World

/-!
# OracleLib

The staleness check in front of every price.  A feed address without code makes
the call itself revert.
-/

namespace DefiStablecoin.OracleLib

open Solidity

/-- `3 hours`, in seconds. -/
def TIMEOUT : UInt256 := 10800

def latestRoundData (priceFeed : Address) (w : World) : Except Revert RoundData :=
  match w.feed priceFeed with
  | some round => .ok round
  | none => .error .noCode

def staleCheckLatestRoundData (priceFeed : Address) (w : World) :
    Except Revert RoundData := do
  let round ← latestRoundData priceFeed w
  let secondsSince ← checkedSub w.timestamp round.updatedAt
  failIf (secondsSince > TIMEOUT) .OracleLib__StalePrice
  return round

def Fresh (timestamp : UInt256) (round : RoundData) : Prop :=
  round.updatedAt.toNat ≤ timestamp.toNat ∧
    timestamp.toNat - round.updatedAt.toNat ≤ TIMEOUT.toNat

instance (timestamp : UInt256) (round : RoundData) : Decidable (Fresh timestamp round) :=
  inferInstanceAs (Decidable (_ ∧ _))

theorem staleCheckLatestRoundData_eq_ok {priceFeed : Address} {w : World}
    {round : RoundData} :
    staleCheckLatestRoundData priceFeed w = .ok round ↔
      w.feed priceFeed = some round ∧ Fresh w.timestamp round := by
  unfold staleCheckLatestRoundData latestRoundData
  cases hfeed : w.feed priceFeed with
  | none => simp [except_bind_eq_ok]
  | some r =>
      simp only [except_bind_eq_ok, checkedSub_eq_ok, failIf_eq_ok, except_pure_eq_ok,
        gt_iff_lt, BitVec.lt_def, Nat.not_lt, Except.ok.injEq, Option.some.injEq, Fresh]
      constructor
      · rintro ⟨_, rfl, _, ⟨hle, rfl⟩, _, hold, rfl⟩
        rw [BitVec.toNat_sub_of_le (BitVec.le_def.mpr hle)] at hold
        exact ⟨rfl, hle, hold⟩
      · rintro ⟨rfl, hle, hold⟩
        rw [← BitVec.toNat_sub_of_le (BitVec.le_def.mpr hle)] at hold
        exact ⟨r, rfl, _, ⟨hle, rfl⟩, (), hold, rfl⟩

end DefiStablecoin.OracleLib
