import DefiStablecoin.OpenZeppelin.ERC20
import Mathlib.Data.Int.ModEq

/-!
# Bounded fuzz inputs

`_bound` of forge-std wraps a word into a range.  It keeps what is in the range
already and sends the rest to the one value there that is congruent to it modulo
the size of the range, except near the ends of the word, which go near the ends
of the range.
-/

namespace DefiStablecoin.ForgeStd

open Solidity OpenZeppelin

variable {ε : Type} [SolidityError ε]

def checkedMod (a b : UInt256) : Except ε UInt256 :=
  if b.toNat ≠ 0 then .ok (a % b)
  else .error (SolidityError.panic divisionPanic)

theorem checkedMod_of_ne_zero {a b : UInt256} (h : b.toNat ≠ 0) :
    checkedMod (ε := ε) a b = .ok (a % b) := if_pos h

theorem checkedSub_of_le {a b : UInt256} (h : b.toNat ≤ a.toNat) :
    checkedSub (ε := ε) a b = .ok (a - b) := if_pos h

theorem checkedAdd_of_lt {a b : UInt256} (h : a.toNat + b.toNat < 2 ^ 256) :
    checkedAdd (ε := ε) a b = .ok (a + b) := if_pos h

/-- The branches of `_bound` for what is not in the range. -/
def wrap (x min max size fromTop : UInt256) : Except ε UInt256 :=
  if x ≤ 3 ∧ size > x then
    checkedAdd min x
  else if x ≥ maxUInt256 - 3 ∧ size > fromTop then
    checkedSub max fromTop
  else if x > max then do
    let diff ← checkedSub x max
    let rem ← checkedMod diff size
    if rem = 0 then
      return max
    else
      let wrapped ← checkedAdd min rem
      checkedSub wrapped 1
  else if x < min then do
    let diff ← checkedSub min x
    let rem ← checkedMod diff size
    if rem = 0 then
      return min
    else
      let wrapped ← checkedSub max rem
      checkedAdd wrapped 1
  else
    .ok 0

def _bound (x min max : UInt256) : Except ε UInt256 := do
  ERC20.require (min ≤ max) "StdUtils bound(uint256,uint256,uint256): Max is less than min."
  if x ≥ min ∧ x ≤ max then
    return x
  else
    let width ← checkedSub max min
    let size ← checkedAdd width 1
    -- `UINT256_MAX - x` cannot fail, so it does not matter where it is computed
    let fromTop ← checkedSub maxUInt256 x
    wrap x min max size fromTop

/-! ## Wrapping -/

theorem wrap_above {m n x : ℕ} (hmn : m ≤ n) (hx : n < x) :
    let rem := (x - n) % (n - m + 1)
    (rem = 0 → n ≡ x [MOD n - m + 1]) ∧ (rem ≠ 0 → m + rem - 1 ≡ x [MOD n - m + 1]) := by
  intro rem
  have hdiv := Nat.mod_add_div (x - n) (n - m + 1)
  constructor
  · intro hrem
    rw [Nat.modEq_iff_dvd' (by omega)]
    exact Nat.dvd_of_mod_eq_zero hrem
  · intro hrem
    have hlt : rem < n - m + 1 := Nat.mod_lt _ (by omega)
    rw [Nat.modEq_iff_dvd' (by omega)]
    refine ⟨(x - n) / (n - m + 1) + 1, ?_⟩
    rw [Nat.mul_add]
    omega

theorem wrap_below {m n x : ℕ} (hmn : m ≤ n) (hx : x < m) :
    let rem := (m - x) % (n - m + 1)
    (rem = 0 → m ≡ x [MOD n - m + 1]) ∧ (rem ≠ 0 → n - rem + 1 ≡ x [MOD n - m + 1]) := by
  intro rem
  have hdiv := Nat.mod_add_div (m - x) (n - m + 1)
  constructor
  · intro hrem
    apply Nat.ModEq.symm
    rw [Nat.modEq_iff_dvd' (by omega)]
    exact Nat.dvd_of_mod_eq_zero hrem
  · intro hrem
    have hlt : rem < n - m + 1 := Nat.mod_lt _ (by omega)
    apply Nat.ModEq.symm
    rw [Nat.modEq_iff_dvd' (by omega)]
    refine ⟨(m - x) / (n - m + 1) + 1, ?_⟩
    rw [Nat.mul_add]
    omega

/-! ## What is returned -/

variable {x min max r : UInt256}

theorem _bound_of_mem (hmin : min ≤ x) (hmax : x ≤ max) : _bound (ε := ε) x min max = .ok x := by
  have hle : min ≤ max :=
    BitVec.le_def.mpr (le_trans (BitVec.le_def.mp hmin) (BitVec.le_def.mp hmax))
  simp only [_bound, except_bind_eq_ok, ERC20.require_eq_ok]
  refine ⟨(), hle, ?_⟩
  rw [if_pos ⟨hmin, hmax⟩]
  rfl

/-- The result is in the range, and congruent to the input away from the ends of the word. -/
structure Wraps (x min max r : UInt256) : Prop where
  min_le : min.toNat ≤ r.toNat
  le_max : r.toNat ≤ max.toNat
  modEq : 3 < x.toNat → x.toNat < 2 ^ 256 - 4 →
    r.toNat ≡ x.toNat [MOD max.toNat - min.toNat + 1]

section Wrap

variable {size fromTop : UInt256}

theorem wrap_returns (hle : min.toNat ≤ max.toNat)
    (hout : x.toNat < min.toNat ∨ max.toNat < x.toNat)
    (hsize : size.toNat = max.toNat - min.toNat + 1)
    (hfromTop : fromTop.toNat = 2 ^ 256 - 1 - x.toNat) :
    ∃ r, wrap (ε := ε) x min max size fromTop = .ok r ∧ Wraps x min max r := by
  have hx := x.isLt
  have hmax := max.isLt
  have hone : (1 : UInt256).toNat = 1 := rfl
  unfold wrap
  split
  · next hlow =>
      simp only [gt_iff_lt, BitVec.le_def, BitVec.lt_def] at hlow
      have hthree : (3 : UInt256).toNat = 3 := rfl
      have hfits : min.toNat + x.toNat < 2 ^ 256 := by omega
      have hr := BitVec.toNat_add_of_lt hfits
      exact ⟨min + x, checkedAdd_of_lt hfits, by omega, by omega, by omega⟩
  split
  · next htop =>
      simp only [ge_iff_le, gt_iff_lt, BitVec.le_def, BitVec.lt_def] at htop
      have hthree : (maxUInt256 - 3).toNat = 2 ^ 256 - 4 := rfl
      have hcover : fromTop.toNat ≤ max.toNat := by omega
      have hr := BitVec.toNat_sub_of_le (BitVec.le_def.mpr hcover)
      exact ⟨max - fromTop, checkedSub_of_le hcover, by omega, by omega, by omega⟩
  have hpos : size.toNat ≠ 0 := by omega
  split
  · next habove =>
      have hover : max.toNat < x.toNat := habove
      have hdiff := BitVec.toNat_sub_of_le (BitVec.le_def.mpr hover.le)
      have hrem : ((x - max) % size).toNat =
          (x.toNat - max.toNat) % (max.toNat - min.toNat + 1) := by
        rw [BitVec.toNat_umod, hdiff, hsize]
      have hlt := Nat.mod_lt (x.toNat - max.toNat) (show max.toNat - min.toNat + 1 > 0 by omega)
      obtain ⟨hzero, hnonzero⟩ := wrap_above hle hover
      by_cases h : (x - max) % size = 0
      · rw [h] at hrem
        refine ⟨max, except_bind_eq_ok.mpr ⟨_, checkedSub_of_le hover.le, ?_⟩,
          ⟨hle, le_rfl, fun _ _ => hzero hrem.symm⟩⟩
        exact except_bind_eq_ok.mpr ⟨_, checkedMod_of_ne_zero hpos, if_pos h⟩
      · have hne := toNat_pos_of_ne_zero h
        have hfits : min.toNat + ((x - max) % size).toNat < 2 ^ 256 := by omega
        have hwrapped := BitVec.toNat_add_of_lt hfits
        have hcover : (1 : UInt256).toNat ≤ (min + (x - max) % size).toNat := by omega
        have hr := BitVec.toNat_sub_of_le (BitVec.le_def.mpr hcover)
        refine ⟨min + (x - max) % size - 1,
          except_bind_eq_ok.mpr ⟨_, checkedSub_of_le hover.le, ?_⟩,
          ⟨by omega, by omega, fun _ _ => ?_⟩⟩
        · refine except_bind_eq_ok.mpr ⟨_, checkedMod_of_ne_zero hpos, ?_⟩
          rw [if_neg h]
          exact except_bind_eq_ok.mpr ⟨_, checkedAdd_of_lt hfits, checkedSub_of_le hcover⟩
        · rw [hr, hwrapped, hrem, hone]
          exact hnonzero (by omega)
  · next hnot =>
      have hunder : x.toNat < min.toNat := hout.resolve_right hnot
      rw [if_pos (BitVec.lt_def.mpr hunder)]
      have hdiff := BitVec.toNat_sub_of_le (BitVec.le_def.mpr hunder.le)
      have hrem : ((min - x) % size).toNat =
          (min.toNat - x.toNat) % (max.toNat - min.toNat + 1) := by
        rw [BitVec.toNat_umod, hdiff, hsize]
      have hlt := Nat.mod_lt (min.toNat - x.toNat) (show max.toNat - min.toNat + 1 > 0 by omega)
      obtain ⟨hzero, hnonzero⟩ := wrap_below hle hunder
      by_cases h : (min - x) % size = 0
      · rw [h] at hrem
        refine ⟨min, except_bind_eq_ok.mpr ⟨_, checkedSub_of_le hunder.le, ?_⟩,
          ⟨le_rfl, hle, fun _ _ => hzero hrem.symm⟩⟩
        exact except_bind_eq_ok.mpr ⟨_, checkedMod_of_ne_zero hpos, if_pos h⟩
      · have hne := toNat_pos_of_ne_zero h
        have hcover : ((min - x) % size).toNat ≤ max.toNat := by omega
        have hwrapped := BitVec.toNat_sub_of_le (BitVec.le_def.mpr hcover)
        have hfits : (max - (min - x) % size).toNat + (1 : UInt256).toNat < 2 ^ 256 := by omega
        have hr := BitVec.toNat_add_of_lt hfits
        refine ⟨max - (min - x) % size + 1,
          except_bind_eq_ok.mpr ⟨_, checkedSub_of_le hunder.le, ?_⟩,
          ⟨by omega, by omega, fun _ _ => ?_⟩⟩
        · refine except_bind_eq_ok.mpr ⟨_, checkedMod_of_ne_zero hpos, ?_⟩
          rw [if_neg h]
          exact except_bind_eq_ok.mpr ⟨_, checkedSub_of_le hcover, checkedAdd_of_lt hfits⟩
        · rw [hr, hwrapped, hrem, hone]
          exact hnonzero (by omega)

end Wrap

/-- **Whatever it is given, `_bound` returns a word of the range**, the input itself
if that is in it. -/
theorem _bound_returns (hle : min ≤ max) :
    ∃ r, _bound (ε := ε) x min max = .ok r ∧ Wraps x min max r ∧
      (min ≤ x → x ≤ max → r = x) := by
  by_cases hin : x ≥ min ∧ x ≤ max
  · exact ⟨x, _bound_of_mem hin.1 hin.2,
      ⟨BitVec.le_def.mp hin.1, BitVec.le_def.mp hin.2, fun _ _ => .refl _⟩, fun _ _ => rfl⟩
  · have hmn := BitVec.le_def.mp hle
    have hout : x.toNat < min.toNat ∨ max.toNat < x.toNat := by
      simp only [ge_iff_le, BitVec.le_def, not_and, not_le] at hin
      omega
    have hx := x.isLt
    have hmax := max.isLt
    have hone : (1 : UInt256).toNat = 1 := rfl
    have hwidth : (max - min).toNat = max.toNat - min.toNat := BitVec.toNat_sub_of_le hle
    have hfits : (max - min).toNat + (1 : UInt256).toNat < 2 ^ 256 := by omega
    have hsize : (max - min + 1).toNat = max.toNat - min.toNat + 1 := by
      rw [BitVec.toNat_add_of_lt hfits, hwidth, hone]
    have htop : x.toNat ≤ maxUInt256.toNat := by
      rw [toNat_maxUInt256]
      omega
    have hfromTop : (maxUInt256 - x).toNat = 2 ^ 256 - 1 - x.toNat := by
      rw [BitVec.toNat_sub_of_le (BitVec.le_def.mpr htop), toNat_maxUInt256]
    obtain ⟨r, hr, hwraps⟩ := wrap_returns (ε := ε) hmn hout hsize hfromTop
    refine ⟨r, ?_, hwraps, fun hlow hhigh => absurd ⟨hlow, hhigh⟩ hin⟩
    simp only [_bound, except_bind_eq_ok, ERC20.require_eq_ok, if_neg hin, checkedSub_eq_ok,
      checkedAdd_eq_ok]
    exact ⟨(), hle, _, ⟨hmn, rfl⟩, _, ⟨hfits, rfl⟩, _, ⟨htop, rfl⟩, hr⟩

theorem _bound_self (x m : UInt256) : _bound (ε := ε) x m m = .ok m := by
  obtain ⟨r, hr, hwraps, _⟩ :=
    _bound_returns (ε := ε) (x := x) (BitVec.le_def.mpr (le_refl m.toNat))
  rw [hr, BitVec.eq_of_toNat_eq (le_antisymm hwraps.le_max hwraps.min_le)]

end DefiStablecoin.ForgeStd
