import Mathlib.Algebra.Order.Floor.Div
import Mathlib.Algebra.BigOperators.Group.List.Basic
import Mathlib.Tactic.Ring

/-!
# Conversions that round down

An amount converted at a rate and back at its inverse, both times rounded down,
loses less than one unit each way; and the parts of an amount, converted one by
one, lose less than a unit each.
-/

namespace DefiStablecoin.Solidity

/-- An amount at the rate `num / den`, rounded down. -/
def convert (num den amount : ℕ) : ℕ := amount * num / den

variable {num den : ℕ}

theorem convert_mul_le (num den amount : ℕ) : convert num den amount * den ≤ amount * num :=
  Nat.div_mul_le_self _ _

theorem lt_convert_succ_mul (hden : 0 < den) (num amount : ℕ) :
    amount * num < (convert num den amount + 1) * den := by
  rw [Nat.mul_comm _ den]
  exact Nat.lt_mul_div_succ _ hden

@[simp] theorem convert_zero (num den : ℕ) : convert num den 0 = 0 := by
  simp [convert]

/-! ## There and back -/

theorem convert_convert_le (num den amount : ℕ) :
    convert den num (convert num den amount) ≤ amount := by
  apply Nat.div_le_of_le_mul
  rw [Nat.mul_comm num]
  exact convert_mul_le num den amount

/-- What is lost by converting back is at most the rate, rounded up. -/
theorem le_convert_convert_add (hnum : 0 < num) (hden : 0 < den) (amount : ℕ) :
    amount ≤ convert den num (convert num den amount) + den ⌈/⌉ num := by
  have hthere := lt_convert_succ_mul hden num amount
  have hback := lt_convert_succ_mul hnum den (convert num den amount)
  have hrate : den ≤ num * (den ⌈/⌉ num) := le_smul_ceilDiv hnum
  apply Nat.le_of_lt_succ
  apply Nat.lt_of_mul_lt_mul_right (a := num)
  calc amount * num < (convert num den amount + 1) * den := hthere
    _ = convert num den amount * den + den := Nat.succ_mul _ _
    _ ≤ (convert den num (convert num den amount) + 1) * num + num * (den ⌈/⌉ num) :=
        Nat.add_le_add hback.le hrate
    _ = (convert den num (convert num den amount) + den ⌈/⌉ num + 1) * num := by ring

/-- The bound is attained. -/
example : 4 - convert 14 10 (convert 10 14 4) = 14 ⌈/⌉ 10 := by decide

/-! ## The parts of an amount -/

theorem convert_add_le (num den a b : ℕ) :
    convert num den a + convert num den b ≤ convert num den (a + b) := by
  unfold convert
  rw [Nat.add_mul]
  exact Nat.div_add_div_le_add_div

theorem convert_add_le_succ (hden : 0 < den) (num a b : ℕ) :
    convert num den (a + b) ≤ convert num den a + convert num den b + 1 := by
  unfold convert
  rw [Nat.add_mul, Nat.add_div hden]
  split <;> omega

theorem sum_convert_le (num den : ℕ) (amounts : List ℕ) :
    (amounts.map (convert num den)).sum ≤ convert num den amounts.sum := by
  induction amounts with
  | nil => simp
  | cons a rest ih =>
      simp only [List.map_cons, List.sum_cons]
      exact (Nat.add_le_add_left ih _).trans (convert_add_le num den a rest.sum)

/-- Each part but one loses at most a unit. -/
theorem convert_sum_lt (hden : 0 < den) (num : ℕ) {amounts : List ℕ} (h : amounts ≠ []) :
    convert num den amounts.sum < (amounts.map (convert num den)).sum + amounts.length := by
  induction amounts with
  | nil => exact absurd rfl h
  | cons a rest ih =>
      cases rest with
      | nil => simp
      | cons b rest =>
          have hstep := convert_add_le_succ hden num a (b :: rest).sum
          have htail := ih (List.cons_ne_nil b rest)
          simp only [List.map_cons, List.sum_cons, List.length_cons] at hstep htail ⊢
          omega

end DefiStablecoin.Solidity
