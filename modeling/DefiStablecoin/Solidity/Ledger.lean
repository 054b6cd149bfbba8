import DefiStablecoin.Solidity.Word
import Mathlib.Algebra.BigOperators.Group.Finset.Piecewise
import Mathlib.Algebra.Order.BigOperators.Group.Finset

/-!
# Totals of word-valued ledgers

A ledger is a mapping from a finite type of holders to words.  Its total is
taken in unbounded arithmetic.  The lemmas say what one assignment does to the
total, in additive form so that they chain without truncated subtraction.
-/

namespace DefiStablecoin.Solidity

variable {ι : Type*} [Fintype ι]

/-- The sum of a ledger's entries in unbounded arithmetic. -/
def total (f : ι → UInt256) : ℕ := ∑ i, (f i).toNat

@[simp] theorem total_zero : total (fun _ : ι => (0 : UInt256)) = 0 := by
  simp [total]

theorem toNat_le_total (f : ι → UInt256) (i : ι) : (f i).toNat ≤ total f :=
  Finset.single_le_sum (f := fun j => (f j).toNat) (fun _ _ => Nat.zero_le _)
    (Finset.mem_univ i)

variable [DecidableEq ι]

theorem total_update (f : ι → UInt256) (i : ι) (x : UInt256) :
    total (Function.update f i x) + (f i).toNat = total f + x.toNat := by
  unfold total
  have hrest : ∑ j ∈ Finset.univ.erase i, (Function.update f i x j).toNat =
      ∑ j ∈ Finset.univ.erase i, (f j).toNat := by
    apply Finset.sum_congr rfl
    intro j hj
    rw [Function.update_of_ne (Finset.ne_of_mem_erase hj)]
  rw [← Finset.add_sum_erase _ _ (Finset.mem_univ i), hrest,
    ← Finset.add_sum_erase _ (fun j => (f j).toNat) (Finset.mem_univ i),
    Function.update_self]
  omega

theorem total_of_eq_off {f g : ι → UInt256} {i : ι} (h : ∀ j, j ≠ i → g j = f j) :
    total g + (f i).toNat = total f + (g i).toNat := by
  have hupdate : g = Function.update f i (g i) := by
    funext j
    by_cases hj : j = i
    · rw [hj, Function.update_self]
    · rw [Function.update_of_ne hj, h j hj]
  have htotal := total_update f i (g i)
  rwa [← hupdate] at htotal

theorem toNat_add_toNat_le_total (f : ι → UInt256) {i j : ι} (hij : i ≠ j) :
    (f i).toNat + (f j).toNat ≤ total f := by
  unfold total
  rw [← Finset.add_sum_erase _ _ (Finset.mem_univ i)]
  have hj : j ∈ Finset.univ.erase i := Finset.mem_erase.mpr ⟨hij.symm, Finset.mem_univ j⟩
  have := Finset.single_le_sum (f := fun k => (f k).toNat) (fun _ _ => Nat.zero_le _) hj
  omega

/-! ## Transfers between two holders -/

/-- Subtract from one entry, then add to another, both wrapping: the two
assignments of an `unchecked` transfer, in the order in which they run. -/
def shift (f : ι → UInt256) (src dst : ι) (x : UInt256) : ι → UInt256 :=
  let debited := Function.update f src (f src - x)
  Function.update debited dst (debited dst + x)

/-- No entry of a covered transfer wraps while the total fits a word, also when
the two holders are the same. -/
theorem toNat_shift {f : ι → UInt256} {src dst : ι} {x : UInt256}
    (hcover : x.toNat ≤ (f src).toNat) (hfits : total f < 2 ^ 256) (i : ι) :
    (shift f src dst x i).toNat + (if i = src then x.toNat else 0) =
      (f i).toNat + (if i = dst then x.toNat else 0) := by
  have hsub : (f src - x).toNat = (f src).toNat - x.toNat :=
    BitVec.toNat_sub_of_le (BitVec.le_def.mpr hcover)
  unfold shift
  by_cases hsame : src = dst
  · subst hsame
    by_cases hi : i = src
    · subst hi
      have hback : f i - x + x = f i := BitVec.sub_add_cancel (f i) x
      simp [hback]
    · simp [hi]
  · by_cases hdst : i = dst
    · subst hdst
      have hpair := toNat_add_toNat_le_total f hsame
      have hadd : (f i + x).toNat = (f i).toNat + x.toNat :=
        BitVec.toNat_add_of_lt (by omega)
      simp [Ne.symm hsame, hadd]
    · by_cases hsrc : i = src
      · subst hsrc
        simp [hdst, hsub]
        omega
      · simp [hdst, hsrc]

theorem total_shift {f : ι → UInt256} {src dst : ι} {x : UInt256}
    (hcover : x.toNat ≤ (f src).toNat) (hfits : total f < 2 ^ 256) :
    total (shift f src dst x) = total f := by
  have heach : ∀ i ∈ Finset.univ, (shift f src dst x i).toNat +
      (if i = src then x.toNat else 0) = (f i).toNat + (if i = dst then x.toNat else 0) :=
    fun i _ => toNat_shift hcover hfits i
  have hpoint := Finset.sum_congr rfl heach
  simp only [Finset.sum_add_distrib, Finset.sum_ite_eq', Finset.mem_univ, if_true] at hpoint
  exact Nat.add_right_cancel hpoint

omit [Fintype ι] in
theorem shift_shift (f : ι → UInt256) (src dst : ι) (x : UInt256) :
    shift (shift f src dst x) dst src x = f := by
  funext i
  unfold shift
  by_cases hsame : src = dst
  · subst hsame
    by_cases hi : i = src
    · subst hi
      simp
    · simp [hi]
  · by_cases hdst : i = dst
    · subst hdst
      simp [Ne.symm hsame]
    · by_cases hsrc : i = src
      · subst hsrc
        simp [hsame]
      · simp [hsrc]

end DefiStablecoin.Solidity
