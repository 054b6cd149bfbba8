import Mathlib.Algebra.BigOperators.Ring.Finset
import Mathlib.Algebra.Order.BigOperators.Group.Finset
import Mathlib.Algebra.Order.BigOperators.Group.List
import Mathlib.Logic.Function.Basic

/-!
# Collateralised debt

A book records, for arbitrary accounts and tokens, what each account has
deposited and what it owes.  The terms say how deposits are valued and how a
position is scored.  Everything a lending protocol promises about health follows
from three laws of the terms: a valuation is superadditive, the threshold score
is a fixed ratio between debt and value, and below the threshold the score moves
with the position.
-/

namespace DefiStablecoin.Lending

variable {Account Token : Type*}

/-- How deposits are valued and positions are scored. -/
structure Terms (Token : Type*) where
  tokens : List Token
  worth : Token → ℕ → ℕ
  /-- The score of a debt against a collateral value. -/
  score : ℕ → ℕ → ℕ
  threshold : ℕ
  ratio : ℕ
  worth_add_le : ∀ t a b, worth t a + worth t b ≤ worth t (a + b)
  threshold_le_score : ∀ debt value, threshold ≤ score debt value ↔ ratio * debt ≤ value
  score_mono : ∀ {debt value debt' value'}, score debt value < threshold →
    debt' ≤ debt → value ≤ value' → score debt value ≤ score debt' value'

/-- Deposits and debts, in unbounded arithmetic. -/
@[ext]
structure Book (Account Token : Type*) where
  collateral : Account → Token → ℕ
  debt : Account → ℕ

namespace Terms

variable (T : Terms Token)

theorem worth_mono (t : Token) : Monotone (T.worth t) := by
  intro a b hab
  have hsplit := T.worth_add_le t a (b - a)
  rw [Nat.add_sub_cancel' hab] at hsplit
  omega

def value (deposited : Token → ℕ) : ℕ := (T.tokens.map fun t => T.worth t (deposited t)).sum

theorem value_le_value {T T' : Terms Token} {f g : Token → ℕ} (htokens : T'.tokens = T.tokens)
    (h : ∀ t ∈ T.tokens, T.worth t (f t) ≤ T'.worth t (g t)) : T.value f ≤ T'.value g := by
  unfold value
  rw [htokens]
  exact List.sum_le_sum h

theorem value_mono {f g : Token → ℕ} (h : ∀ t, f t ≤ g t) : T.value f ≤ T.value g :=
  value_le_value rfl fun t _ => T.worth_mono t (h t)

theorem value_add_le (f g : Token → ℕ) :
    T.value f + T.value g ≤ T.value (fun t => f t + g t) := by
  unfold value
  induction T.tokens with
  | nil => simp
  | cons t ts ih =>
      have hhead := T.worth_add_le t (f t) (g t)
      simp only [List.map_cons, List.sum_cons] at ih ⊢
      omega

theorem worth_zero (t : Token) : T.worth t 0 = 0 := by
  have hsplit := T.worth_add_le t 0 0
  rw [Nat.add_zero] at hsplit
  omega

theorem value_zero : T.value (fun _ => 0) = 0 := by
  simp [value, worth_zero]

section Update

variable [DecidableEq Token] {T}

theorem value_update_of_not_mem {t : Token} (ht : t ∉ T.tokens) (f : Token → ℕ) (x : ℕ) :
    T.value (Function.update f t x) = T.value f := by
  unfold value
  apply congrArg List.sum
  apply List.map_congr_left
  intro t' ht'
  rw [Function.update_of_ne (ne_of_mem_of_not_mem ht' ht)]

theorem value_update {t : Token} (hnodup : T.tokens.Nodup) (ht : t ∈ T.tokens) (f : Token → ℕ)
    (x : ℕ) : T.value (Function.update f t x) + T.worth t (f t) = T.value f + T.worth t x := by
  unfold value
  generalize T.tokens = tokens at hnodup ht ⊢
  induction tokens with
  | nil => exact absurd ht List.not_mem_nil
  | cons t' ts ih =>
      obtain ⟨hfresh, hnodup⟩ := List.nodup_cons.mp hnodup
      simp only [List.map_cons, List.sum_cons]
      by_cases heq : t' = t
      · subst heq
        have hrest : ts.map (fun t => T.worth t (Function.update f t' x t)) =
            ts.map fun t => T.worth t (f t) := by
          apply List.map_congr_left
          intro t ht
          rw [Function.update_of_ne (ne_of_mem_of_not_mem ht hfresh)]
        rw [hrest, Function.update_self]
        omega
      · have hmem : t ∈ ts := (List.mem_cons.mp ht).resolve_left fun h => heq h.symm
        have htail := ih hnodup hmem
        rw [Function.update_of_ne heq]
        omega

end Update

/-- The values of all rows together are at most the value of the summed deposits. -/
theorem sum_value_le [DecidableEq Account] (s : Finset Account)
    (deposited : Account → Token → ℕ) :
    ∑ u ∈ s, T.value (deposited u) ≤ T.value (fun t => ∑ u ∈ s, deposited u t) := by
  induction s using Finset.induction_on with
  | empty => simp
  | insert u s hu ih =>
      simp only [Finset.sum_insert hu]
      exact (Nat.add_le_add_left ih _).trans (T.value_add_le _ _)

variable (b : Book Account Token) (u : Account)

def scoreOf : ℕ := T.score (b.debt u) (T.value (b.collateral u))

def Healthy : Prop := T.ratio * b.debt u ≤ T.value (b.collateral u)

instance : Decidable (T.Healthy b u) := Nat.decLe _ _

variable {T b u} {b' : Book Account Token}

theorem threshold_le_scoreOf : T.threshold ≤ T.scoreOf b u ↔ T.Healthy b u :=
  T.threshold_le_score _ _

theorem scoreOf_lt_threshold : T.scoreOf b u < T.threshold ↔ ¬T.Healthy b u := by
  rw [← threshold_le_scoreOf, not_le]

theorem Healthy.mono (h : T.Healthy b u) (hcollateral : ∀ t, b.collateral u t ≤ b'.collateral u t)
    (hdebt : b'.debt u ≤ b.debt u) : T.Healthy b' u :=
  calc T.ratio * b'.debt u ≤ T.ratio * b.debt u := Nat.mul_le_mul_left _ hdebt
    _ ≤ T.value (b.collateral u) := h
    _ ≤ T.value (b'.collateral u) := T.value_mono hcollateral

/-- **Solvency.** When every account is healthy and the reserve of each token
covers what is recorded as deposited, the reserves cover the whole debt. -/
theorem solvent [Fintype Account] [DecidableEq Account] {reserve : Token → ℕ}
    (hhealthy : ∀ u, T.Healthy b u) (hreserve : ∀ t, ∑ u, b.collateral u t ≤ reserve t) :
    T.ratio * ∑ u, b.debt u ≤ T.value reserve :=
  calc T.ratio * ∑ u, b.debt u = ∑ u, T.ratio * b.debt u := Finset.mul_sum _ _ _
    _ ≤ ∑ u, T.value (b.collateral u) := Finset.sum_le_sum fun u _ => hhealthy u
    _ ≤ T.value (fun t => ∑ u, b.collateral u t) := T.sum_value_le _ _
    _ ≤ T.value reserve := T.value_mono hreserve

end Terms

section Untouched

variable {T : Terms Token} {v : Account} {b b' b'' : Book Account Token}

def Book.Untouched (v : Account) (b b' : Book Account Token) : Prop :=
  b'.collateral v = b.collateral v ∧ b'.debt v = b.debt v

theorem Book.Untouched.trans (h : b.Untouched v b') (h' : b'.Untouched v b'') :
    b.Untouched v b'' :=
  ⟨h'.1.trans h.1, h'.2.trans h.2⟩

theorem Book.Untouched.healthy_iff (h : b.Untouched v b') : T.Healthy b' v ↔ T.Healthy b v := by
  unfold Terms.Healthy
  rw [h.1, h.2]

theorem Book.Untouched.scoreOf_eq (h : b.Untouched v b') : T.scoreOf b' v = T.scoreOf b v := by
  unfold Terms.scoreOf
  rw [h.1, h.2]

end Untouched

end DefiStablecoin.Lending
