import Mathlib.Algebra.Group.Basic
import Mathlib.Algebra.Group.Pi.Basic

/-!
# Transitions that commute

A state is seen through its entries, which live in an additive group.  Two steps
are parallel when they displace the entries by the same amount.  A transition is
local to a relation when it can follow, in parallel, from any related state.  Two
local transitions that keep to their own entries can be taken in either order.
-/

namespace DefiStablecoin.Solidity

variable {σ G : Type*} [AddCommGroup G]

/-! ## Parallel steps -/

/-- The step from `v` to `v'` displaces the entries as the one from `w` to `w'` does. -/
def Parallel (entry : σ → G) (v v' w w' : σ) : Prop :=
  entry w' - entry w = entry v' - entry v

namespace Parallel

variable {entry : σ → G} {v v' v'' w w' w'' : σ}

theorem of_displacement {δ : G} (hv : entry v' = entry v + δ) (hw : entry w' = entry w + δ) :
    Parallel entry v v' w w' := by
  unfold Parallel
  rw [hv, hw, add_sub_cancel_left, add_sub_cancel_left]

theorem trans (h : Parallel entry v v' w w') (h' : Parallel entry v' v'' w' w'') :
    Parallel entry v v'' w w'' :=
  calc entry w'' - entry w = entry w'' - entry w' + (entry w' - entry w) :=
        (sub_add_sub_cancel ..).symm
    _ = entry v'' - entry v' + (entry v' - entry v) := congrArg₂ (· + ·) h' h
    _ = entry v'' - entry v := sub_add_sub_cancel ..

/-- Two steps, and two steps parallel to them in the other order, end at the same place. -/
theorem square (h : Parallel entry v v' w w') (h' : Parallel entry w v w' v'') :
    entry v'' = entry v' := by
  have hdisplaced : entry v'' - entry w = entry v' - entry w :=
    calc entry v'' - entry w = entry v'' - entry w' + (entry w' - entry w) :=
          (sub_add_sub_cancel ..).symm
      _ = entry v - entry w + (entry v' - entry v) := congrArg₂ (· + ·) h' h
      _ = entry v' - entry w := (add_comm ..).trans (sub_add_sub_cancel ..)
  exact sub_left_injective hdisplaced

theorem apply_eq {ι M : Type*} [AddCommGroup M] {entry : σ → ι → M}
    (h : Parallel entry v v' w w') {i : ι} (hi : entry w i = entry v i) :
    entry w' i = entry v' i := by
  have hdisplaced : entry w' i - entry w i = entry v' i - entry v i := congrFun h i
  rwa [hi, sub_left_inj] at hdisplaced

end Parallel

/-! ## Displacing one entry -/

theorem update_add_single {ι M : Type*} [DecidableEq ι] [AddGroup M] (f : ι → M) (i : ι) (x : M) :
    Function.update f i (f i + x) = f + Pi.single i x := by
  funext j
  by_cases hj : j = i
  · subst hj
    simp
  · simp [hj]

theorem update_update_add {ι κ M : Type*} [DecidableEq ι] [DecidableEq κ] [AddGroup M]
    (f : ι → κ → M) (i i' : ι) (j j' : κ) (x : M) :
    Function.update f i (Function.update (f i) j (f i j + x)) i' j' =
      f i' j' + if i' = i ∧ j' = j then x else 0 := by
  by_cases hi : i' = i
  · subst hi
    by_cases hj : j' = j
    · subst hj
      simp
    · simp [hj]
  · simp [hi]

/-! ## Local transitions -/

/-- From every related state the transition can be taken in parallel. -/
def Local (entry : σ → G) (related transition : σ → σ → Prop) : Prop :=
  ∀ ⦃v v' w : σ⦄, related v w → transition v v' →
    ∃ w', transition w w' ∧ Parallel entry v v' w w'

/-- **Local transitions commute**, when the first leaves alone what the second is local
to, and the other way round. -/
theorem Local.commute {entry : σ → G} {relatedA relatedB A B : σ → σ → Prop} {s s₁ s₂ : σ}
    (hA : Local entry relatedA A) (hB : Local entry relatedB B) (hfirst : A s s₁)
    (hsecond : B s₁ s₂) (hback : relatedB s₁ s) (hforth : ∀ v₁, B s v₁ → relatedA s v₁) :
    ∃ v₁ v₂, B s v₁ ∧ A v₁ v₂ ∧ entry v₂ = entry s₂ := by
  obtain ⟨v₁, hstep, hparallel⟩ := hB hback hsecond
  obtain ⟨v₂, hstep', hparallel'⟩ := hA (hforth v₁ hstep) hfirst
  exact ⟨v₁, v₂, hstep, hstep', hparallel.square hparallel'⟩

end DefiStablecoin.Solidity
