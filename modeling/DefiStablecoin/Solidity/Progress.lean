import DefiStablecoin.Solidity.Machine
import Mathlib.Data.Finset.Card
import Mathlib.Data.Fintype.Defs

/-!
# What a machine can be led to

Safety says where no run goes; here is where some run can be made to go.  The one
rule is descent: a state whose measure can be lowered by some continuation, again
and again, can be led to measure zero.
-/

namespace DefiStablecoin.Solidity.Machine

variable {σ α : Type*} {step : σ → α → σ} {ok : α → Prop} {s s' s'' : σ}

/-- Actions of an admissible kind lead from one state to the other. -/
def Leads (step : σ → α → σ) (ok : α → Prop) (s s' : σ) : Prop :=
  ∃ as : List α, (∀ a ∈ as, ok a) ∧ run step s as = s'

namespace Leads

theorem refl (s : σ) : Leads step ok s s := ⟨[], by simp, rfl⟩

theorem single {a : α} (ha : ok a) : Leads step ok s (step s a) :=
  ⟨[a], by simpa using ha, rfl⟩

theorem trans (h : Leads step ok s s') (h' : Leads step ok s' s'') : Leads step ok s s'' := by
  obtain ⟨as, has, rfl⟩ := h
  obtain ⟨bs, hbs, rfl⟩ := h'
  refine ⟨as ++ bs, fun a ha => ?_, run_append s as bs⟩
  rcases List.mem_append.mp ha with ha | ha
  · exact has a ha
  · exact hbs a ha

theorem mono {ok' : α → Prop} (h : Leads step ok s s') (hle : ∀ a, ok a → ok' a) :
    Leads step ok' s s' := by
  obtain ⟨as, has, hrun⟩ := h
  exact ⟨as, fun a ha => hle a (has a ha), hrun⟩

theorem invariant {I : σ → Prop} (hstep : ∀ s a, I s → ok a → I (step s a))
    (h : Leads step ok s s') (hs : I s) : I s' := by
  obtain ⟨as, has, rfl⟩ := h
  exact run_invariant_along hstep hs (along_of_forall_mem fun a ha _ => has a ha)

/-- **Descent.** While the measure is positive some continuation lowers it, so some
continuation brings it to zero. -/
theorem descend {I : σ → Prop} {measure : σ → ℕ}
    (h : ∀ s, I s → measure s ≠ 0 → ∃ s', Leads step ok s s' ∧ I s' ∧ measure s' < measure s)
    (hs : I s) : ∃ s', Leads step ok s s' ∧ I s' ∧ measure s' = 0 := by
  induction hn : measure s using Nat.strong_induction_on generalizing s with
  | h n ih =>
      by_cases hzero : measure s = 0
      · exact ⟨s, refl s, hs, hzero⟩
      · obtain ⟨s₁, hlead, hs₁, hlt⟩ := h s hs hzero
        obtain ⟨s', hlead', hs', hend⟩ := ih (measure s₁) (hn ▸ hlt) hs₁ rfl
        exact ⟨s', hlead.trans hlead', hs', hend⟩

variable {ι : Type*} [Fintype ι]

/-- Descent over a finite type: whoever is not yet done can be dealt with, without
undoing those who are. -/
theorem sweep {I : σ → Prop} {done : σ → ι → Prop}
    (h : ∀ s i, I s → ¬done s i →
      ∃ s', Leads step ok s s' ∧ I s' ∧ done s' i ∧ ∀ j, done s j → done s' j)
    (hs : I s) : ∃ s', Leads step ok s s' ∧ I s' ∧ ∀ i, done s' i := by
  classical
  let remaining (s : σ) : Finset ι := Finset.univ.filter fun i => ¬done s i
  have hmem : ∀ s i, i ∈ remaining s ↔ ¬done s i := by simp [remaining]
  have hlower : ∀ s, I s → (remaining s).card ≠ 0 →
      ∃ s', Leads step ok s s' ∧ I s' ∧ (remaining s').card < (remaining s).card := by
    intro s hs hpos
    obtain ⟨i, hi⟩ := Finset.card_ne_zero.mp hpos
    obtain ⟨s', hlead, hs', hdone, hkept⟩ := h s i hs ((hmem s i).mp hi)
    refine ⟨s', hlead, hs', Finset.card_lt_card ?_⟩
    apply (Finset.ssubset_iff_of_subset _).mpr
    · exact ⟨i, hi, fun hi' => (hmem s' i).mp hi' hdone⟩
    · exact fun j hj => (hmem s j).mpr fun hj' => (hmem s' j).mp hj (hkept j hj')
  obtain ⟨s', hlead, hs', hend⟩ := descend hlower hs
  refine ⟨s', hlead, hs', fun i => ?_⟩
  by_contra hi
  have hempty := Finset.card_eq_zero.mp hend
  exact absurd ((hmem s' i).mpr hi) (hempty ▸ Finset.notMem_empty i)

end Leads

end DefiStablecoin.Solidity.Machine
