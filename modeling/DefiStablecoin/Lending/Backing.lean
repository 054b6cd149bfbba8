import DefiStablecoin.Lending.Step

/-!
# Backing while the terms change

Prices move, so what is healthy on today's terms need not be healthy tomorrow.
What survives is health on a fixed second set of terms, the worst that is to be
expected: it is kept by every step whose own terms are at least as strict, and by
every liquidation that does not take more than these worst terms allow for the
debt that it covers.
-/

namespace DefiStablecoin.Lending

variable {Account Token : Type*}

namespace Terms

/-- Terms that value every unit of a token alike and only tell covered positions
from others. -/
def linear (tokens : List Token) (unit : Token → ℕ) (ratio : ℕ) : Terms Token where
  tokens := tokens
  worth t a := unit t * a
  score debt value := if ratio * debt ≤ value then 1 else 0
  threshold := 1
  ratio := ratio
  worth_add_le t a b := (Nat.mul_add (unit t) a b).ge
  threshold_le_score debt value := by
    split <;> simp [*]
  score_mono {debt value _ _} hlow _ _ := by
    by_cases hcovered : ratio * debt ≤ value
    · simp [hcovered] at hlow
    · simp [hcovered]

def Implies (T F : Terms Token) : Prop :=
  ∀ (debt : ℕ) (deposited : Token → ℕ),
    T.ratio * debt ≤ T.value deposited → F.ratio * debt ≤ F.value deposited

variable {T F : Terms Token}

theorem Healthy.implies {b : Book Account Token} {u : Account} (h : T.Healthy b u)
    (hTF : T.Implies F) : F.Healthy b u :=
  hTF _ _ h

/-- Terms whose valuations are bounded by those of `F`, rescaled, imply `F`. -/
theorem implies_of_worth_le {k l : ℕ} (hl : 0 < l) (htokens : F.tokens = T.tokens)
    (hratio : l * F.ratio ≤ k * T.ratio)
    (hworth : ∀ t ∈ T.tokens, ∀ a, k * T.worth t a ≤ l * F.worth t a) : T.Implies F := by
  intro debt deposited hdebt
  have hvalue : k * T.value deposited ≤ l * F.value deposited := by
    unfold value
    rw [htokens, ← List.sum_map_mul_left, ← List.sum_map_mul_left]
    exact List.sum_le_sum fun t ht => hworth t ht (deposited t)
  apply Nat.le_of_mul_le_mul_left (c := l) _ hl
  calc l * (F.ratio * debt) = l * F.ratio * debt := (Nat.mul_assoc ..).symm
    _ ≤ k * T.ratio * debt := Nat.mul_le_mul_right _ hratio
    _ = k * (T.ratio * debt) := Nat.mul_assoc ..
    _ ≤ k * T.value deposited := Nat.mul_le_mul_left _ hdebt
    _ ≤ l * F.value deposited := hvalue

end Terms

theorem Terms.value_le_of_only [DecidableEq Token] {T : Terms Token} (hnodup : T.tokens.Nodup)
    {t : Token} {f : Token → ℕ} (honly : ∀ t' ∈ T.tokens, t' ≠ t → f t' = 0) :
    T.value f ≤ T.worth t (f t) := by
  have hsame : T.value f ≤ T.value (Function.update (fun _ => 0) t (f t)) := by
    refine value_le_value rfl fun t' ht' => ?_
    by_cases heq : t' = t
    · subst heq
      rw [Function.update_self]
    · rw [honly t' ht' heq, worth_zero]
      exact Nat.zero_le _
  apply hsame.trans
  by_cases ht : t ∈ T.tokens
  · have hvalue := value_update hnodup ht (fun _ => 0) (f t)
    rw [worth_zero, value_zero] at hvalue
    omega
  · rw [value_update_of_not_mem ht, value_zero]
    exact Nat.zero_le _

variable [DecidableEq Account] [DecidableEq Token] {T F : Terms Token} {c v : Account}
  {op : Op Account Token} {ops : List (Op Account Token)} {b b' : Book Account Token}

/-- On the terms `F`, what a liquidation takes is worth at most `ratio` times the
debt that it covers. -/
def Op.Within (F : Terms Token) : Op Account Token → Prop
  | .liquidate _ t seized x =>
      t ∈ F.tokens → ∀ a, F.worth t (a + seized) ≤ F.worth t a + F.ratio * x
  | _ => True

namespace Step

theorem target_backed {t : Token} {seized x : ℕ} (hnodup : F.tokens.Nodup)
    (hcover : seized ≤ b.collateral v t)
    (hwithin : t ∈ F.tokens → ∀ a, F.worth t (a + seized) ≤ F.worth t a + F.ratio * x)
    (hv : F.Healthy b v) : F.Healthy ((b.withdraw v t seized).repay v x) v := by
  have hrow : ((b.withdraw v t seized).repay v x).collateral v =
      Function.update (b.collateral v) t (b.collateral v t - seized) := Function.update_self ..
  have hdebt : ((b.withdraw v t seized).repay v x).debt v = b.debt v - x :=
    Function.update_self ..
  unfold Terms.Healthy at hv ⊢
  rw [hrow, hdebt, Nat.mul_sub]
  by_cases ht : t ∈ F.tokens
  · have hvalue := Terms.value_update hnodup ht (b.collateral v) (b.collateral v t - seized)
    have htaken := hwithin ht (b.collateral v t - seized)
    rw [Nat.sub_add_cancel hcover] at htaken
    omega
  · rw [Terms.value_update_of_not_mem ht]
    omega

/-- **A step on stricter terms keeps every account healthy on the terms `F`.** -/
theorem backed (h : Step T c op b b') (hnodup : F.tokens.Nodup)
    (hTF : (∀ t a, op ≠ .deposit t a) → T.Implies F) (hwithin : op.Within F)
    (hv : F.Healthy b v) : F.Healthy b' v := by
  by_cases htarget : op.target = some v
  · cases h with
    | liquidate hcover =>
        cases Option.some.inj htarget
        exact target_backed hnodup hcover hwithin hv
    | _ => exact absurd htarget (by simp [Op.target])
  by_cases hcaller : v = c
  · subst hcaller
    by_cases hdeposit : ∃ t a, op = .deposit t a
    · obtain ⟨t, a, rfl⟩ := hdeposit
      cases h
      exact hv.mono (b.le_deposit v v t · a) le_rfl
    · have hop : ∀ t a, op ≠ .deposit t a := fun t a heq => hdeposit ⟨t, a, heq⟩
      exact (h.caller_healthy hop).implies (hTF hop)
  · exact (h.untouched hcaller htarget).healthy_iff.mpr hv

end Step

theorem Steps.backed (h : Steps T c ops b b') (hnodup : F.tokens.Nodup)
    (hTF : (∃ op ∈ ops, ∀ t a, op ≠ .deposit t a) → T.Implies F)
    (hwithin : ∀ op ∈ ops, op.Within F) (hv : F.Healthy b v) : F.Healthy b' v := by
  induction h with
  | nil => exact hv
  | @cons op ops b b₁ b₂ head tail ih =>
      apply ih
      · rintro ⟨op', hmem, hop'⟩
        exact hTF ⟨op', List.mem_cons_of_mem _ hmem, hop'⟩
      · exact fun op' hmem => hwithin op' (List.mem_cons_of_mem _ hmem)
      · exact head.backed hnodup (fun hop => hTF ⟨op, List.mem_cons_self .., hop⟩)
          (hwithin op (List.mem_cons_self ..)) hv

end DefiStablecoin.Lending
