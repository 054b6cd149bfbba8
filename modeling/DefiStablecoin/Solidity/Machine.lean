import Mathlib.Data.Nat.Notation
import Mathlib.Tactic.TypeStar

/-!
# Runs of a state machine

A machine takes one action after another; an action that fails leaves its state
alone, so every action has a successor.  `Along` says that every action of a run
is admissible in the state it meets, and `charge` adds up what the actions of a
run cost.  The two rules turn a fact about one step into one about whole runs.
-/

namespace DefiStablecoin.Solidity.Machine

variable {σ α : Type*} (step : σ → α → σ)

def run : σ → List α → σ
  | s, [] => s
  | s, a :: as => run (step s a) as

/-- Every action of the run satisfies `ok` in the state that it meets. -/
def Along (ok : σ → α → Prop) : σ → List α → Prop
  | _, [] => True
  | s, a :: as => ok s a ∧ Along ok (step s a) as

def charge (cost : σ → α → ℕ) : σ → List α → ℕ
  | _, [] => 0
  | s, a :: as => cost s a + charge cost (step s a) as

variable {step} {ok : σ → α → Prop} {cost : σ → α → ℕ}

theorem run_append (s : σ) (as bs : List α) :
    run step s (as ++ bs) = run step (run step s as) bs := by
  induction as generalizing s with
  | nil => rfl
  | cons a as ih => exact ih (step s a)

theorem along_append {s : σ} {as bs : List α} :
    Along step ok s (as ++ bs) ↔ Along step ok s as ∧ Along step ok (run step s as) bs := by
  induction as generalizing s with
  | nil => simp [Along, run]
  | cons a as ih => simp only [List.cons_append, Along, run, ih, and_assoc]

instance decidableAlong [∀ s a, Decidable (ok s a)] :
    ∀ (s : σ) (as : List α), Decidable (Along step ok s as)
  | _, [] => .isTrue trivial
  | s, a :: as =>
      have := decidableAlong (step s a) as
      inferInstanceAs (Decidable (ok s a ∧ Along step ok (step s a) as))

theorem along_of_forall_mem {s : σ} {as : List α} (h : ∀ a ∈ as, ∀ s, ok s a) :
    Along step ok s as := by
  induction as generalizing s with
  | nil => trivial
  | cons a as ih =>
      exact ⟨h a (List.mem_cons_self ..) s, ih fun b hb => h b (List.mem_cons_of_mem _ hb)⟩

theorem Along.and {ok' : σ → α → Prop} {s : σ} {as : List α} (h : Along step ok s as)
    (h' : Along step ok' s as) : Along step (fun s a => ok s a ∧ ok' s a) s as := by
  induction as generalizing s with
  | nil => trivial
  | cons a as ih => exact ⟨⟨h.1, h'.1⟩, ih h.2 h'.2⟩

theorem run_invariant_along {I : σ → Prop} (hstep : ∀ s a, I s → ok s a → I (step s a))
    {s : σ} {as : List α} (hs : I s) (has : Along step ok s as) : I (run step s as) := by
  induction as generalizing s with
  | nil => exact hs
  | cons a as ih => exact ih (hstep s a hs has.1) has.2

theorem run_invariant {I : σ → Prop} (hstep : ∀ s a, I s → I (step s a)) {s : σ} (hs : I s)
    (as : List α) : I (run step s as) := by
  induction as generalizing s with
  | nil => exact hs
  | cons a as ih => exact ih (hstep s a hs)

/-- Double-entry accounting over a run: when every admissible step moves `credit` and
`debit` by the same amount up to its cost, so does the run, up to what it is charged. -/
theorem run_balance_along {I : σ → Prop} (credit debit : σ → ℕ)
    (hinv : ∀ s a, I s → ok s a → I (step s a))
    (hstep : ∀ s a, I s → ok s a →
      credit (step s a) + debit s = credit s + debit (step s a) + cost s a)
    {s : σ} {as : List α} (hs : I s) (has : Along step ok s as) :
    credit (run step s as) + debit s =
      credit s + debit (run step s as) + charge step cost s as := by
  induction as generalizing s with
  | nil => simp [run, charge]
  | cons a as ih =>
      have hhead := hstep s a hs has.1
      have htail := ih (hinv s a hs has.1) has.2
      simp only [run, charge]
      omega

theorem run_balance {I : σ → Prop} (credit debit : σ → ℕ)
    (hinv : ∀ s a, I s → I (step s a))
    (hstep : ∀ s a, I s → credit (step s a) + debit s = credit s + debit (step s a) + cost s a)
    {s : σ} (hs : I s) (as : List α) :
    credit (run step s as) + debit s =
      credit s + debit (run step s as) + charge step cost s as :=
  have halong : Along step (fun _ _ => True) s as := along_of_forall_mem fun _ _ _ => trivial
  run_balance_along credit debit (fun s a h _ => hinv s a h) (fun s a h _ => hstep s a h) hs halong

theorem along_mono {I : σ → Prop} {ok' : σ → α → Prop} (hinv : ∀ s a, I s → I (step s a))
    (h : ∀ s a, I s → ok s a → ok' s a) {s : σ} {as : List α} (hs : I s)
    (has : Along step ok s as) : Along step ok' s as := by
  induction as generalizing s with
  | nil => trivial
  | cons a as ih => exact ⟨h s a hs has.1, ih (hinv s a hs) has.2⟩

theorem charge_congr {I : σ → Prop} {cost' : σ → α → ℕ} (hinv : ∀ s a, I s → I (step s a))
    (hstep : ∀ s a, I s → cost s a = cost' s a) {s : σ} (hs : I s) (as : List α) :
    charge step cost s as = charge step cost' s as := by
  induction as generalizing s with
  | nil => rfl
  | cons a as ih => simp only [charge, hstep s a hs, ih (hinv s a hs)]

/-- A relation between three costs that holds of every admissible step and adds up
holds of what a whole run is charged. -/
theorem charge_rel {I : σ → Prop} {R : ℕ → ℕ → ℕ → Prop} {cost' cost'' : σ → α → ℕ}
    (hzero : R 0 0 0)
    (hadd : ∀ x y z x' y' z', R x y z → R x' y' z' → R (x + x') (y + y') (z + z'))
    (hinv : ∀ s a, I s → I (step s a))
    (hstep : ∀ s a, I s → ok s a → R (cost s a) (cost' s a) (cost'' s a))
    {s : σ} {as : List α} (hs : I s) (has : Along step ok s as) :
    R (charge step cost s as) (charge step cost' s as) (charge step cost'' s as) := by
  induction as generalizing s with
  | nil => exact hzero
  | cons a as ih =>
      apply hadd
      · exact hstep s a hs has.1
      · exact ih (hinv s a hs) has.2

theorem charge_le_charge_append (s : σ) (as bs : List α) :
    charge step cost s as ≤ charge step cost s (as ++ bs) := by
  induction as generalizing s with
  | nil => exact Nat.zero_le _
  | cons a as ih => exact Nat.add_le_add_left (ih (step s a)) _

theorem charge_eq_zero {s : σ} {as : List α} :
    charge step cost s as = 0 ↔ Along step (fun s a => cost s a = 0) s as := by
  induction as generalizing s with
  | nil => simp [charge, Along]
  | cons a as ih => simp only [charge, Along, Nat.add_eq_zero_iff, ih]

end DefiStablecoin.Solidity.Machine
