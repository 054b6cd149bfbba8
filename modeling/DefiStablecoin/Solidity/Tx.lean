import DefiStablecoin.Solidity.Word

/-!
# Transactions

A transaction reads and writes a world and either returns or reverts; a revert
discards every write.  The combinators below are the only ways the contracts
touch the world, and each comes with the inversion lemma that says what its
success means, so that a call is taken apart without unfolding the monad.
-/

namespace DefiStablecoin.Solidity

/-- A computation over worlds `σ` that returns or reverts with an `ε`. -/
abbrev Tx (σ ε : Type) := StateT σ (Except ε)

namespace Tx

variable {σ ε α β : Type}

/-- A view: it reads the world and cannot write it. -/
def view (f : σ → Except ε α) : Tx σ ε α := fun s =>
  match f s with
  | .ok a => .ok (a, s)
  | .error e => .error e

def read (f : σ → α) : Tx σ ε α := fun s => .ok (f s, s)

def store (f : σ → σ) : Tx σ ε Unit := fun s => .ok ((), f s)

def update (f : σ → Except ε σ) : Tx σ ε Unit := fun s =>
  match f s with
  | .ok s' => .ok ((), s')
  | .error e => .error e

/-- `if (p) revert e();` -/
def revertIf (p : Prop) [Decidable p] (e : ε) : Tx σ ε Unit := fun s =>
  if p then .error e else .ok ((), s)

/-- The world after a call whose failure is swallowed: a revert changes nothing. -/
def attempt (t : Tx σ ε α) (s : σ) : σ :=
  match t s with
  | .ok (_, s') => s'
  | .error _ => s

def Returns (t : Tx σ ε α) (s : σ) : Prop := ∃ r, t s = .ok r

instance (t : Tx σ ε α) (s : σ) : Decidable (Returns t s) :=
  match h : t s with
  | .ok r => isTrue ⟨r, h⟩
  | .error _ => isFalse fun ⟨_, hr⟩ => by simp [h] at hr

/-! ## What success means -/

theorem bind_eq_ok {t : Tx σ ε α} {f : α → Tx σ ε β} {s : σ} {r : β × σ} :
    (t >>= f) s = .ok r ↔ ∃ a s', t s = .ok (a, s') ∧ f a s' = .ok r := by
  change Except.bind (t s) (fun p => f p.1 p.2) = _ ↔ _
  cases t s with
  | error e => simp [Except.bind]
  | ok p =>
      obtain ⟨a, s'⟩ := p
      simp [Except.bind]

theorem pure_eq_ok {a : α} {s : σ} {r : α × σ} :
    (pure a : Tx σ ε α) s = .ok r ↔ r = (a, s) := by
  change Except.ok (a, s) = .ok r ↔ _
  rw [Except.ok.injEq, eq_comm]

theorem view_eq_ok {f : σ → Except ε α} {s : σ} {r : α × σ} :
    view f s = .ok r ↔ f s = .ok r.1 ∧ r.2 = s := by
  obtain ⟨a, s'⟩ := r
  unfold view
  cases f s with
  | error e => simp
  | ok b => simp [eq_comm]

theorem read_eq_ok {f : σ → α} {s : σ} {r : α × σ} :
    (read f : Tx σ ε α) s = .ok r ↔ r = (f s, s) := by
  unfold read
  rw [Except.ok.injEq, eq_comm]

theorem store_eq_ok {f : σ → σ} {s : σ} {r : Unit × σ} :
    (store f : Tx σ ε Unit) s = .ok r ↔ r.2 = f s := by
  obtain ⟨u, s'⟩ := r
  simp [store, eq_comm]

theorem store_id : (store id : Tx σ ε Unit) = pure () := rfl

theorem update_eq_ok {f : σ → Except ε σ} {s : σ} {r : Unit × σ} :
    update f s = .ok r ↔ f s = .ok r.2 := by
  obtain ⟨u, s'⟩ := r
  unfold update
  cases f s <;> simp

theorem revertIf_eq_ok {p : Prop} [Decidable p] {e : ε} {s : σ} {r : Unit × σ} :
    (revertIf p e : Tx σ ε Unit) s = .ok r ↔ ¬p ∧ r.2 = s := by
  obtain ⟨u, s'⟩ := r
  unfold revertIf
  split <;> simp_all [eq_comm]

theorem ite_eq_ok {p : Prop} [Decidable p] {t u : Tx σ ε α} {s : σ} {r : α × σ} :
    (if p then t else u) s = .ok r ↔ (p ∧ t s = .ok r) ∨ (¬p ∧ u s = .ok r) := by
  split <;> simp_all

theorem attempt_of_ok {t : Tx σ ε α} {s s' : σ} {a : α} (h : t s = .ok (a, s')) :
    attempt t s = s' := by
  simp [attempt, h]

theorem Returns.eq_ok {t : Tx σ ε Unit} {s : σ} (h : Returns t s) :
    t s = .ok ((), attempt t s) := by
  obtain ⟨⟨u, s'⟩, hok⟩ := h
  rw [attempt_of_ok hok, hok]

theorem attempt_cases (t : Tx σ ε α) (s : σ) :
    (∃ a, t s = .ok (a, attempt t s)) ∨ ((∀ r, t s ≠ .ok r) ∧ attempt t s = s) := by
  unfold attempt
  cases h : t s with
  | error e => simp
  | ok p =>
      left
      exact ⟨p.1, rfl⟩

end Tx

/-! ## Views

Views live in the plain failure monad. -/

section View

variable {ε α β : Type}

def failIf (p : Prop) [Decidable p] (e : ε) : Except ε Unit :=
  if p then .error e else .ok ()

theorem failIf_eq_ok {p : Prop} [Decidable p] {e : ε} {u : Unit} :
    failIf p e = .ok u ↔ ¬p := by
  unfold failIf
  split <;> simp_all

theorem except_bind_eq_ok {x : Except ε α} {f : α → Except ε β} {r : β} :
    (x >>= f) = .ok r ↔ ∃ a, x = .ok a ∧ f a = .ok r := by
  change Except.bind x f = _ ↔ _
  cases x <;> simp [Except.bind]

/-- The form that `simp` gives to a bind whose continuation only returns. -/
theorem except_map_eq_ok {x : Except ε α} {f : α → β} {r : β} :
    f <$> x = .ok r ↔ ∃ a, x = .ok a ∧ f a = r := by
  cases x <;> simp

theorem except_pure_eq_ok {a r : α} : (pure a : Except ε α) = .ok r ↔ a = r :=
  Except.ok.injEq a r ▸ Iff.rfl

end View

end DefiStablecoin.Solidity
