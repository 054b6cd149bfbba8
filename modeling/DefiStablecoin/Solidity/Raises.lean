import DefiStablecoin.Solidity.Tx

/-!
# What a transaction reverts with

`Raises S` says of a result that it is no failure outside of `S`.  The rules below
take a transaction apart along its control flow: what comes later only has to be
looked at in the worlds that what comes earlier leaves.
-/

namespace DefiStablecoin.Solidity

variable {σ ε α β : Type} {S : ε → Prop}

/-- A failure is one of `S`. -/
def Raises (S : ε → Prop) (x : Except ε α) : Prop := ∀ e, x = .error e → S e

def failure : Except ε α → Option ε
  | .ok _ => none
  | .error e => some e

theorem eq_error_of_failure {x : Except ε α} {e : ε} (h : failure x = some e) : x = .error e := by
  cases x with
  | ok a => cases h
  | error e' =>
      cases h
      rfl

namespace Raises

theorem ok (a : α) : Raises S (.ok a : Except ε α) := fun _ h => nomatch h

theorem error {e : ε} (h : S e) : Raises S (.error e : Except ε α) := by
  intro e' he
  cases he
  exact h

theorem of_ok {x : Except ε α} {a : α} (h : x = .ok a) : Raises S x := h ▸ ok a

/-! ## Views -/

theorem bind {x : Except ε α} {f : α → Except ε β} (hx : Raises S x)
    (hf : ∀ a, x = .ok a → Raises S (f a)) : Raises S (x >>= f) := by
  cases x with
  | ok a => exact hf a rfl
  | error e => exact error (hx e rfl)

theorem failIf {p : Prop} [Decidable p] {e : ε} (h : p → S e) :
    Raises S (Solidity.failIf p e) := by
  unfold Solidity.failIf
  split
  · exact error (h ‹p›)
  · exact ok ()

section Checked

variable [SolidityError ε] {a b : UInt256}

theorem checkedAdd (h : 2 ^ 256 ≤ a.toNat + b.toNat → S (SolidityError.panic arithmeticPanic)) :
    Raises S (Solidity.checkedAdd a b) := by
  unfold Solidity.checkedAdd
  split
  · exact ok _
  · next hwraps => exact error (h (not_lt.mp hwraps))

theorem checkedSub (h : a.toNat < b.toNat → S (SolidityError.panic arithmeticPanic)) :
    Raises S (Solidity.checkedSub a b) := by
  unfold Solidity.checkedSub
  split
  · exact ok _
  · next hwraps => exact error (h (not_le.mp hwraps))

theorem checkedMul (h : 2 ^ 256 ≤ a.toNat * b.toNat → S (SolidityError.panic arithmeticPanic)) :
    Raises S (Solidity.checkedMul a b) := by
  unfold Solidity.checkedMul
  split
  · exact ok _
  · next hwraps => exact error (h (not_lt.mp hwraps))

theorem checkedDiv (h : b.toNat = 0 → S (SolidityError.panic divisionPanic)) :
    Raises S (Solidity.checkedDiv a b) := by
  unfold Solidity.checkedDiv
  split
  · exact ok _
  · next hzero => exact error (h (not_not.mp hzero))

end Checked

/-! ## Transactions -/

section Tx

variable {s : σ}

theorem tx_bind {t : Tx σ ε α} {f : α → Tx σ ε β} (ht : Raises S (t s))
    (hf : ∀ a s', t s = .ok (a, s') → Raises S (f a s')) : Raises S ((t >>= f) s) :=
  bind ht fun p hp => hf p.1 p.2 hp

theorem store {f : σ → σ} : Raises S ((Tx.store f : Tx σ ε Unit) s) := ok _

theorem view {f : σ → Except ε α} (h : Raises S (f s)) : Raises S (Tx.view f s) := by
  intro e he
  apply h e
  unfold Tx.view at he
  cases hf : f s with
  | ok a => simp [hf] at he
  | error e' =>
      rw [hf] at he
      cases he
      rfl

theorem update {f : σ → Except ε σ} (h : Raises S (f s)) : Raises S (Tx.update f s) := by
  intro e he
  apply h e
  unfold Tx.update at he
  cases hf : f s with
  | ok a => simp [hf] at he
  | error e' =>
      rw [hf] at he
      cases he
      rfl

theorem revertIf {p : Prop} [Decidable p] {e : ε} (h : p → S e) :
    Raises S ((Tx.revertIf p e : Tx σ ε Unit) s) := by
  unfold Tx.revertIf
  split
  · exact error (h ‹p›)
  · exact ok _

/-! ### What comes next

After a step that is no call, the world is known. -/

theorem read_bind {f : σ → α} {g : α → Tx σ ε β} (hg : Raises S (g (f s) s)) :
    Raises S ((Tx.read f >>= g) s) := hg

theorem view_bind {f : σ → Except ε α} {g : α → Tx σ ε β} (hf : Raises S (f s))
    (hg : ∀ a, f s = .ok a → Raises S (g a s)) : Raises S ((Tx.view f >>= g) s) := by
  apply tx_bind (view hf)
  intro a s' hok
  obtain ⟨ha, heq⟩ := Tx.view_eq_ok.mp hok
  cases heq
  exact hg a ha

theorem update_bind {f : σ → Except ε σ} {g : Unit → Tx σ ε β} (hf : Raises S (f s))
    (hg : ∀ s', f s = .ok s' → Raises S (g () s')) : Raises S ((Tx.update f >>= g) s) :=
  tx_bind (update hf) fun _ s' hok => hg s' (Tx.update_eq_ok.mp hok)

theorem revertIf_bind {p : Prop} [Decidable p] {e : ε} {g : Unit → Tx σ ε β} (he : p → S e)
    (hg : ¬p → Raises S (g () s)) : Raises S ((Tx.revertIf p e >>= g) s) := by
  apply tx_bind (revertIf he)
  intro _ s' hok
  obtain ⟨hp, heq⟩ := Tx.revertIf_eq_ok.mp hok
  cases heq
  exact hg hp

end Tx

end Raises

end DefiStablecoin.Solidity
