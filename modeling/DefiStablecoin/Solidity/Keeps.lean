import DefiStablecoin.Solidity.Tx

/-!
# Invariants of transactions

A transaction keeps an invariant when it never returns with the invariant broken.
The combinators keep what their parts keep, so a contract's function keeps an
invariant that its writes and the calls it makes keep.
-/

namespace DefiStablecoin.Solidity.Tx

variable {σ ε α β : Type} {I : σ → Prop}

/-- From a state with the invariant the transaction returns only into such states. -/
def Keeps (I : σ → Prop) (t : Tx σ ε α) : Prop :=
  ∀ ⦃s a s'⦄, t s = .ok (a, s') → I s → I s'

namespace Keeps

theorem bind {t : Tx σ ε α} {f : α → Tx σ ε β} (ht : Keeps I t) (hf : ∀ a, Keeps I (f a)) :
    Keeps I (t >>= f) := by
  intro s b s' h hs
  obtain ⟨a, s₁, hfirst, hrest⟩ := bind_eq_ok.mp h
  exact hf a hrest (ht hfirst hs)

theorem of_unchanged {t : Tx σ ε α} (h : ∀ s a s', t s = .ok (a, s') → s' = s) : Keeps I t := by
  intro s a s' hok hs
  rw [h s a s' hok]
  exact hs

theorem view {f : σ → Except ε α} : Keeps I (view f) :=
  of_unchanged fun _ _ _ h => (view_eq_ok.mp h).2

theorem read {f : σ → α} : Keeps I (read f : Tx σ ε α) :=
  of_unchanged fun _ _ _ h => congrArg Prod.snd (read_eq_ok.mp h)

theorem revertIf {p : Prop} [Decidable p] {e : ε} : Keeps I (revertIf p e) :=
  of_unchanged fun _ _ _ h => (revertIf_eq_ok.mp h).2

theorem store {f : σ → σ} (hf : ∀ s, I s → I (f s)) : Keeps I (store f : Tx σ ε Unit) := by
  intro s _ s' h hs
  cases store_eq_ok.mp h
  exact hf s hs

theorem update {f : σ → Except ε σ} (hf : ∀ s s', f s = .ok s' → I s → I s') :
    Keeps I (update f) := fun s _ s' h hs =>
  hf s s' (update_eq_ok.mp h) hs

end Keeps

end DefiStablecoin.Solidity.Tx
