import DefiStablecoin.Solidity.Tx

/-!
# Transactions that emit events

The log of a chain is written and never read, so a transaction that emits is one
over its state paired with what was emitted so far, oldest first.  Two relations
carry the results: `Erases` says that the log changes nothing about what is
computed, and `Follows` that a reader who sees only what was emitted keeps in
step with the state.
-/

namespace DefiStablecoin.Solidity

/-- A transaction over `σ` that emits events `η`. -/
abbrev LogTx (η σ ε : Type) := Tx (σ × List η) ε

namespace LogTx

variable {η θ σ τ ρ ε α β : Type}

def quiet (t : Tx σ ε α) : LogTx η σ ε α := fun s =>
  match t s.1 with
  | .ok (a, w) => .ok (a, w, s.2)
  | .error e => .error e

def emit (event : η) : LogTx η σ ε Unit := fun s => .ok ((), s.1, s.2 ++ [event])

/-- Run a transaction over a part of the state and log what it emits under a tag. -/
def zoom (get : σ → τ) (set : τ → σ → σ) (tag : θ → η) (t : LogTx θ τ ε α) :
    LogTx η σ ε α := fun s =>
  match t (get s.1, []) with
  | .ok (a, k, events) => .ok (a, set k s.1, s.2 ++ events.map tag)
  | .error e => .error e

/-! ## What success means -/

variable {s s' : σ} {log log' : List η} {a : α}

theorem quiet_eq_ok {t : Tx σ ε α} :
    quiet t (s, log) = .ok (a, s', log') ↔ t s = .ok (a, s') ∧ log' = log := by
  unfold quiet
  cases t s with
  | error e => simp
  | ok r =>
      obtain ⟨b, w⟩ := r
      simp only [Except.ok.injEq, Prod.mk.injEq]
      grind

theorem emit_eq_ok {event : η} {u : Unit} :
    (emit event : LogTx η σ ε Unit) (s, log) = .ok (u, s', log') ↔
      s' = s ∧ log' = log ++ [event] := by
  simp only [emit, Except.ok.injEq, Prod.mk.injEq, true_and, eq_comm]

theorem zoom_eq_ok {get : σ → τ} {set : τ → σ → σ} {tag : θ → η} {t : LogTx θ τ ε α} :
    zoom get set tag t (s, log) = .ok (a, s', log') ↔
      ∃ k events, t (get s, []) = .ok (a, k, events) ∧ s' = set k s ∧
        log' = log ++ events.map tag := by
  unfold zoom
  cases t (get s, []) with
  | error e => simp
  | ok r =>
      obtain ⟨b, k, events⟩ := r
      simp only [Except.ok.injEq, Prod.mk.injEq]
      grind

/-! ## Forgetting the log -/

/-- Without its log `t` is `x`, whatever was logged before. -/
def Erases (t : LogTx η σ ε α) (x : Tx σ ε α) : Prop :=
  ∀ s log, (t (s, log)).map (fun r => (r.1, r.2.1)) = x s

namespace Erases

variable {t : LogTx η σ ε α} {x : Tx σ ε α}

theorem quiet : Erases (quiet x : LogTx η σ ε α) x := by
  intro s log
  unfold LogTx.quiet
  cases x s <;> rfl

theorem bind {u : α → LogTx η σ ε β} {y : α → Tx σ ε β} (ht : Erases t x)
    (hu : ∀ a, Erases (u a) (y a)) : Erases (t >>= u) (x >>= y) := by
  intro s log
  have hfirst := ht s log
  change (Except.bind (t (s, log)) fun p => u p.1 p.2).map _ =
    Except.bind (x s) fun p => y p.1 p.2
  cases hok : t (s, log) with
  | error e =>
      rw [hok] at hfirst
      rw [← hfirst]
      rfl
  | ok r =>
      rw [hok] at hfirst
      rw [← hfirst]
      exact hu r.1 r.2.1 r.2.2

theorem pure (a : α) : Erases (pure a : LogTx η σ ε α) (pure a) := fun _ _ => rfl

/-- A function that threads its state by hand is erased to step by step. -/
theorem update_bind {t : LogTx η σ ε Unit} {u : Unit → LogTx η σ ε α} {f : σ → Except ε σ}
    {y : Tx σ ε α} (ht : Erases t (Tx.update f)) (hu : Erases (u ()) y) :
    Erases (t >>= u) fun s => f s >>= y := by
  have hbind := ht.bind (u := u) (y := fun _ => y) fun _ => hu
  intro s log
  rw [hbind s log]
  change Except.bind (Tx.update f s) _ = Except.bind (f s) _
  unfold Tx.update
  cases f s <;> rfl

theorem view_bind {u : α → LogTx η σ ε β} {f : σ → Except ε α} {y : α → Tx σ ε β}
    (hu : ∀ a, Erases (u a) (y a)) :
    Erases (LogTx.quiet (Tx.view f) >>= u) fun s => f s >>= fun a => y a s := by
  have hbind := (quiet (η := η) (x := Tx.view f)).bind hu
  intro s log
  rw [hbind s log]
  change Except.bind (Tx.view f s) _ = Except.bind (f s) _
  unfold Tx.view
  cases f s <;> rfl

theorem view_update {u : α → LogTx η σ ε Unit} {f : σ → Except ε α} {g : α → σ → Except ε σ}
    (hu : ∀ a, Erases (u a) (Tx.update (g a))) :
    Erases (LogTx.quiet (Tx.view f) >>= u) (Tx.update fun s => f s >>= fun a => g a s) := by
  intro s log
  rw [view_bind hu s log]
  unfold Tx.update
  dsimp only
  cases f s <;> rfl

theorem read_update {u : α → LogTx η σ ε Unit} {f : σ → α} {g : α → σ → Except ε σ}
    (hu : ∀ a, Erases (u a) (Tx.update (g a))) :
    Erases (LogTx.quiet (Tx.read f) >>= u) (Tx.update fun s => g (f s) s) :=
  fun s log => hu (f s) s log

theorem discard {f : σ → Except ε (α × σ)} (ht : Erases t f) :
    Erases (t >>= fun _ => Pure.pure ()) (Tx.update fun s => f s >>= fun r => .ok r.2) := by
  intro s log
  rw [ht.bind (fun _ => pure ()) s log]
  change Except.bind (f s) _ = Tx.update (fun s => Except.bind (f s) _) s
  unfold Tx.update
  dsimp only
  cases f s <;> rfl

theorem update_update {t u : LogTx η σ ε Unit} {f g : σ → Except ε σ} (ht : Erases t (Tx.update f))
    (hu : Erases u (Tx.update g)) :
    Erases (t >>= fun _ => u) (Tx.update fun s => f s >>= g) := by
  intro s log
  rw [ht.update_bind hu s log]
  unfold Tx.update
  dsimp only
  cases f s <;> rfl

theorem emit_bind {event : η} {u : Unit → LogTx η σ ε α} (hu : Erases (u ()) x) :
    Erases (emit event >>= u) x :=
  fun s log => hu s (log ++ [event])

theorem bind_emit {t : LogTx η σ ε Unit} {x : Tx σ ε Unit} {event : η} (ht : Erases t x) :
    Erases (t >>= fun _ => emit event) x := by
  intro s log
  have hfirst := ht s log
  change (Except.bind (t (s, log)) fun p => emit event p.2).map _ = x s
  rw [← hfirst]
  cases t (s, log) <;> rfl

theorem zoom {get : σ → τ} {set : τ → σ → σ} {tag : θ → η} {t : LogTx θ τ ε α} {x : Tx τ ε α}
    {y : Tx σ ε α} (ht : Erases t x)
    (hy : ∀ s, y s = (x (get s)).map fun r => (r.1, set r.2 s)) :
    Erases (zoom get set tag t) y := by
  intro s log
  rw [hy, ← ht (get s) []]
  unfold LogTx.zoom
  cases t (get s, []) <;> rfl

theorem eq_ok (h : Erases t x) (hok : t (s, log) = .ok (a, s', log')) : x s = .ok (a, s') := by
  rw [← h s log, hok]
  rfl

theorem exists_log (h : Erases t x) (hok : x s = .ok (a, s')) (log : List η) :
    ∃ log', t (s, log) = .ok (a, s', log') := by
  have hsame := h s log
  rw [hok] at hsame
  cases hrun : t (s, log) with
  | error e =>
      rw [hrun] at hsame
      cases hsame
  | ok r =>
      rw [hrun] at hsame
      cases hsame
      exact ⟨r.2.2, rfl⟩

theorem attempt_fst (h : Erases t x) (s : σ) (log : List η) :
    (Tx.attempt t (s, log)).1 = Tx.attempt x s := by
  unfold Tx.attempt
  rw [← h s log]
  cases t (s, log) <;> rfl

end Erases

/-- Do what `t` does, and log whatever makes `R` hold of the step. -/
noncomputable def annotate (R : σ × List η → σ × List η → Prop) (t : Tx σ ε α) :
    LogTx η σ ε α := fun s =>
  match t s.1 with
  | .ok (a, w) => .ok (a, w, Classical.epsilon fun log => R s (w, log))
  | .error e => .error e

section Annotate

variable {R : σ × List η → σ × List η → Prop} {t : Tx σ ε α}

theorem annotate_erases : Erases (annotate R t) t := by
  intro s log
  unfold annotate
  cases t s <;> rfl

theorem annotate_spec (h : ∀ s a s', t s = .ok (a, s') → ∀ log, ∃ log', R (s, log) (s', log'))
    {r r' : σ × List η} (hok : annotate R t r = .ok (a, r')) : R r r' := by
  unfold annotate at hok
  cases hrun : t r.1 with
  | error e =>
      rw [hrun] at hok
      cases hok
  | ok q =>
      rw [hrun] at hok
      cases hok
      exact Classical.epsilon_spec (h r.1 q.1 q.2 hrun r.2)

end Annotate

/-! ## What is emitted -/

/-- Whatever `t` emits satisfies `p`, and it takes nothing back. -/
def Emits (p : η → Prop) (t : LogTx η σ ε α) : Prop :=
  ∀ ⦃s log a s' log'⦄, t (s, log) = .ok (a, s', log') →
    ∃ events, log' = log ++ events ∧ ∀ e ∈ events, p e

namespace Emits

variable {p : η → Prop}

theorem bind {t : LogTx η σ ε α} {u : α → LogTx η σ ε β} (ht : Emits p t)
    (hu : ∀ a, Emits p (u a)) : Emits p (t >>= u) := by
  intro s log b s' log' h
  obtain ⟨a, ⟨s₁, log₁⟩, hfirst, hrest⟩ := Tx.bind_eq_ok.mp h
  obtain ⟨events₁, rfl, hp₁⟩ := ht hfirst
  obtain ⟨events₂, rfl, hp₂⟩ := hu a hrest
  refine ⟨events₁ ++ events₂, List.append_assoc .., fun e he => ?_⟩
  rcases List.mem_append.mp he with he | he
  · exact hp₁ e he
  · exact hp₂ e he

theorem quiet {t : Tx σ ε α} : Emits p (quiet t) := by
  intro s log a s' log' h
  obtain ⟨_, rfl⟩ := quiet_eq_ok.mp h
  exact ⟨[], (List.append_nil _).symm, fun e he => absurd he List.not_mem_nil⟩

theorem pure {a : α} : Emits p (pure a : LogTx η σ ε α) := by
  intro s log b s' log' h
  cases Tx.pure_eq_ok.mp h
  exact ⟨[], (List.append_nil _).symm, fun e he => absurd he List.not_mem_nil⟩

theorem emit {event : η} (h : p event) : Emits p (emit event : LogTx η σ ε Unit) := by
  intro s log u s' log' hok
  obtain ⟨_, rfl⟩ := emit_eq_ok.mp hok
  refine ⟨[event], rfl, fun e he => ?_⟩
  rw [List.mem_singleton.mp he]
  exact h

/-- A tag of which every event will do. -/
theorem zoom {get : σ → τ} {set : τ → σ → σ} {tag : θ → η} {t : LogTx θ τ ε α}
    (h : ∀ e, p (tag e)) : Emits p (zoom get set tag t) := by
  intro s log a s' log' hok
  obtain ⟨k, events, _, _, rfl⟩ := zoom_eq_ok.mp hok
  refine ⟨events.map tag, rfl, fun e he => ?_⟩
  obtain ⟨e', _, rfl⟩ := List.mem_map.mp he
  exact h e'

theorem zoom_of_emits {get : σ → τ} {set : τ → σ → σ} {tag : θ → η} {t : LogTx θ τ ε α}
    (ht : Emits (fun e => p (tag e)) t) : Emits p (LogTx.zoom get set tag t) := by
  intro s log a s' log' hok
  obtain ⟨k, events, hrun, _, rfl⟩ := zoom_eq_ok.mp hok
  obtain ⟨events', rfl, hp⟩ := ht hrun
  refine ⟨_, rfl, fun e he => ?_⟩
  obtain ⟨e', he', rfl⟩ := List.mem_map.mp he
  exact hp e' he'

end Emits

/-! ## Reading the log -/

/-- What `t` emits leads a reader with the rule `f` from a reading of the state that
`t` meets, in the sense of `P`, to one of the state that it leaves, in that of `Q`. -/
def Follows (f : ρ → η → ρ) (P Q : ρ → σ → Prop) (t : LogTx η σ ε α) : Prop :=
  ∀ ⦃s log a s' log'⦄, t (s, log) = .ok (a, s', log') →
    ∃ events, log' = log ++ events ∧ ∀ r, P r s → Q (events.foldl f r) s'

namespace Follows

variable {f : ρ → η → ρ} {P Q R : ρ → σ → Prop}

theorem bind {t : LogTx η σ ε α} {u : α → LogTx η σ ε β} (ht : Follows f P Q t)
    (hu : ∀ a, Follows f Q R (u a)) : Follows f P R (t >>= u) := by
  intro s log b s' log' h
  obtain ⟨a, ⟨s₁, log₁⟩, hfirst, hrest⟩ := Tx.bind_eq_ok.mp h
  obtain ⟨events₁, rfl, hread₁⟩ := ht hfirst
  obtain ⟨events₂, rfl, hread₂⟩ := hu a hrest
  refine ⟨events₁ ++ events₂, List.append_assoc .., fun r hr => ?_⟩
  rw [List.foldl_append]
  exact hread₂ _ (hread₁ r hr)

theorem pure {a : α} : Follows f P P (pure a : LogTx η σ ε α) := by
  intro s log b s' log' h
  cases Tx.pure_eq_ok.mp h
  exact ⟨[], (List.append_nil log).symm, fun r hr => hr⟩

theorem quiet {t : Tx σ ε α} (h : ∀ s a s', t s = .ok (a, s') → ∀ r, P r s → Q r s') :
    Follows f P Q (quiet t : LogTx η σ ε α) := by
  intro s log a s' log' hok
  obtain ⟨hrun, rfl⟩ := quiet_eq_ok.mp hok
  exact ⟨[], (List.append_nil _).symm, h s a s' hrun⟩

theorem unchanged {t : Tx σ ε α} (h : ∀ s a s', t s = .ok (a, s') → s' = s) :
    Follows f P P (LogTx.quiet t : LogTx η σ ε α) := by
  refine .quiet fun s a s' hok r hr => ?_
  rw [h s a s' hok]
  exact hr

theorem read {g : σ → α} : Follows f P P (LogTx.quiet (Tx.read g) : LogTx η σ ε α) :=
  .unchanged fun _ _ _ h => congrArg Prod.snd (Tx.read_eq_ok.mp h)

theorem read_bind {g : σ → α} {u : α → LogTx η σ ε β}
    (hu : ∀ a, Follows f (fun r s => g s = a ∧ P r s) Q (u a)) :
    Follows f P Q (LogTx.quiet (Tx.read g) >>= u) := by
  intro s log b s' log' h
  obtain ⟨events, hlog, hread⟩ := hu (g s) (show u (g s) (s, log) = _ from h)
  exact ⟨events, hlog, fun r hr => hread r ⟨rfl, hr⟩⟩

theorem view {g : σ → Except ε α} : Follows f P P (LogTx.quiet (Tx.view g) : LogTx η σ ε α) :=
  .unchanged fun _ _ _ h => (Tx.view_eq_ok.mp h).2

theorem revertIf {p : Prop} [Decidable p] {e : ε} :
    Follows f P P (LogTx.quiet (Tx.revertIf p e) : LogTx η σ ε Unit) :=
  .unchanged fun _ _ _ h => (Tx.revertIf_eq_ok.mp h).2

theorem emit {event : η} (h : ∀ s r, P r s → Q (f r event) s) :
    Follows f P Q (emit event : LogTx η σ ε Unit) := by
  intro s log u s' log' hok
  obtain ⟨rfl, rfl⟩ := emit_eq_ok.mp hok
  exact ⟨[event], rfl, h s'⟩

/-- In step with a part of the state, the reader is in step with all of it. -/
theorem zoom {get : σ → τ} {set : τ → σ → σ} {tag : θ → η} {t : LogTx θ τ ε α}
    (h : ∀ s, Follows (fun r event => f r (tag event)) (fun r k => k = get s ∧ P r s)
      (fun r k => Q r (set k s)) t) : Follows f P Q (zoom get set tag t) := by
  intro s log a s' log' hok
  obtain ⟨k, events, hrun, rfl, rfl⟩ := zoom_eq_ok.mp hok
  obtain ⟨events', rfl, hread⟩ := h s hrun
  refine ⟨_, rfl, fun r hr => ?_⟩
  rw [List.foldl_map]
  exact hread r ⟨rfl, hr⟩

theorem mono {P' Q' : ρ → σ → Prop} {t : LogTx η σ ε α} (h : Follows f P Q t)
    (hP : ∀ r s, P' r s → P r s) (hQ : ∀ r s, Q r s → Q' r s) : Follows f P' Q' t := by
  intro s log a s' log' hok
  obtain ⟨events, hlog, hread⟩ := h hok
  exact ⟨events, hlog, fun r hr => hQ _ _ (hread r (hP r s hr))⟩

end Follows

end LogTx

end DefiStablecoin.Solidity
