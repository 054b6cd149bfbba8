import DefiStablecoin.Proofs.Keeping
import DefiStablecoin.System.Reentrancy

/-!
# Arbitrary surroundings

Nothing is known here about the collateral tokens, the prices or the accounts but
what the chain guarantees: no other code writes the engine's storage, so whatever
happens to it happens in calls of the engine, which call the tokens and are called
by them again, any finite number of times.
-/

namespace DefiStablecoin

open Solidity OpenZeppelin DSCEngine World

/-- Some execution leads from one world to another.  It goes on with anything that
leaves the engine's storage alone, or with a call of the engine over collateral
code that does nothing but what some execution does. -/
inductive Reaches : World → World → Prop
  | refl (w : World) : Reaches w w
  | elsewhere {w w' w'' : World} (h : Reaches w w')
      (hstorage : w''.toDSCEngine = w'.toDSCEngine) (hthis : w''.this = w'.this) : Reaches w w''
  | call {w w' w'' : World} {ierc20 : IERC20} {msgSender : Address} {c : DSCEngine.Call}
      (h : Reaches w w')
      (htransfer : ∀ token sender dst amount v b v',
        ierc20.transfer token sender dst amount v = .ok (b, v') → Reaches v v')
      (htransferFrom : ∀ token sender src dst amount v b v',
        ierc20.transferFrom token sender src dst amount v = .ok (b, v') → Reaches v v')
      (hok : c.run ierc20 msgSender w' = .ok ((), w'')) : Reaches w w''

/-- Collateral code that does nothing but what some execution does. -/
structure IERC20.Confined (ierc20 : IERC20) : Prop where
  transfer : ∀ token sender dst amount v b v',
    ierc20.transfer token sender dst amount v = .ok (b, v') → Reaches v v'
  transferFrom : ∀ token sender src dst amount v b v',
    ierc20.transferFrom token sender src dst amount v = .ok (b, v') → Reaches v v'

namespace Reaches

variable {w w' w'' : World}

theorem of_elsewhere (hstorage : w'.toDSCEngine = w.toDSCEngine) (hthis : w'.this = w.this) :
    Reaches w w' :=
  (refl w).elsewhere hstorage hthis

theorem of_call {ierc20 : IERC20} {msgSender : Address} {c : DSCEngine.Call}
    (hcode : ierc20.Confined) (hok : c.run ierc20 msgSender w = .ok ((), w')) : Reaches w w' :=
  (refl w).call hcode.transfer hcode.transferFrom hok

theorem trans (h : Reaches w w') (h' : Reaches w' w'') : Reaches w w'' := by
  induction h' with
  | refl => exact h
  | elsewhere _ hstorage hthis ih => exact (ih h).elsewhere hstorage hthis
  | call _ htransfer htransferFrom hok ih => exact (ih h).call htransfer htransferFrom hok

theorem attempt {α : Type} {t : Tx World Revert α}
    (h : ∀ w a w', t w = .ok (a, w') → Reaches w w') (w : World) : Reaches w (t.attempt w) := by
  rcases Tx.attempt_cases t w with ⟨a, hok⟩ | ⟨_, hsame⟩
  · exact h w a _ hok
  · rw [hsame]
    exact .refl w

/-- **An invariant of the engine's storage that survives the engine's own writes
survives every execution.** -/
theorem invariant {I : World → Prop} (hI : Survives I)
    (helsewhere : ∀ v v', v'.toDSCEngine = v.toDSCEngine → I v → I v') (h : Reaches w w') :
    I w → I w' := by
  induction h with
  | refl => exact fun hw => hw
  | elsewhere _ hstorage _ ih => exact fun hw => helsewhere _ _ hstorage (ih hw)
  | call _ _ _ hok ih htransfer htransferFrom =>
      -- the calls nested in this one keep the invariant by induction
      refine fun hw => run_keeps hI ⟨?_, ?_⟩ _ _ hok (ih hw)
      · exact fun token sender dst amount v b v' hv => htransfer token sender dst amount v b v' hv
      · exact fun token sender src dst amount v b v' hv =>
          htransferFrom token sender src dst amount v b v' hv

end Reaches

/-! ## Runs of the deployed system -/

theorem reaches_callToken {t : Address} {f : ERC20 → Except Revert (Bool × ERC20)} {w w' : World}
    {b : Bool} (h : callToken t f w = .ok (b, w')) : Reaches w w' := by
  obtain ⟨k, _, rfl⟩ := callToken_eq_ok.mp h
  exact .of_elsewhere rfl rfl

theorem reaches_callDsc
    {f : DecentralizedStableCoin → Except Revert DecentralizedStableCoin} {w w' : World} {u : Unit}
    (h : callDsc f w = .ok (u, w')) : Reaches w w' := by
  obtain ⟨k, _, rfl⟩ := callDsc_eq_ok.mp h
  exact .of_elsewhere rfl rfl

theorem reaches_issueToken {t account : Address} {amount : UInt256} {w w' : World} {b : Bool}
    (h : issueToken t account amount w = .ok (b, w')) : Reaches w w' := by
  obtain ⟨_, _, heq⟩ := issueToken_eq_ok.mp h
  cases heq
  exact .of_elsewhere rfl rfl

theorem confined_standard : IERC20.standard.Confined :=
  ⟨fun _ _ _ _ _ _ _ => reaches_callToken, fun _ _ _ _ _ _ _ _ => reaches_callToken⟩

theorem confined_hooked {before after : World → World} (hbefore : ∀ w, Reaches w (before w))
    (hafter : ∀ w, Reaches w (after w)) : (IERC20.hooked before after).Confined := by
  constructor
  · intro token sender dst amount v b v' h
    simp only [IERC20.hooked, Tx.bind_eq_ok, Tx.store_eq_ok, Tx.pure_eq_ok, Prod.mk.injEq] at h
    obtain ⟨_, _, rfl, _, w₁, hmove, _, _, rfl, _, rfl⟩ := h
    have hmoved := confined_standard.transfer _ _ _ _ _ _ _ hmove
    exact ((hbefore v).trans hmoved).trans (hafter w₁)
  · intro token sender src dst amount v b v' h
    simp only [IERC20.hooked, Tx.bind_eq_ok, Tx.store_eq_ok, Tx.pure_eq_ok, Prod.mk.injEq] at h
    obtain ⟨_, _, rfl, _, w₁, hmove, _, _, rfl, _, rfl⟩ := h
    have hmoved := confined_standard.transferFrom _ _ _ _ _ _ _ _ hmove
    exact ((hbefore v).trans hmoved).trans (hafter w₁)

namespace Deployment

variable {d : Deployment}

def Reachable (d : Deployment) (w : World) : Prop := Reaches d.genesis w

theorem reaches_step (w : World) (a : Action d) : Reaches w (d.step w a) := by
  refine Reaches.attempt (fun w u w' h => ?_) w
  cases a with
  | engine msgSender c => exact .of_call confined_standard h
  | dsc msgSender c => exact reaches_callDsc h
  | token t msgSender c =>
      obtain ⟨_, _, _, rfl⟩ := tx_token_eq_ok.mp h
      exact .of_elsewhere rfl rfl
  | issueToken t account amount =>
      obtain ⟨_, _, rfl⟩ := tx_issueToken_eq_ok.mp h
      exact .of_elsewhere rfl rfl
  | oracle feed =>
      cases Tx.store_eq_ok.mp h
      exact .of_elsewhere rfl rfl
  | warp timestamp =>
      cases Tx.store_eq_ok.mp h
      exact .of_elsewhere rfl rfl

/-- **Every run over standard tokens is an execution.** -/
theorem reachable_run (d : Deployment) (actions : List (Action d)) : d.Reachable (d.run actions) :=
  Machine.run_invariant (I := d.Reachable) (fun w a h => h.trans (reaches_step w a))
    (.refl d.genesis) actions

mutual

theorem exec_reaches : ∀ (tree : CallTree d) (w : World), Reaches w (tree.exec w)
  | .engine msgSender c before after => by
      rw [CallTree.exec]
      exact .attempt fun _ _ _ h =>
        .of_call (confined_hooked (execAll_reaches before) (execAll_reaches after)) h
  | .dsc msgSender c => by
      rw [CallTree.exec]
      exact .attempt fun _ _ _ h => reaches_callDsc h
  | .token t msgSender c before after => by
      rw [CallTree.exec]
      refine .attempt fun w _ w' h => ?_
      simp only [CallTree.tokenTx, Tx.bind_eq_ok, Tx.store_eq_ok] at h
      obtain ⟨_, _, rfl, _, w₁, hmove, rfl⟩ := h
      exact ((execAll_reaches before w).trans (reaches_callToken hmove)).trans
        (execAll_reaches after w₁)
  | .issueToken t account amount => by
      rw [CallTree.exec]
      exact .attempt fun _ _ _ h => reaches_issueToken h

theorem execAll_reaches : ∀ (calls : List (CallTree d)) (w : World),
    Reaches w (CallTree.execAll calls w)
  | [], w => by
      rw [CallTree.execAll]
      exact .refl w
  | call :: rest, w => by
      rw [CallTree.execAll]
      exact (exec_reaches call w).trans (execAll_reaches rest _)

end

/-- **Every run over tokens that call back is an execution.** -/
theorem reachable_outerRun (d : Deployment) (actions : List (OuterAction d)) :
    d.Reachable (d.outerRun actions) := by
  refine Machine.run_invariant (I := d.Reachable) (fun w a h => h.trans ?_)
    (.refl d.genesis) actions
  cases a with
  | call tree => exact exec_reaches tree w
  | oracle feed => exact reaches_step w (.oracle feed)
  | warp timestamp => exact reaches_step w (.warp timestamp)

end Deployment

end DefiStablecoin
