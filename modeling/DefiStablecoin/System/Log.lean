import DefiStablecoin.Proofs.Indexing
import DefiStablecoin.System.Surroundings

/-!
# The log of the deployed system

Runs of the deployed system with what they emit from the deployment on, and
executions in arbitrary surroundings with what they emit: other contracts may emit
anything, but under their own addresses.
-/

namespace DefiStablecoin

open Solidity OpenZeppelin DSCEngine World LogTx

namespace Action

variable {d : Deployment}

/-- What an action does and emits.  Feeds emit nothing that concerns the system. -/
def logged : Action d → LogTx Log World Revert Unit
  | .engine msgSender c => DSCEngine.Logged.run LoggedIERC20.standard msgSender c
  | .dsc msgSender c => callDscLogged (DecentralizedStableCoin.Logged.run msgSender c)
  | .token t msgSender c => do
      let _ ← callTokenLogged t (ERC20.Logged.run msgSender c)
      return ()
  | .issueToken t account amount => do
      let _ ← callTokenLogged t (do
        ERC20.Logged._mint account amount
        return true)
      return ()
  | .oracle feed => quiet (Tx.store (World.setFeed feed))
  | .warp timestamp => quiet (Tx.store (World.setTimestamp timestamp))

theorem logged_erases (a : Action d) : Erases a.logged a.tx := by
  cases a with
  | engine msgSender c =>
      exact DSCEngine.Logged.run_erases LoggedIERC20.standard_erases msgSender c
  | dsc msgSender c =>
      exact callDscLogged_erases (DecentralizedStableCoin.Logged.run_erases msgSender c)
  | token t msgSender c =>
      exact .bind (callTokenLogged_erases (ERC20.Logged.run_erases msgSender c)) fun _ => .pure ()
  | issueToken t account amount =>
      refine .bind (callTokenLogged_erases ?_) fun _ => .pure ()
      exact (ERC20.Logged._mint_erases account amount).update_bind (.pure true)
  | oracle feed => exact Erases.quiet (x := Tx.store (World.setFeed feed))
  | warp timestamp => exact Erases.quiet (x := Tx.store (World.setTimestamp timestamp))

end Action

namespace Deployment

variable (d : Deployment)

/-- An action that reverts emits nothing. -/
def logStep (s : World × List Log) (a : Action d) : World × List Log := Tx.attempt a.logged s

def logRun (actions : List (Action d)) : World × List Log :=
  Machine.run d.logStep (d.genesis, []) actions

def log (actions : List (Action d)) : List Log := (d.logRun actions).2

variable {d}

theorem logStep_fst (s : World × List Log) (a : Action d) : (d.logStep s a).1 = d.step s.1 a :=
  a.logged_erases.attempt_fst s.1 s.2

theorem logRun_fst (actions : List (Action d)) : (d.logRun actions).1 = d.run actions := by
  have hrun : ∀ (s : World × List Log) (as : List (Action d)),
      (Machine.run d.logStep s as).1 = Machine.run d.step s.1 as := by
    intro s as
    induction as generalizing s with
    | nil => rfl
    | cons a as ih => rw [Machine.run, Machine.run, ih, logStep_fst]
  exact hrun _ actions

/-- A reader who is in step with every action of a sound state is in step with every run. -/
theorem log_follows {ρ : Type} {f : ρ → Log → ρ} {P : ρ → World → Prop}
    (hstep : ∀ w, d.Sound w → ∀ (a : Action d) log u w' log',
      a.logged (w, log) = .ok (u, w', log') →
        ∃ events, log' = log ++ events ∧ ∀ r, P r w → P (events.foldl f r) w')
    {r₀ : ρ} (h₀ : P r₀ d.genesis) (actions : List (Action d)) :
    P ((d.log actions).foldl f r₀) (d.run actions) := by
  have hkeep : ∀ (s : World × List Log) (a : Action d),
      d.Sound s.1 ∧ P (s.2.foldl f r₀) s.1 →
        d.Sound (d.logStep s a).1 ∧ P ((d.logStep s a).2.foldl f r₀) (d.logStep s a).1 := by
    rintro ⟨w, log⟩ a ⟨hsound, hread⟩
    refine ⟨logStep_fst (w, log) a ▸ sound_step hsound a, ?_⟩
    unfold logStep
    rcases Tx.attempt_cases a.logged (w, log) with ⟨u, hok⟩ | ⟨_, hsame⟩
    · generalize Tx.attempt a.logged (w, log) = s' at hok
      obtain ⟨events, hlog, hnext⟩ := hstep w hsound a log u s'.1 s'.2 hok
      rw [hlog, List.foldl_append]
      exact hnext _ hread
    · rw [hsame]
      exact hread
  have hrun := Machine.run_invariant hkeep (s := (d.genesis, [])) ⟨sound_genesis, h₀⟩ actions
  rw [← logRun_fst]
  exact hrun.2

theorem logRun_eq (actions : List (Action d)) :
    d.logRun actions = (d.run actions, d.log actions) :=
  Prod.ext (logRun_fst actions) rfl

end Deployment

/-! ## Arbitrary surroundings -/

def Log.TellsOfDeposits (dscEngine : Address) : Log → Prop
  | ⟨address, .CollateralDeposited ..⟩ => address = dscEngine
  | ⟨address, .CollateralRedeemed ..⟩ => address = dscEngine
  | _ => False

/-- Some execution leads from one world and log to another, as in `Reaches`.  What
is emitted elsewhere is not an event of the engine. -/
inductive LogReaches : World × List Log → World × List Log → Prop
  | refl (s : World × List Log) : LogReaches s s
  | elsewhere {s : World × List Log} {w w' : World} {log events : List Log}
      (h : LogReaches s (w, log)) (hstorage : w'.toDSCEngine = w.toDSCEngine)
      (hthis : w'.this = w.this) (hevents : ∀ e ∈ events, ¬e.TellsOfDeposits w.this) :
      LogReaches s (w', log ++ events)
  | call {s s' s'' : World × List Log} {ierc20 : LoggedIERC20} {msgSender : Address}
      {c : DSCEngine.Call} {u : Unit} (h : LogReaches s s')
      (htransfer : ∀ token sender dst amount v b v',
        ierc20.transfer token sender dst amount v = .ok (b, v') → LogReaches v v')
      (htransferFrom : ∀ token sender src dst amount v b v',
        ierc20.transferFrom token sender src dst amount v = .ok (b, v') → LogReaches v v')
      (hok : DSCEngine.Logged.run ierc20 msgSender c s' = .ok (u, s'')) : LogReaches s s''

namespace LogReaches

variable {s s' s'' : World × List Log}

theorem trans (h : LogReaches s s') (h' : LogReaches s' s'') : LogReaches s s'' := by
  induction h' with
  | refl => exact h
  | elsewhere _ hstorage hthis hevents ih => exact (ih h).elsewhere hstorage hthis hevents
  | call _ htransfer htransferFrom hok ih => exact (ih h).call htransfer htransferFrom hok

theorem of_silent {w w' : World} {log : List Log} (hstorage : w'.toDSCEngine = w.toDSCEngine)
    (hthis : w'.this = w.this) : LogReaches (w, log) (w', log) := by
  have helse := (refl (w, log)).elsewhere hstorage hthis
    (fun e he => absurd he (List.not_mem_nil (a := e)))
  rwa [List.append_nil] at helse

/-- A reader who is in step with the engine's own writes, over any tokens that leave
it in step, is in step with every execution. -/
theorem follows {ρ : Type} {f : ρ → Log → ρ} {P : ρ → World → Prop}
    (hengine : ∀ ierc20 : LoggedIERC20,
      (∀ token msgSender dst amount,
        Follows f P P (ierc20.transfer token msgSender dst amount)) →
      (∀ token msgSender src dst amount,
        Follows f P P (ierc20.transferFrom token msgSender src dst amount)) →
      Indexes f P (fun _ _ => P) ierc20)
    (helsewhere : ∀ r w w' (events : List Log), w'.toDSCEngine = w.toDSCEngine →
      w'.this = w.this →
      (∀ e ∈ events, ¬Log.TellsOfDeposits w.this e) → P r w → P (events.foldl f r) w')
    (h : LogReaches s s') :
    ∃ events, s'.2 = s.2 ++ events ∧ ∀ r, P r s.1 → P (events.foldl f r) s'.1 := by
  induction h with
  | refl s => exact ⟨[], (List.append_nil _).symm, fun r hr => hr⟩
  | @elsewhere s w w' log events _ hstorage hthis hevents ih =>
      obtain ⟨before, hlog, hread⟩ := ih
      refine ⟨before ++ events, by rw [← List.append_assoc, ← hlog], fun r hr => ?_⟩
      rw [List.foldl_append]
      exact helsewhere _ w w' events hstorage hthis hevents (hread r hr)
  | @call s s' s'' ierc20 msgSender c u _ _ _ hok ih htransfer htransferFrom =>
      obtain ⟨before, hlog, hread⟩ := ih
      -- the calls nested in this one are followed by induction
      have hindexes := hengine ierc20
        (fun token sender dst amount v log b v' log' hv =>
          htransfer token sender dst amount (v, log) b (v', log') hv)
        (fun token sender src dst amount v log b v' log' hv =>
          htransferFrom token sender src dst amount (v, log) b (v', log') hv)
      obtain ⟨w, log⟩ := s'
      obtain ⟨w', log'⟩ := s''
      obtain ⟨events, hlog', hnext⟩ := DSCEngine.Logged.run_follows hindexes msgSender c hok
      dsimp only at hlog
      refine ⟨before ++ events, by rw [hlog', hlog, List.append_assoc], fun r hr => ?_⟩
      rw [List.foldl_append]
      exact hnext _ (hread r hr)

theorem appends {w w' : World} {log log' : List Log} (h : LogReaches (w, log) (w', log')) :
    ∃ events, log' = log ++ events := by
  obtain ⟨events, hlog, _⟩ := h.follows (ρ := Unit) (f := fun r _ => r) (P := fun _ _ => True)
    (fun ierc20 htransfer htransferFrom => {
      setStatus := fun _ _ _ _ => trivial
      setCollateral_deposited := fun _ _ _ _ _ _ _ => trivial
      setCollateral_redeemed := fun _ _ _ _ _ _ _ _ => trivial
      transfer := fun _ _ => htransfer
      transferFrom := htransferFrom
      mintDsc := fun _ _ => Logged.mintDsc_follows (M := fun _ _ => True)
        (fun _ _ _ _ => trivial) (fun _ _ _ _ => trivial) fun _ _ _ _ => trivial
      _burnDsc := fun _ _ _ => Logged._burnDsc_follows (M := fun _ _ => True)
        (N := fun _ _ => True) (fun _ _ _ _ => trivial) (fun _ _ _ _ _ _ _ => trivial)
        (fun _ _ _ _ => trivial) fun _ _ _ _ => trivial
      self := fun _ _ _ => Iff.rfl })
    fun _ _ _ _ _ _ _ _ => trivial
  exact ⟨events, hlog⟩

end LogReaches

/-- **Every execution has a log**, whatever was logged before. -/
theorem Reaches.exists_log {w w' : World} (h : Reaches w w') :
    ∀ log, ∃ log', LogReaches (w, log) (w', log') := by
  induction h with
  | refl w => exact fun log => ⟨log, .refl _⟩
  | elsewhere _ hstorage hthis ih =>
      intro log
      obtain ⟨log', hlog⟩ := ih log
      exact ⟨log', hlog.trans (.of_silent hstorage hthis)⟩
  | @call w w' w'' ierc20 msgSender c _ _ _ hok ih htransfer htransferFrom =>
      intro log
      obtain ⟨log₁, hlog⟩ := ih log
      -- the tokens log whatever the calls that they make log
      let logged : LoggedIERC20 := {
        transfer := fun token sender dst amount =>
          annotate LogReaches (ierc20.transfer token sender dst amount)
        transferFrom := fun token sender src dst amount =>
          annotate LogReaches (ierc20.transferFrom token sender src dst amount) }
      have hcode : logged.Erases ierc20 :=
        ⟨fun _ _ _ _ => annotate_erases, fun _ _ _ _ _ => annotate_erases⟩
      obtain ⟨log', hrun⟩ := (Logged.run_erases hcode msgSender c).exists_log hok log₁
      refine ⟨log', hlog.call (fun token sender dst amount v b v' hv => ?_)
        (fun token sender src dst amount v b v' hv => ?_) hrun⟩
      · exact annotate_spec (htransfer token sender dst amount) hv
      · exact annotate_spec (htransferFrom token sender src dst amount) hv

/-! ## Runs over standard tokens -/

section Standard

variable {d : Deployment} {w w' : World} {log log' : List Log}

theorem logReaches_callToken {t : Address} {f : LogTx ERC20Event ERC20 Revert Bool} {b : Bool}
    (h : callTokenLogged t f (w, log) = .ok (b, w', log')) : LogReaches (w, log) (w', log') := by
  obtain ⟨k, events, _, rfl, rfl⟩ := zoom_eq_ok.mp h
  refine (LogReaches.refl (w, log)).elsewhere rfl rfl fun e he => ?_
  obtain ⟨_, _, rfl⟩ := List.mem_map.mp he
  exact id

theorem asERC20_emits {dscEngine address : Address} {α : Type}
    {t : LogTx ERC20Event ERC20 Revert α} :
    Emits (fun e => ¬Log.TellsOfDeposits dscEngine ⟨address, e⟩)
      (DecentralizedStableCoin.Logged.asERC20 t) :=
  .zoom fun _ => id

theorem dsc_run_emits (dscEngine address msgSender : Address) (c : DecentralizedStableCoin.Call) :
    Emits (fun e => ¬Log.TellsOfDeposits dscEngine ⟨address, e⟩)
      (DecentralizedStableCoin.Logged.run msgSender c) := by
  cases c with
  | erc20 c => exact asERC20_emits.bind fun _ => .pure
  | burn amount =>
      exact .bind .quiet fun _ => .bind .quiet fun _ => .bind .quiet fun _ =>
        .bind .quiet fun _ => asERC20_emits
  | burnFrom account amount => exact asERC20_emits
  | mint account amount =>
      have hmint : Emits (fun e => ¬Log.TellsOfDeposits dscEngine ⟨address, e⟩)
          (DecentralizedStableCoin.Logged.mint msgSender account amount) :=
        .bind .quiet fun _ => .bind .quiet fun _ => .bind .quiet fun _ =>
          asERC20_emits.bind fun _ => .pure
      exact hmint.bind fun _ => .pure
  | transferOwnership newOwner =>
      exact .bind .quiet fun _ => .bind .quiet fun _ => .bind .quiet fun _ =>
        .bind .quiet fun _ => .emit id
  | renounceOwnership =>
      exact .bind .quiet fun _ => .bind .quiet fun _ => .bind .quiet fun _ => .emit id

/-- What is not a call of the engine emits no event of the engine's kind. -/
theorem logged_emits {a : Action d} (ha : ∀ msgSender c, a ≠ .engine msgSender c) :
    Emits (fun e => ¬e.TellsOfDeposits e.address) a.logged := by
  cases a with
  | engine msgSender c => exact absurd rfl (ha msgSender c)
  | dsc msgSender c =>
      exact .bind .quiet fun dsc => .zoom_of_emits (dsc_run_emits dsc dsc msgSender c)
  | token t msgSender c => exact .bind (.zoom fun _ => id) fun _ => .pure
  | issueToken t account amount => exact .bind (.zoom fun _ => id) fun _ => .pure
  | oracle feed => exact Emits.quiet (t := Tx.store (World.setFeed feed))
  | warp timestamp => exact Emits.quiet (t := Tx.store (World.setTimestamp timestamp))

theorem logReaches_callDsc {msgSender : Address} {c : DecentralizedStableCoin.Call} {u : Unit}
    (h : callDscLogged (DecentralizedStableCoin.Logged.run msgSender c) (w, log) =
      .ok (u, w', log')) : LogReaches (w, log) (w', log') := by
  have hzoom : zoom World.dsc World.setDsc (Log.mk w.i_dsc)
      (DecentralizedStableCoin.Logged.run msgSender c) (w, log) = .ok (u, w', log') := h
  obtain ⟨k, events, hrun, rfl, rfl⟩ := zoom_eq_ok.mp hzoom
  obtain ⟨_, rfl, hemits⟩ := dsc_run_emits w.this w.i_dsc msgSender c hrun
  refine (LogReaches.refl (w, _)).elsewhere rfl rfl fun e he => ?_
  obtain ⟨e', he', rfl⟩ := List.mem_map.mp he
  exact hemits e' he'

theorem logReaches_logged {a : Action d} {u : Unit}
    (h : a.logged (w, log) = .ok (u, w', log')) : LogReaches (w, log) (w', log') := by
  cases a with
  | engine msgSender c =>
      exact (LogReaches.refl _).call (fun _ _ _ _ _ _ _ hv => logReaches_callToken hv)
        (fun _ _ _ _ _ _ _ _ hv => logReaches_callToken hv) h
  | dsc msgSender c => exact logReaches_callDsc h
  | token t msgSender c =>
      obtain ⟨_, s, hcall, hret⟩ := Tx.bind_eq_ok.mp h
      cases Tx.pure_eq_ok.mp hret
      exact logReaches_callToken hcall
  | issueToken t account amount =>
      obtain ⟨_, s, hcall, hret⟩ := Tx.bind_eq_ok.mp h
      cases Tx.pure_eq_ok.mp hret
      exact logReaches_callToken hcall
  | oracle feed =>
      obtain ⟨hstore, rfl⟩ := (quiet_eq_ok (t := Tx.store (World.setFeed feed))).mp h
      cases Tx.store_eq_ok.mp hstore
      exact .of_silent rfl rfl
  | warp timestamp =>
      obtain ⟨hstore, rfl⟩ := (quiet_eq_ok (t := Tx.store (World.setTimestamp timestamp))).mp h
      cases Tx.store_eq_ok.mp hstore
      exact .of_silent rfl rfl

/-- **Every run over standard tokens is an execution, with its log.** -/
theorem logReaches_run (d : Deployment) (actions : List (Action d)) :
    LogReaches (d.genesis, []) (d.run actions, d.log actions) := by
  suffices hrun : LogReaches (d.genesis, []) (d.logRun actions) by
    rwa [Deployment.logRun_eq] at hrun
  refine Machine.run_invariant (I := fun s => LogReaches (d.genesis, []) s)
    (fun s a hs => ?_) (.refl _) actions
  · unfold Deployment.logStep
    rcases Tx.attempt_cases a.logged s with ⟨u, hok⟩ | ⟨_, hsame⟩
    · exact hs.trans (logReaches_logged hok)
    · rwa [hsame]

/-- Whatever a run has logged was emitted by one of its actions, one that returned. -/
theorem mem_log {actions : List (Action d)} {e : Log} (h : e ∈ d.log actions) :
    ∃ before a after u w' events, actions = before ++ a :: after ∧
      a.logged (d.run before, d.log before) = .ok (u, w', d.log before ++ events) ∧
        e ∈ events := by
  induction actions using List.reverseRecOn with
  | nil => exact absurd h List.not_mem_nil
  | append_singleton earlier a ih =>
      have hlast : d.log (earlier ++ [a]) =
          (Tx.attempt a.logged (d.run earlier, d.log earlier)).2 := by
        rw [← Deployment.logRun_eq]
        unfold Deployment.log Deployment.logRun
        rw [Machine.run_append]
        rfl
      rcases Tx.attempt_cases a.logged (d.run earlier, d.log earlier) with ⟨u, hok⟩ | ⟨_, hsame⟩
      · generalize Tx.attempt a.logged (d.run earlier, d.log earlier) = s' at hok hlast
        obtain ⟨w', log'⟩ := s'
        obtain ⟨events, rfl⟩ := (logReaches_logged hok).appends
        rw [hlast] at h
        rcases List.mem_append.mp h with he | he
        · obtain ⟨before, b, after, v, v', events', rfl, hlogged, hmem⟩ := ih he
          exact ⟨before, b, after ++ [a], v, v', events', by simp, hlogged, hmem⟩
        · exact ⟨earlier, a, [], u, w', events, rfl, hok, he⟩
      · rw [hlast, hsame] at h
        obtain ⟨before, b, after, v, v', events', rfl, hlogged, hmem⟩ := ih h
        exact ⟨before, b, after ++ [a], v, v', events', by simp, hlogged, hmem⟩

end Standard

end DefiStablecoin
