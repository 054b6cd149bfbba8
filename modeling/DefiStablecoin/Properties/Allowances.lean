import DefiStablecoin.OpenZeppelin.Allowances
import DefiStablecoin.System.Users

/-!
# Wallets of those who do nothing

An account that makes no call loses nothing but what it allowed others to spend,
and what it allowed the engine nobody but itself can make the engine spend.
-/

namespace DefiStablecoin.Deployment

open Solidity OpenZeppelin DSCEngine World

variable {d : Deployment} {w w' : World} {a : Action d} {u : Unit} {holder : Address}

/-- **An action honours the allowances of everybody else.** -/
theorem honours_tx (h : d.Sound w) (hpassive : actor a ≠ some holder)
    (hengine : holder ≠ d.dscEngine) (t : Address)
    (hfinite : ∀ s, actor a = some s → (w.token t)._allowances holder s ≠ maxUInt256)
    (hok : a.tx w = .ok (u, w')) :
    (w.token t).Honours (fun s => actor a = some s) holder (w'.token t) := by
  have hwellFormed := h.tokens.wellFormed t
  have hcaller : ∀ {msgSender : d.Account}, actor a = some msgSender.val →
      holder ≠ msgSender.val := fun hactor heq => hpassive (hactor.trans (congrArg some heq.symm))
  cases a with
  | engine msgSender c =>
      have hsame := (run_moves h.status_eq hok).sameWallet (hcaller rfl) (h.this_eq ▸ hengine)
      exact .of_le (hsame.allowance_eq t) (congrArg BitVec.toNat (hsame.balance_eq t)).ge
  | dsc msgSender c =>
      obtain ⟨call, b, k, _, hrun, rfl⟩ | ⟨account, amount, _, hspend, _, hcover, rfl⟩ :=
        callDsc_cases (h.ne_owner msgSender) hok
      · refine rel_setToken (fun _ => .refl) fun ht => ?_
        subst ht
        exact (ERC20.honours_call hwellFormed (hcaller rfl) (hfinite _ rfl) hrun).mono
          fun _ hs => hs ▸ rfl
      · refine rel_setToken (fun _ => .refl) fun ht => ?_
        subst ht
        exact (ERC20.honours_burnFrom hspend hcover (hfinite _ rfl)).mono fun _ hs => hs ▸ rfl
  | token token msgSender c =>
      obtain ⟨b, k, hrun, rfl⟩ := tx_token_eq_ok.mp hok
      refine rel_setToken (fun _ => .refl) fun ht => ?_
      subst ht
      exact (ERC20.honours_call hwellFormed (hcaller rfl) (hfinite _ rfl) hrun).mono
        fun _ hs => hs ▸ rfl
  | issueToken token account amount =>
      obtain ⟨_, hfits, rfl⟩ := tx_issueToken_eq_ok.mp hok
      refine rel_setToken (fun _ => .refl) fun ht => ?_
      subst ht
      exact hwellFormed.honours_issue hfits account
  | oracle feed =>
      cases Tx.store_eq_ok.mp hok
      exact .refl
  | warp timestamp =>
      cases Tx.store_eq_ok.mp hok
      exact .refl

theorem honours_step (h : d.Sound w) (hpassive : actor a ≠ some holder)
    (hengine : holder ≠ d.dscEngine) (t : Address)
    (hfinite : ∀ s, actor a = some s → (w.token t)._allowances holder s ≠ maxUInt256) :
    (w.token t).Honours (fun s => actor a = some s) holder ((d.step w a).token t) := by
  rcases Tx.attempt_cases a.tx w with ⟨_, hok⟩ | ⟨_, hsame⟩
  · exact honours_tx h hpassive hengine t hfinite hok
  · rw [step, hsame]
    exact .refl

theorem honours_run {actions : List (Action d)} (h : d.Sound w)
    (hpassive : ∀ a ∈ actions, actor a ≠ some holder) (hengine : holder ≠ d.dscEngine)
    (t : Address) (hfinite : ∀ a ∈ actions, ∀ s, actor a = some s →
      (w.token t)._allowances holder s ≠ maxUInt256) :
    (w.token t).Honours (fun s => ∃ a ∈ actions, actor a = some s) holder
      ((Machine.run d.step w actions).token t) := by
  induction actions generalizing w with
  | nil => exact .refl
  | cons a actions ih =>
      have hhead := List.mem_cons_self (a := a) (l := actions)
      have hfirst := honours_step h (hpassive a hhead) hengine t (hfinite a hhead)
      have hrest := ih (sound_step h a) (fun b hb => hpassive b (List.mem_cons_of_mem _ hb))
        fun b hb s hs => hfirst.ne_max (hfinite b (List.mem_cons_of_mem _ hb) s hs)
      apply ERC20.Honours.trans
      · exact hfirst.mono fun s hs => ⟨a, hhead, hs⟩
      · exact hrest.mono fun s ⟨b, hb, hs⟩ => ⟨b, List.mem_cons_of_mem _ hb, hs⟩

/-- **An account that does nothing loses only what it allowed.** From any reachable
state on, and whatever others do, the tokens that an account holds and those that it
still allows others to spend make up for what it held and allowed before.  What it
allowed the engine, or anybody who makes no call, stays allowed and unspent. -/
theorem wallet_kept (d : Deployment) (actions more : List (Action d)) (holder : d.Account)
    (t : Address) (hpassive : ∀ a ∈ more, actor a ≠ some holder.val)
    (hfinite : ∀ a ∈ more, ∀ s, actor a = some s →
      ((d.run actions).token t)._allowances holder s ≠ maxUInt256) :
    let before := (d.run actions).token t
    let after := (d.run (actions ++ more)).token t
    (before._balances holder).toNat + total (after._allowances holder) ≤
        (after._balances holder).toNat + total (before._allowances holder) ∧
      (∀ s, after._allowances holder s ≤ before._allowances holder s) ∧
      after._allowances holder d.dscEngine = before._allowances holder d.dscEngine ∧
      ∀ s, (∀ a ∈ more, actor a ≠ some s) →
        after._allowances holder s = before._allowances holder s := by
  intro before after
  have hrun := honours_run (d.sound_run actions) hpassive holder.property t hfinite
  have hafter : after = (Machine.run d.step (d.run actions) more).token t := by
    simp only [after, Deployment.run, Machine.run_append]
  rw [← hafter] at hrun
  have hidle : ∀ s, (∀ a ∈ more, actor a ≠ some s) →
      after._allowances holder s = before._allowances holder s := fun s hs =>
    hrun.allowance_eq s fun ⟨a, ha, hactor⟩ => hs a ha hactor
  refine ⟨hrun.spent_le, fun s => BitVec.le_def.mpr (hrun.allowance_le s), hidle _ ?_, hidle⟩
  intro a _ hactor
  cases a with
  | engine msgSender c => exact msgSender.property (Option.some.inj hactor)
  | dsc msgSender c => exact msgSender.property (Option.some.inj hactor)
  | token token msgSender c => exact msgSender.property (Option.some.inj hactor)
  | issueToken token account amount => cases hactor
  | oracle feed => cases hactor
  | warp timestamp => cases hactor

/-- A borrower lets the liquidator spend some of its stablecoins. -/
def entrusted : List (Action anvil) :=
  crash (1500 * 10 ^ 8) ++ [.dsc USER (.erc20 (.approve liquidator (7 * 10 ^ 18)))]

/-- The liquidator spends some of them, and liquidates the borrower with its own. -/
def spent : List (Action anvil) :=
  [.dsc liquidator (.erc20 (.transferFrom USER liquidator (5 * 10 ^ 18))),
    .engine liquidator (.liquidate weth USER (5000 * 10 ^ 18))]

theorem actor_spent : ∀ a ∈ spent, actor a = some liquidator.val :=
  List.forall_mem_cons.mpr ⟨rfl, List.forall_mem_singleton.mpr rfl⟩

theorem wallet_kept_spent :
    let before := (anvil.run entrusted).token anvil.dsc
    let after := (anvil.run (entrusted ++ spent)).token anvil.dsc
    (before._balances USER).toNat + total (after._allowances USER) ≤
        (after._balances USER).toNat + total (before._allowances USER) ∧
      (∀ s, after._allowances USER s ≤ before._allowances USER s) ∧
      after._allowances USER anvil.dscEngine = before._allowances USER anvil.dscEngine ∧
      ∀ s, (∀ a ∈ spent, actor a ≠ some s) →
        after._allowances USER s = before._allowances USER s := by
  apply wallet_kept
  · intro a ha
    rw [actor_spent a ha]
    decide
  · intro a ha s hs
    obtain rfl : s = liquidator.val := Option.some.inj (hs.symm.trans (actor_spent a ha))
    decide +kernel

end DefiStablecoin.Deployment
