import DefiStablecoin.System.Deployment

/-!
# Invariants of the deployed system

What holds in every state that a run of the deployed system reaches: the guard
is open and the engine owns the stablecoin, the token contracts are well formed,
only registered tokens are deposited, debts are bounded, and the books balance up
to what others sent to the engine or burned behind its back.
-/

namespace DefiStablecoin

open Solidity OpenZeppelin DSCEngine World

namespace Deployment

/-- The contracts are where they were deployed, and their tokens are well formed. -/
structure Intact (d : Deployment) (w : World) : Prop where
  this_eq : w.this = d.dscEngine
  dsc_eq : w.i_dsc = d.dsc
  owner_eq : w.dscOwner = d.dscEngine
  tokens : w.TokensSound

structure Sound (d : Deployment) (w : World) : Prop extends Intact d w where
  status_eq : w._status = _NOT_ENTERED
  priceFeeds_eq : w.s_priceFeeds = d.genesis.s_priceFeeds
  collateralTokens_eq : w.s_collateralTokens = d.s_tokenAddresses
  unlisted : ∀ t, w.s_priceFeeds t = 0 → ∀ u, w.s_collateralDeposited u t = 0
  debt_lt : ∀ u, (w.s_DSCMinted u).toNat * 10 ^ 18 < 2 ^ 256

variable {d : Deployment} {w w' : World} {a : Action d} {u : Unit}

namespace Intact

theorem of_setting (h : d.Intact w) (hsetting : SameSetting w w') (htokens : w'.TokensSound) :
    d.Intact w' where
  this_eq := hsetting.this_eq.trans h.this_eq
  dsc_eq := hsetting.dsc_eq.trans h.dsc_eq
  owner_eq := hsetting.owner_eq.trans h.owner_eq
  tokens := htokens

theorem this_ne_zero (h : d.Intact w) : w.this ≠ 0 := by
  rw [h.this_eq]
  exact d.dscEngine_ne_zero

theorem owner_this (h : d.Intact w) : w.dscOwner = w.this := h.owner_eq.trans h.this_eq.symm

theorem ne_this (h : d.Intact w) (msgSender : d.Account) : msgSender.val ≠ w.this := by
  rw [h.this_eq]
  exact msgSender.property

theorem ne_owner (h : d.Intact w) (msgSender : d.Account) : w.dscOwner ≠ msgSender.val := by
  rw [h.owner_eq]
  exact msgSender.property.symm

theorem ne_dsc (h : d.Intact w) (t : d.Token) : t.val ≠ w.i_dsc := by
  rw [h.dsc_eq]
  exact t.property

end Intact

theorem sound_genesis : d.Sound d.genesis where
  this_eq := rfl
  dsc_eq := rfl
  owner_eq := rfl
  status_eq := rfl
  priceFeeds_eq := rfl
  collateralTokens_eq := rfl
  tokens := by
    have hexisting : { d.genesis with token := d.token }.TokensSound :=
      ⟨d.wellFormed, d.noAllowance⟩
    exact hexisting.setToken ERC20.WellFormed.empty fun _ => rfl
  unlisted _ _ _ := rfl
  debt_lt _ := show (0 : UInt256).toNat * 10 ^ 18 < 2 ^ 256 by decide

namespace Sound

theorem setToken {t : Address} {k : ERC20} (h : d.Sound w)
    (htokens : (w.setToken t k).TokensSound) : d.Sound (w.setToken t k) :=
  { h with tokens := htokens }

theorem move {msgSender : Address} (h : d.Sound w) (hmove : Move msgSender w w') :
    d.Sound w' := by
  have hsame := hmove.sameSetting
  have hfeeds := hsame.priceFeeds_eq
  exact {
    toIntact := h.toIntact.of_setting hsame (hmove.tokensSound h.tokens)
    status_eq := hsame.status_eq.trans h.status_eq
    priceFeeds_eq := hfeeds.trans h.priceFeeds_eq
    collateralTokens_eq := hsame.collateralTokens_eq.trans h.collateralTokens_eq
    unlisted := fun t ht =>
      hmove.unlisted (hfeeds ▸ ht) (h.unlisted t (hfeeds ▸ ht))
    debt_lt := hmove.debt_lt h.debt_lt }

theorem moves {msgSender : Address} (h : d.Sound w) (hmoves : Moves msgSender w w') :
    d.Sound w' := by
  induction hmoves with
  | refl => exact h
  | tail _ hmove ih => exact ih.move hmove

end Sound

/-! ## Registered tokens -/

theorem mem_of_priceFeed {token : Address} (h : d.Sound w) (htoken : w.s_priceFeeds token ≠ 0) :
    token ∈ w.s_collateralTokens := by
  rw [h.collateralTokens_eq]
  by_contra hmem
  rw [h.priceFeeds_eq] at htoken
  exact htoken (d.genesis_priceFeeds_of_not_mem hmem)

theorem ne_dsc_of_priceFeed {token : Address} (h : d.Sound w) (htoken : w.s_priceFeeds token ≠ 0) :
    token ≠ w.i_dsc := by
  have hmem := mem_of_priceFeed h htoken
  rw [h.collateralTokens_eq] at hmem
  exact h.dsc_eq ▸ ne_of_mem_of_not_mem hmem d.dsc_not_mem

/-! ## What an action does when it returns -/

theorem tx_token_eq_ok {t : d.Token} {msgSender : d.Account} {c : ERC20Call} :
    (Action.token t msgSender c).tx w = .ok (u, w') ↔
      ∃ b k, c.run (ε := Revert) msgSender (w.token t) = .ok (b, k) ∧ w' = w.setToken t k := by
  simp only [Action.tx, Tx.bind_eq_ok, callToken_eq_ok, Tx.pure_eq_ok, Prod.mk.injEq]
  constructor
  · rintro ⟨b, _, ⟨k, hrun, rfl⟩, _, rfl⟩
    exact ⟨b, k, hrun, rfl⟩
  · rintro ⟨b, k, hrun, rfl⟩
    exact ⟨b, _, ⟨k, hrun, rfl⟩, trivial, rfl⟩

theorem tx_issueToken_eq_ok {t : d.Token} {account : Address} {amount : UInt256} :
    (Action.issueToken t account amount).tx w = .ok (u, w') ↔
      account ≠ 0 ∧ (w.token t)._totalSupply.toNat + amount.toNat < 2 ^ 256 ∧
        w' = w.setToken t ((w.token t).issue account amount) := by
  simp only [Action.tx, Tx.bind_eq_ok, issueToken_eq_ok, Tx.pure_eq_ok, Prod.mk.injEq]
  constructor
  · rintro ⟨_, _, ⟨hne, hfits, rfl, rfl⟩, _, rfl⟩
    exact ⟨hne, hfits, rfl⟩
  · rintro ⟨hne, hfits, rfl⟩
    exact ⟨_, _, ⟨hne, hfits, rfl, rfl⟩, trivial, rfl⟩

/-- **Every action that returns keeps the invariants.** -/
theorem sound_tx (h : d.Sound w) (hok : a.tx w = .ok (u, w')) : d.Sound w' := by
  cases a with
  | engine msgSender c => exact h.moves (run_moves h.status_eq hok)
  | dsc msgSender c =>
      obtain ⟨call, b, k, _, hrun, rfl⟩ | ⟨account, amount, _, hspend, hne, hcover, rfl⟩ :=
        callDsc_cases (h.ne_owner msgSender) hok
      · exact h.setToken (h.tokens.call (h.ne_this msgSender) hrun)
      · exact h.setToken (h.tokens.burnFrom hne hspend hcover)
  | token t msgSender c =>
      obtain ⟨b, k, hrun, rfl⟩ := tx_token_eq_ok.mp hok
      exact h.setToken (h.tokens.call (h.ne_this msgSender) hrun)
  | issueToken t account amount =>
      obtain ⟨hne, hfits, rfl⟩ := tx_issueToken_eq_ok.mp hok
      exact h.setToken (h.tokens.issueToken hne hfits)
  | oracle feed =>
      cases Tx.store_eq_ok.mp hok
      exact { h with tokens := ⟨h.tokens.wellFormed, h.tokens.noAllowance⟩ }
  | warp timestamp =>
      cases Tx.store_eq_ok.mp hok
      exact { h with tokens := ⟨h.tokens.wellFormed, h.tokens.noAllowance⟩ }

theorem ledgers_tx (h : d.Sound w) (hok : a.tx w = .ok (u, w')) :
    (∃ msgSender : d.Account, Moves msgSender w w') ∨
      (w'.s_collateralDeposited = w.s_collateralDeposited ∧ w'.s_DSCMinted = w.s_DSCMinted) := by
  cases a with
  | engine msgSender c => exact .inl ⟨msgSender, run_moves h.status_eq hok⟩
  | dsc msgSender c =>
      obtain ⟨_, _, _, _, _, rfl⟩ | ⟨_, _, _, _, _, _, rfl⟩ :=
        callDsc_cases (h.ne_owner msgSender) hok
      · exact .inr ⟨rfl, rfl⟩
      · exact .inr ⟨rfl, rfl⟩
  | token t msgSender c =>
      obtain ⟨_, _, _, rfl⟩ := tx_token_eq_ok.mp hok
      exact .inr ⟨rfl, rfl⟩
  | issueToken t account amount =>
      obtain ⟨_, _, rfl⟩ := tx_issueToken_eq_ok.mp hok
      exact .inr ⟨rfl, rfl⟩
  | oracle feed =>
      cases Tx.store_eq_ok.mp hok
      exact .inr ⟨rfl, rfl⟩
  | warp timestamp =>
      cases Tx.store_eq_ok.mp hok
      exact .inr ⟨rfl, rfl⟩

theorem book_tx (h : d.Sound w) (hok : a.tx w = .ok (u, w')) :
    (∃ (msgSender : d.Account) (c : DSCEngine.Call), a = .engine msgSender c) ∨
      w'.book = w.book := by
  cases a with
  | engine msgSender c => exact .inl ⟨msgSender, c, rfl⟩
  | dsc msgSender c =>
      obtain ⟨_, _, _, _, _, rfl⟩ | ⟨_, _, _, _, _, _, rfl⟩ :=
        callDsc_cases (h.ne_owner msgSender) hok
      · exact .inr rfl
      · exact .inr rfl
  | token t msgSender c =>
      obtain ⟨_, _, _, rfl⟩ := tx_token_eq_ok.mp hok
      exact .inr rfl
  | issueToken t account amount =>
      obtain ⟨_, _, rfl⟩ := tx_issueToken_eq_ok.mp hok
      exact .inr rfl
  | oracle feed =>
      cases Tx.store_eq_ok.mp hok
      exact .inr rfl
  | warp timestamp =>
      cases Tx.store_eq_ok.mp hok
      exact .inr rfl

theorem sound_step (h : d.Sound w) (a : Action d) : d.Sound (d.step w a) := by
  rcases Tx.attempt_cases a.tx w with ⟨_, hok⟩ | ⟨_, hsame⟩
  · exact sound_tx h hok
  · rwa [step, hsame]

/-- **Every reachable state is sound.** -/
theorem sound_run (d : Deployment) (actions : List (Action d)) : d.Sound (d.run actions) :=
  Machine.run_invariant (I := d.Sound) (fun _ a h => sound_step h a) sound_genesis actions

/-- **In no reachable state has the zero address deposited anything.** -/
theorem zero_deposited_run (d : Deployment) (actions : List (Action d)) (t : Address) :
    (d.run actions).s_collateralDeposited 0 t = 0 := by
  have hstep : ∀ w (a : Action d), (d.Sound w ∧ ∀ t, w.s_collateralDeposited 0 t = 0) →
      d.Sound (d.step w a) ∧ ∀ t, (d.step w a).s_collateralDeposited 0 t = 0 := by
    rintro w a ⟨hsound, hzero⟩
    refine ⟨sound_step hsound a, ?_⟩
    rcases Tx.attempt_cases a.tx w with ⟨_, hok⟩ | ⟨_, hsame⟩
    · obtain ⟨_, hmoves⟩ | ⟨hledger, _⟩ := ledgers_tx hsound hok
      · exact hmoves.zero_deposited hzero
      · intro t
        exact (congrFun (congrFun hledger 0) t).trans (hzero t)
    · rwa [step, hsame]
  exact (Machine.run_invariant hstep ⟨sound_genesis, fun _ => rfl⟩ actions).2 t

/-! ## Double entry -/

/-- The cost of an action that returns; one that reverts costs nothing. -/
def whenReturns (cost : Action d → ℕ) (w : World) (a : Action d) : ℕ :=
  match a.tx w with
  | .ok _ => cost a
  | .error _ => 0

theorem whenReturns_eq_zero {cost : Action d → ℕ} (h : cost a = 0) : whenReturns cost w a = 0 := by
  unfold whenReturns
  split
  · exact h
  · rfl

/-- What an action sends to a holder outside of the engine's own calls. -/
def sendsTo (holder t : Address) : Action d → ℕ
  | .dsc _ (.erc20 c) => if t = d.dsc then c.sentTo holder else 0
  | .token token _ c => if t = token.val then c.sentTo holder else 0
  | .issueToken token account amount =>
      if t = token.val then if account = holder then amount.toNat else 0 else 0
  | _ => 0

def sends (t : Address) : Action d → ℕ := sendsTo d.dscEngine t

/-- What an action burns by `burnFrom`, outside of the engine's own calls. -/
def burns : Action d → ℕ
  | .dsc _ (.burnFrom _ amount) => amount.toNat
  | _ => 0

/-- The engine's holdings of a token move with the deposits of it, up to what is
sent to the engine directly; the debts move with the supply, up to what is burned
directly. -/
theorem balance_tx (h : d.Sound w) (hok : a.tx w = .ok (u, w')) (t : Address) :
    w'.holdings t + w.deposits t = w.holdings t + w'.deposits t + sends t a ∧
      w'.debts + w.supply = w.debts + w'.supply + burns a := by
  cases a with
  | engine msgSender c =>
      have hmoves := run_moves h.status_eq hok
      exact ⟨hmoves.holdings_balance h.tokens (h.ne_this msgSender) t,
        hmoves.debts_balance h.tokens⟩
  | dsc msgSender c =>
      obtain ⟨call, b, k, rfl, hrun, rfl⟩ | ⟨account, amount, rfl, hspend, hne, hcover, rfl⟩ :=
        callDsc_cases (h.ne_owner msgSender) hok
      · have hheld := holdings_call h.tokens (h.ne_this msgSender) hrun t
        have hsent : (if t = w.i_dsc then call.sentTo w.this else 0) =
            if t = d.dsc then call.sentTo d.dscEngine else 0 := by rw [h.dsc_eq, h.this_eq]
        refine ⟨?_, congrArg (w.debts + ·) (supply_call hrun).symm⟩
        exact (congrArg (· + w.deposits t) (hheld.trans (congrArg _ hsent))).trans
          (Nat.add_right_comm ..)
      · have hheld := holdings_burnFrom h.tokens hspend t
        have hsupply := supply_burnFrom h.tokens msgSender hcover
        refine ⟨congrArg (· + w.deposits t) hheld, ?_⟩
        exact (congrArg (w.debts + ·) hsupply.symm).trans (Nat.add_assoc ..).symm
  | token token msgSender c =>
      obtain ⟨b, k, hrun, rfl⟩ := tx_token_eq_ok.mp hok
      have hheld := holdings_call h.tokens (h.ne_this msgSender) hrun t
      rw [h.this_eq] at hheld
      refine ⟨?_, congrArg (w.debts + ·) (supply_call hrun).symm⟩
      exact (congrArg (· + w.deposits t) hheld).trans (Nat.add_right_comm ..)
  | issueToken token account amount =>
      obtain ⟨hne, hfits, rfl⟩ := tx_issueToken_eq_ok.mp hok
      have hheld := holdings_issueToken h.tokens hfits account t
      rw [h.this_eq] at hheld
      refine ⟨?_, congrArg (w.debts + ·) (supply_setToken_of_ne w _ (h.ne_dsc token)).symm⟩
      exact (congrArg (· + w.deposits t) hheld).trans (Nat.add_right_comm ..)
  | oracle feed =>
      cases Tx.store_eq_ok.mp hok
      exact ⟨rfl, rfl⟩
  | warp timestamp =>
      cases Tx.store_eq_ok.mp hok
      exact ⟨rfl, rfl⟩

theorem balance_step (h : d.Sound w) (a : Action d) (t : Address) :
    (d.step w a).holdings t + w.deposits t =
        w.holdings t + (d.step w a).deposits t + whenReturns (sends t) w a ∧
      (d.step w a).debts + w.supply = w.debts + (d.step w a).supply + whenReturns burns w a := by
  unfold step Tx.attempt whenReturns
  cases hok : a.tx w with
  | error e => simp
  | ok r => exact balance_tx h hok t

/-- What was sent to the engine, before its deployment and along a run, other than
by its own calls. -/
def sentDirectly (d : Deployment) (t : Address) (actions : List (Action d)) : ℕ :=
  d.genesis.holdings t + Machine.charge d.step (whenReturns (sends t)) d.genesis actions

def burnedDirectly (d : Deployment) (actions : List (Action d)) : ℕ :=
  Machine.charge d.step (whenReturns burns) d.genesis actions

theorem deposits_genesis (t : Address) : d.genesis.deposits t = 0 := total_zero

theorem debts_genesis : d.genesis.debts = 0 := total_zero

theorem supply_genesis : d.genesis.supply = 0 := by
  simp [supply, genesis, ERC20.empty]

/-- The engine holds what is deposited and what was sent to it directly. -/
theorem holdings_run (d : Deployment) (actions : List (Action d)) (t : Address) :
    (d.run actions).holdings t = (d.run actions).deposits t + d.sentDirectly t actions := by
  have hbalance := Machine.run_balance (I := d.Sound) (fun w => w.holdings t)
    (fun w => w.deposits t) (fun _ a h => sound_step h a)
    (fun _ a h => (balance_step h a t).1) sound_genesis actions
  rw [deposits_genesis] at hbalance
  unfold sentDirectly run
  omega

/-- What is owed is what exists and what was burned directly. -/
theorem debts_run (d : Deployment) (actions : List (Action d)) :
    (d.run actions).debts = (d.run actions).supply + d.burnedDirectly actions := by
  have hbalance := Machine.run_balance (I := d.Sound) debts supply
    (fun _ a h => sound_step h a) (fun _ a h => (balance_step h a 0).2) sound_genesis actions
  rw [debts_genesis, supply_genesis] at hbalance
  unfold burnedDirectly run
  omega

end Deployment

end DefiStablecoin
