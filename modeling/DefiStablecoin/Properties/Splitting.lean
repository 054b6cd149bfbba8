import DefiStablecoin.Proofs.Wallets
import DefiStablecoin.System.Invariants

/-!
# Liquidations in slices

A liquidation rounds what it pays out twice, and both times down.  Over any
number of liquidations of one user the liquidators therefore get at most 110% of
the debt that they cover, less only by the roundings, and never more than a
single liquidation of the whole would have paid.
-/

namespace DefiStablecoin

open Solidity

/-! ## The payout in slices -/

theorem tokenAmount_mul_le (price debt : ℕ) :
    tokenAmount price debt * (price * 10 ^ 10) ≤ debt * 10 ^ 18 :=
  convert_mul_le _ _ debt

theorem payout_mul_le (price debt : ℕ) :
    10 * (price * 10 ^ 10) * payout price debt ≤ 11 * 10 ^ 18 * debt := by
  have hbonus : 10 * payout price debt ≤ 11 * tokenAmount price debt := by
    unfold payout
    omega
  calc 10 * (price * 10 ^ 10) * payout price debt
      = 10 * payout price debt * (price * 10 ^ 10) := Nat.mul_right_comm ..
    _ ≤ 11 * tokenAmount price debt * (price * 10 ^ 10) := Nat.mul_le_mul_right _ hbonus
    _ = 11 * (tokenAmount price debt * (price * 10 ^ 10)) := Nat.mul_assoc ..
    _ ≤ 11 * (debt * 10 ^ 18) := Nat.mul_le_mul_left _ (tokenAmount_mul_le price debt)
    _ = 11 * 10 ^ 18 * debt := by omega

/-- One payout falls short of 110% by less than 21 units of the token. -/
theorem lt_payout_mul {price : ℕ} (hprice : price ≠ 0) (debt : ℕ) :
    11 * 10 ^ 18 * debt < 10 * (price * 10 ^ 10) * payout price debt + 21 * (price * 10 ^ 10) := by
  have hscaled : 0 < price * 10 ^ 10 := by omega
  have hfloor : debt * 10 ^ 18 < (tokenAmount price debt + 1) * (price * 10 ^ 10) :=
    lt_convert_succ_mul hscaled _ debt
  have hbonus : 11 * (tokenAmount price debt + 1) ≤ 10 * payout price debt + 21 := by
    unfold payout
    omega
  calc 11 * 10 ^ 18 * debt = 11 * (debt * 10 ^ 18) := by omega
    _ < 11 * ((tokenAmount price debt + 1) * (price * 10 ^ 10)) :=
        Nat.mul_lt_mul_of_pos_left hfloor (by decide)
    _ = 11 * (tokenAmount price debt + 1) * (price * 10 ^ 10) := (Nat.mul_assoc ..).symm
    _ ≤ (10 * payout price debt + 21) * (price * 10 ^ 10) := Nat.mul_le_mul_right _ hbonus
    _ = 10 * (price * 10 ^ 10) * payout price debt + 21 * (price * 10 ^ 10) := by
        rw [Nat.add_mul, Nat.mul_right_comm]

theorem payout_add_le (price a b : ℕ) : payout price a + payout price b ≤ payout price (a + b) := by
  have htokens := tokenAmount_add_le price a b
  unfold payout
  omega

/-- How what is taken over `n` liquidations relates to the debt that they cover. -/
structure WithinBonus (price taken debt n : ℕ) : Prop where
  upper : 10 * (price * 10 ^ 10) * taken ≤ 11 * 10 ^ 18 * debt
  lower : 11 * 10 ^ 18 * debt + n ≤ 10 * (price * 10 ^ 10) * taken + 21 * n * (price * 10 ^ 10)
  single : taken ≤ payout price debt

namespace WithinBonus

theorem zero (price : ℕ) : WithinBonus price 0 0 0 :=
  ⟨by simp, by simp, Nat.zero_le _⟩

theorem one {price : ℕ} (hprice : price ≠ 0) (debt : ℕ) :
    WithinBonus price (payout price debt) debt 1 :=
  ⟨payout_mul_le price debt, lt_payout_mul hprice debt, le_rfl⟩

theorem add {price taken debt n taken' debt' n' : ℕ} (h : WithinBonus price taken debt n)
    (h' : WithinBonus price taken' debt' n') :
    WithinBonus price (taken + taken') (debt + debt') (n + n') where
  upper := by
    rw [Nat.mul_add, Nat.mul_add]
    exact Nat.add_le_add h.upper h'.upper
  lower := by
    have hlower := h.lower
    have hlower' := h'.lower
    rw [Nat.mul_add, Nat.mul_add (10 * (price * 10 ^ 10)), Nat.mul_add 21, Nat.add_mul]
    omega
  single := (Nat.add_le_add h.single h'.single).trans (payout_add_le price debt debt')

end WithinBonus

/-- A payout lowers the value of what it is taken from by at most 110% of the debt. -/
theorem usdValue_le_of_payout {price debt deposited : ℕ} (hcover : payout price debt ≤ deposited) :
    usdValue price deposited ≤
      usdValue price (deposited - payout price debt) + (11 * debt + 9) / 10 := by
  obtain ⟨left, rfl⟩ := Nat.exists_eq_add_of_le' hcover
  have hpaid : price * 10 ^ 10 * payout price debt ≤ 10 ^ 18 * ((11 * debt + 9) / 10) := by
    have hbound := payout_mul_le price debt
    rw [Nat.mul_assoc] at hbound
    omega
  rw [Nat.add_sub_cancel]
  unfold usdValue
  calc price * 10 ^ 10 * (left + payout price debt) / 10 ^ 18
      ≤ (price * 10 ^ 10 * left + 10 ^ 18 * ((11 * debt + 9) / 10)) / 10 ^ 18 := by
        rw [Nat.mul_add]
        exact Nat.div_le_div_right (Nat.add_le_add_left hpaid _)
    _ = price * 10 ^ 10 * left / 10 ^ 18 + (11 * debt + 9) / 10 :=
        Nat.add_mul_div_left _ _ (by decide)

namespace DSCEngine

open Solidity OpenZeppelin World

variable {w w' : World} {msgSender token user : Address} {debtToCover : UInt256}

/-! ## What one liquidation does -/

/-- The book that a liquidation leaves, and that it can be valued before and after. -/
theorem liquidate_book
    (h : liquidate IERC20.standard msgSender token user debtToCover w = .ok ((), w')) :
    payout (w.market.price token) debtToCover.toNat ≤ w.book.collateral user token ∧
    debtToCover.toNat ≤ w.book.debt user ∧
    w'.book = (w.book.withdraw user token
      (payout (w.market.price token) debtToCover.toNat)).repay user debtToCover.toNat ∧
    w.market.Scorable w.book user ∧ w.market.Scorable w'.book user := by
  rw [← IERC20.hooked_id, liquidate_eq_ok] at h
  obtain ⟨_, _, hscore, _, _, seized, _, _, _, hseized, hcover, rfl, _, rfl, ⟨howed, _⟩, rfl,
    hscore', _, _, _, rfl⟩ := h
  rw [← hseized]
  exact ⟨hcover, howed, book_liquidated msgSender hcover howed, hscore, hscore'⟩

theorem balance_liquidate (hw : w.TokensSound) (hstatus : w._status = _NOT_ENTERED)
    (htoken : token ≠ w.i_dsc) (hne : msgSender ≠ w.this)
    (h : liquidate IERC20.standard msgSender token user debtToCover w = .ok ((), w')) :
    ((w'.token token)._balances msgSender).toNat =
      ((w.token token)._balances msgSender).toNat +
        payout (w.market.price token) debtToCover.toNat := by
  obtain ⟨_, _, _, _, seized, hseized, _, hpay, _, _, _, _, _, rfl⟩ :=
    (liquidate_standard_eq_ok hstatus).mp h
  have hrepaid : (liquidated user msgSender token seized debtToCover w).token token =
      (redeemed user msgSender token seized w).token token :=
    token_repaid_of_ne (w := redeemed user msgSender token seized w) htoken
  rw [hrepaid, ← hseized]
  exact balance_redeemed user hw hpay hne

theorem value_le_of_liquidate (hnodup : w.s_collateralTokens.Nodup)
    (h : liquidate IERC20.standard msgSender token user debtToCover w = .ok ((), w')) :
    w.collateralValue user ≤ w'.collateralValue user + (11 * debtToCover.toNat + 9) / 10 := by
  obtain ⟨hcover, _, hbook, _, _⟩ := liquidate_book h
  have hmarket := (liquidate_refines h).1
  have hrow : w'.book.collateral user = Function.update (w.book.collateral user) token
      (w.book.collateral user token - payout (w.market.price token) debtToCover.toNat) := by
    rw [hbook]
    exact Function.update_self ..
  unfold collateralValue
  rw [hmarket, hrow]
  by_cases hlisted : token ∈ w.market.terms.tokens
  · have hvalue := w.market.terms.value_update hnodup hlisted (w.book.collateral user)
      (w.book.collateral user token - payout (w.market.price token) debtToCover.toNat)
    have hdrop : w.market.terms.worth token (w.book.collateral user token) ≤
        w.market.terms.worth token (w.book.collateral user token -
          payout (w.market.price token) debtToCover.toNat) + (11 * debtToCover.toNat + 9) / 10 :=
      usdValue_le_of_payout hcover
    omega
  · rw [Lending.Terms.value_update_of_not_mem hlisted]
    exact Nat.le_add_right _ _

end DSCEngine

namespace Deployment

open Solidity OpenZeppelin DSCEngine World

variable {d : Deployment} {w : World} {a : Action d} {token user : Address}

/-! ## Liquidations along a run -/

def liquidation (token user : Address) : Action d → Option (d.Account × UInt256)
  | .engine msgSender (.liquidate t u debtToCover) =>
      if t = token ∧ u = user then some (msgSender, debtToCover) else none
  | _ => none

theorem liquidation_eq_some {msgSender : d.Account} {debtToCover : UInt256} :
    liquidation token user a = some (msgSender, debtToCover) ↔
      a = .engine msgSender (.liquidate token user debtToCover) := by
  unfold liquidation
  split
  · simp only [Option.ite_none_right_eq_some, Option.some.injEq, Prod.mk.injEq,
      Action.engine.injEq, DSCEngine.Call.liquidate.injEq]
    tauto
  · next hother =>
      simp only [reduceCtorEq, false_iff]
      intro heq
      exact hother _ _ _ _ heq

def covered (token user : Address) : World → Action d → ℕ :=
  whenReturns fun a => (liquidation token user a).elim 0 fun l => l.2.toNat

def liquidated (token user : Address) : World → Action d → ℕ :=
  whenReturns fun a => (liquidation token user a).elim 0 fun _ => 1

/-- What a liquidation takes out of the user's ledger. -/
def taken (d : Deployment) (token user : Address) (w : World) (a : Action d) : ℕ :=
  (liquidation token user a).elim 0 fun _ =>
    (w.s_collateralDeposited user token).toNat -
      ((d.step w a).s_collateralDeposited user token).toNat

def received (d : Deployment) (token user : Address) (w : World) (a : Action d) : ℕ :=
  (liquidation token user a).elim 0 fun l =>
    (((d.step w a).token token)._balances l.1).toNat - ((w.token token)._balances l.1).toNat

/-- A liquidation that returns pays what it takes, lowers the debt by what it covers,
and the value by at most 110% of that. -/
def FairLiquidation (d : Deployment) (token user : Address) (w : World) (a : Action d) : Prop :=
  ∀ msgSender debtToCover, liquidation token user a = some (msgSender, debtToCover) →
    Tx.Returns a.tx w →
    ((d.step w a).s_collateralDeposited user token).toNat + taken d token user w a =
        (w.s_collateralDeposited user token).toNat ∧
      (((d.step w a).token token)._balances msgSender).toNat =
        ((w.token token)._balances msgSender).toNat + taken d token user w a ∧
      ((d.step w a).s_DSCMinted user).toNat + debtToCover.toNat = (w.s_DSCMinted user).toNat ∧
      ∃ value value', getAccountCollateralValue user w = .ok value ∧
        getAccountCollateralValue user (d.step w a) = .ok value' ∧
        value.toNat ≤ value'.toNat + (11 * debtToCover.toNat + 9) / 10

section Liquidation

variable {msgSender : d.Account} {debtToCover : UInt256}

theorem liquidate_of_returns
    (h : Tx.Returns (Action.engine msgSender (.liquidate token user debtToCover)).tx w) :
    liquidate IERC20.standard msgSender token user debtToCover w =
      .ok ((), d.step w (.engine msgSender (.liquidate token user debtToCover))) :=
  h.eq_ok

theorem step_of_not_returns (h : ¬Tx.Returns a.tx w) : d.step w a = w := by
  rcases Tx.attempt_cases a.tx w with ⟨_, hok⟩ | ⟨_, hsame⟩
  · exact absurd ⟨_, hok⟩ h
  · exact hsame

theorem whenReturns_of_returns {cost : Action d → ℕ} (h : Tx.Returns a.tx w) :
    whenReturns cost w a = cost a := by
  obtain ⟨r, hok⟩ := h
  simp [whenReturns, hok]

theorem whenReturns_of_not_returns {cost : Action d → ℕ} (h : ¬Tx.Returns a.tx w) :
    whenReturns cost w a = 0 := by
  unfold whenReturns
  split
  · next r hok => exact absurd ⟨r, hok⟩ h
  · rfl

theorem deposited_add_payout
    (h : Tx.Returns (Action.engine msgSender (.liquidate token user debtToCover)).tx w) :
    ((d.step w (.engine msgSender (.liquidate token user debtToCover))).s_collateralDeposited
        user token).toNat + payout (w.market.price token) debtToCover.toNat =
      (w.s_collateralDeposited user token).toNat := by
  obtain ⟨hcover, _, hbook, _, _⟩ := liquidate_book (liquidate_of_returns h)
  have hleft := congrFun (congrFun (congrArg Lending.Book.collateral hbook) user) token
  have hrow : ((w.book.withdraw user token (payout (w.market.price token)
      debtToCover.toNat)).repay user debtToCover.toNat).collateral user token =
        w.book.collateral user token - payout (w.market.price token) debtToCover.toNat := by
    simp [Lending.Book.withdraw, Lending.Book.repay]
  exact (congrArg (· + _) (hleft.trans hrow)).trans (Nat.sub_add_cancel hcover)

theorem taken_of_returns
    (h : Tx.Returns (Action.engine msgSender (.liquidate token user debtToCover)).tx w) :
    taken d token user w (.engine msgSender (.liquidate token user debtToCover)) =
      payout (w.market.price token) debtToCover.toNat := by
  have hleft := deposited_add_payout h
  have hsome := liquidation_eq_some.mpr
    (rfl : Action.engine msgSender (.liquidate token user debtToCover) = _)
  unfold taken
  rw [hsome, Option.elim_some]
  omega

theorem fair_of_returns (h : d.Sound w) (htoken : token ∈ d.s_tokenAddresses) :
    d.FairLiquidation token user w a := by
  intro msgSender debtToCover hsome hreturns
  obtain rfl := liquidation_eq_some.mp hsome
  have hok := liquidate_of_returns hreturns
  have hne : token ≠ w.i_dsc := h.dsc_eq ▸ ne_of_mem_of_not_mem htoken d.dsc_not_mem
  obtain ⟨_, howed, hbook, hscore, hscore'⟩ := liquidate_book hok
  have hmarket := (liquidate_refines hok).1
  rw [taken_of_returns hreturns]
  refine ⟨deposited_add_payout hreturns,
    balance_liquidate h.tokens h.status_eq hne (h.ne_this msgSender) hok, ?_, ?_⟩
  · have hdebt := congrFun (congrArg Lending.Book.debt hbook) user
    have hrow : ((w.book.withdraw user token (payout (w.market.price token)
        debtToCover.toNat)).repay user debtToCover.toNat).debt user =
          w.book.debt user - debtToCover.toNat := Function.update_self ..
    exact (congrArg (· + _) (hdebt.trans hrow)).trans (Nat.sub_add_cancel howed)
  · have hnodup : w.s_collateralTokens.Nodup := h.collateralTokens_eq ▸ d.nodup
    rw [← hmarket] at hscore'
    obtain ⟨value, hvalue, heq⟩ := exists_collateralValue hscore.1
    obtain ⟨value', hvalue', heq'⟩ := exists_collateralValue hscore'.1
    refine ⟨value, value', hvalue, hvalue', ?_⟩
    rw [heq, heq']
    exact value_le_of_liquidate hnodup hok

end Liquidation

theorem charges_cases (h : d.Sound w) (htoken : token ∈ d.s_tokenAddresses) (a : Action d) :
    received d token user w a = taken d token user w a ∧
    ((taken d token user w a = 0 ∧ covered token user w a = 0 ∧ liquidated token user w a = 0) ∨
      ∃ debt, w.market.price token ≠ 0 ∧
        taken d token user w a = payout (w.market.price token) debt ∧
        covered token user w a = debt ∧ liquidated token user w a = 1) := by
  by_cases hreturns : Tx.Returns a.tx w
  · unfold covered liquidated
    rw [whenReturns_of_returns hreturns, whenReturns_of_returns hreturns]
    cases hsome : liquidation token user a with
    | none => simp [received, taken, hsome]
    | some l =>
        obtain ⟨msgSender, debtToCover⟩ := l
        obtain ⟨_, hbalance, _⟩ := fair_of_returns h htoken _ _ hsome hreturns
        obtain rfl := liquidation_eq_some.mp hsome
        refine ⟨?_, .inr ⟨debtToCover.toNat, ?_, taken_of_returns hreturns, rfl, rfl⟩⟩
        · unfold received
          rw [hsome, Option.elim_some, hbalance]
          exact Nat.add_sub_cancel_left ..
        · have hok := liquidate_of_returns hreturns
          rw [← IERC20.hooked_id, liquidate_eq_ok] at hok
          exact hok.2.2.2.2.1.2.1
  · unfold covered liquidated received taken
    rw [whenReturns_of_not_returns hreturns, whenReturns_of_not_returns hreturns,
      step_of_not_returns hreturns]
    cases liquidation token user a <;> simp

/-- **Splitting a liquidation never pays.** At a constant price, what the liquidations
of a user in a token take from it is what their liquidators receive, at most 110% of
the covered debt and less than that by under 21 units a liquidation, and no more than
one liquidation of the whole would take; and each of them is fair. -/
theorem liquidations_payout (d : Deployment) (before actions : List (Action d))
    (token user : Address) (price : ℕ) (htoken : token ∈ d.s_tokenAddresses)
    (hprice : Machine.Along d.step (fun w _ => w.market.price token = price) (d.run before)
      actions) :
    let S := Machine.charge d.step (taken d token user) (d.run before) actions
    let debt := Machine.charge d.step (covered token user) (d.run before) actions
    let n := Machine.charge d.step (liquidated token user) (d.run before) actions
    Machine.charge d.step (received d token user) (d.run before) actions = S ∧
    10 * (price * 10 ^ 10) * S ≤ 11 * 10 ^ 18 * debt ∧
    (n ≠ 0 → 11 * 10 ^ 18 * debt < 10 * (price * 10 ^ 10) * S + 21 * n * (price * 10 ^ 10)) ∧
    S ≤ payout price debt ∧
    Machine.Along d.step (d.FairLiquidation token user) (d.run before) actions := by
  intro S debt n
  have hinv : ∀ w a, d.Sound w → d.Sound (d.step w a) := fun _ a h => sound_step h a
  have hsound := d.sound_run before
  have hreceived : Machine.charge d.step (received d token user) (d.run before) actions = S :=
    Machine.charge_congr hinv (fun _ a h => (charges_cases h htoken a).1) hsound actions
  have hbonus : WithinBonus price S debt n := by
    refine Machine.charge_rel (WithinBonus.zero price) (fun _ _ _ _ _ _ h h' => h.add h') hinv
      (fun w a h hw => ?_) hsound hprice
    obtain ⟨_, ⟨htaken, hcovered, hcount⟩ | ⟨debt, hpositive, htaken, hcovered, hcount⟩⟩ :=
      charges_cases h htoken a
    · rw [htaken, hcovered, hcount]
      exact WithinBonus.zero price
    · rw [htaken, hcovered, hcount, hw]
      exact WithinBonus.one (hw ▸ hpositive) debt
  have hfair : Machine.Along d.step (d.FairLiquidation token user) (d.run before) actions :=
    Machine.along_mono hinv (fun _ _ h _ => fair_of_returns h htoken) hsound hprice
  have hlower := hbonus.lower
  exact ⟨hreceived, hbonus.upper, fun hn => by omega, hbonus.single, hfair⟩

/-- Two liquidations, with a deposit of the liquidator's that fails in between. -/
def slices : List (Action anvil) :=
  [.engine liquidator (.liquidate weth USER (1000 * 10 ^ 18)),
    .engine liquidator (.depositCollateral weth (10 ^ 18)),
    .engine liquidator (.liquidate weth USER (2000 * 10 ^ 18))]

/-- At $1500 they take no more than one liquidation of $3000 would. -/
theorem liquidations_payout_crash :
    Machine.charge anvil.step (taken anvil weth USER) (anvil.run (crash (1500 * 10 ^ 8))) slices ≤
      payout (1500 * 10 ^ 8) (3000 * 10 ^ 18) := by
  have hcovered : Machine.charge anvil.step (covered weth USER)
      (anvil.run (crash (1500 * 10 ^ 8))) slices = 3000 * 10 ^ 18 := by decide +kernel
  have hbound := (liquidations_payout anvil (crash (1500 * 10 ^ 8)) slices weth USER
    (1500 * 10 ^ 8) (by decide) ⟨by decide +kernel, by decide +kernel, by decide +kernel,
      trivial⟩).2.2.2.1
  rwa [hcovered] at hbound

end Deployment

end DefiStablecoin
