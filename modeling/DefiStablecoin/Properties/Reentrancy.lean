import DefiStablecoin.System.Reentrancy
import DefiStablecoin.Properties.Health

/-!
# Safety under collateral tokens that call back

While the guard is closed, the only engine call that goes through is `burnDsc`,
which is not guarded.  Whatever runs from within a token transfer can therefore
cancel debt and burn stablecoins, but it moves no collateral.  That is enough for
the call around it to end with all books covered and nobody's health lost.
-/

namespace DefiStablecoin

open Solidity OpenZeppelin DSCEngine World

/-! ## What a call may do, seen from outside -/

/-- The token contracts stay sound, the cover of deposits and of the supply does not
shrink, and nobody loses its health. -/
structure Safe (w w' : World) : Prop where
  setting : SameSetting w w'
  tokens : w'.TokensSound
  holdings_cover : ∀ t, w.holdings t + w'.deposits t ≤ w'.holdings t + w.deposits t
  supply_cover : w'.supply + w.debts ≤ w.supply + w'.debts
  healthy : ∀ v, w.Healthy v → w'.Healthy v

/-- What may happen between an entry on the deposit ledger and the end of the call:
no deposit changes, debts only shrink, and the engine's holdings gain at least
`shift`, which is negative for a token that leaves. -/
structure Within (shift : Address → ℤ) (w w' : World) : Prop where
  setting : SameSetting w w'
  tokens : w'.TokensSound
  collateral_eq : w'.s_collateralDeposited = w.s_collateralDeposited
  debt_le : ∀ v, (w'.s_DSCMinted v).toNat ≤ (w.s_DSCMinted v).toNat
  holdings_ge : ∀ t, (w.holdings t : ℤ) + shift t ≤ w'.holdings t
  supply_cover : w'.supply + w.debts ≤ w.supply + w'.debts

abbrev Inner : World → World → Prop := Within fun _ => 0

variable {w w₁ w₂ w₃ w' w'' : World} {shift : Address → ℤ} {user token v : Address}
  {amount : UInt256}

theorem Safe.refl (h : w.TokensSound) : Safe w w :=
  ⟨.refl w, h, fun _ => le_rfl, le_rfl, fun _ hv => hv⟩

theorem Safe.trans (h : Safe w w') (h' : Safe w' w'') : Safe w w'' where
  setting := h.setting.trans h'.setting
  tokens := h'.tokens
  holdings_cover t := by
    have := h.holdings_cover t
    have := h'.holdings_cover t
    omega
  supply_cover := by
    have := h.supply_cover
    have := h'.supply_cover
    omega
  healthy v hv := h'.healthy v (h.healthy v hv)

theorem healthy_of_le (hmarket : w'.market = w.market)
    (hcollateral : ∀ t, (w.s_collateralDeposited v t).toNat ≤ (w'.s_collateralDeposited v t).toNat)
    (hdebt : (w'.s_DSCMinted v).toNat ≤ (w.s_DSCMinted v).toNat) (hv : w.Healthy v) :
    w'.Healthy v := by
  unfold Healthy
  rw [hmarket]
  exact Lending.Terms.Healthy.mono hv hcollateral hdebt

namespace Within

theorem deposits_eq (h : Within shift w w') (t : Address) : w'.deposits t = w.deposits t := by
  unfold deposits
  rw [h.collateral_eq]

theorem refl (h : w.TokensSound) : Inner w w :=
  ⟨.refl w, h, rfl, fun _ => le_rfl, fun _ => by simp, le_rfl⟩

theorem trans {s s' : Address → ℤ} (h : Within s w w') (h' : Within s' w' w'')
    (hshift : ∀ t, shift t = s t + s' t) : Within shift w w'' where
  setting := h.setting.trans h'.setting
  tokens := h'.tokens
  collateral_eq := h'.collateral_eq.trans h.collateral_eq
  debt_le v := (h'.debt_le v).trans (h.debt_le v)
  holdings_ge t := by
    have := h.holdings_ge t
    have := h'.holdings_ge t
    have := hshift t
    omega
  supply_cover := by
    have := h.supply_cover
    have := h'.supply_cover
    omega

theorem around (hbefore : Inner w w₁) (h : Within shift w₁ w₂) (hafter : Inner w₂ w₃) :
    Within shift w w₃ :=
  (hbefore.trans h fun t => (zero_add (shift t)).symm).trans hafter
    fun t => (add_zero (shift t)).symm

theorem safe (h : Inner w w') : Safe w w' where
  setting := h.setting
  tokens := h.tokens
  holdings_cover t := by
    have := h.holdings_ge t
    have := h.deposits_eq t
    omega
  supply_cover := h.supply_cover
  healthy v := healthy_of_le h.setting.market_eq
    (fun t => by rw [h.collateral_eq]) (h.debt_le v)

theorem healthy_of_ne
    (h : Within shift ((w.setStatus _ENTERED).setCollateral user token amount) w')
    (hne : v ≠ user) (hv : w.Healthy v) : w'.Healthy v := by
  refine healthy_of_le (w := w) h.setting.market_eq (fun t => ?_) (h.debt_le v) hv
  rw [h.collateral_eq]
  simp [hne]

/-- From the entry on the deposit ledger to the opening of the guard. -/
theorem safe_of_setCollateral (hstatus : w._status = _NOT_ENTERED)
    (h : Within shift ((w.setStatus _ENTERED).setCollateral user token amount) w')
    (hentry : ∀ t, (((w.setStatus _ENTERED).setCollateral user token amount).deposits t : ℤ) ≤
      w.deposits t + shift t)
    (hhealthy : ∀ v, w.Healthy v → w'.Healthy v) : Safe w (w'.setStatus _NOT_ENTERED) where
  setting := ⟨h.setting.this_eq, h.setting.dsc_eq, h.setting.owner_eq, hstatus.symm,
    h.setting.market_eq⟩
  tokens := ⟨h.tokens.wellFormed, h.tokens.noAllowance⟩
  holdings_cover t := by
    have hheld : (w.holdings t : ℤ) + shift t ≤ w'.holdings t := h.holdings_ge t
    have hdeposits := h.deposits_eq t
    have := hentry t
    change w.holdings t + w'.deposits t ≤ w'.holdings t + w.deposits t
    omega
  supply_cover := h.supply_cover
  healthy := hhealthy

end Within

namespace Deployment

variable {d : Deployment} {msgSender : d.Account}

namespace Intact

/-! ## What goes through while the guard is closed -/

theorem inner_call (h : d.Intact w) {c : ERC20Call} {b : Bool} {k : ERC20}
    (hrun : c.run (ε := Revert) msgSender (w.token token) = .ok (b, k)) :
    Inner w (w.setToken token k) where
  setting := ⟨rfl, rfl, rfl, rfl, rfl⟩
  tokens := h.tokens.call (h.ne_this msgSender) hrun
  collateral_eq := rfl
  debt_le _ := le_rfl
  holdings_ge t := by
    have := holdings_call h.tokens (h.ne_this msgSender) hrun t
    omega
  supply_cover := Nat.add_le_add_right (supply_call hrun).le _

theorem inner_issueToken (h : d.Intact w) {t : d.Token} {account : Address} (hne : account ≠ 0)
    (hfits : (w.token t)._totalSupply.toNat + amount.toNat < 2 ^ 256) :
    Inner w (w.setToken t ((w.token t).issue account amount)) where
  setting := ⟨rfl, rfl, rfl, rfl, rfl⟩
  tokens := h.tokens.issueToken hne hfits
  collateral_eq := rfl
  debt_le _ := le_rfl
  holdings_ge t' := by
    have := holdings_issueToken h.tokens hfits account t'
    omega
  supply_cover := by
    have hsupply := supply_setToken_of_ne w ((w.token t).issue account amount) (h.ne_dsc t)
    exact Nat.add_le_add_right hsupply.le _

theorem inner_dsc (h : d.Intact w) {c : DecentralizedStableCoin.Call} {u : Unit}
    (hok : callDsc (c.run msgSender) w = .ok (u, w')) : Inner w w' := by
  obtain ⟨call, b, k, _, hrun, rfl⟩ | ⟨account, amount, _, hspend, hne, hcover, rfl⟩ :=
    callDsc_cases (h.ne_owner msgSender) hok
  · exact h.inner_call hrun
  · have hsupply := supply_burnFrom h.tokens msgSender hcover
    exact {
      setting := ⟨rfl, rfl, rfl, rfl, rfl⟩
      tokens := h.tokens.burnFrom hne hspend hcover
      collateral_eq := rfl
      debt_le := fun _ => le_rfl
      holdings_ge := fun t => by rw [holdings_burnFrom h.tokens hspend t, add_zero]
      supply_cover := Nat.add_le_add_right (Nat.le.intro hsupply) _ }

theorem inner_repaid (h : d.Intact w) {onBehalfOf : Address}
    (hrepay : CanRepay onBehalfOf msgSender amount w) :
    Inner w (repaid onBehalfOf msgSender amount w) where
  setting := ⟨rfl, rfl, rfl, rfl, rfl⟩
  tokens := h.tokens.repaid hrepay
  collateral_eq := rfl
  debt_le v := by
    by_cases hv : v = onBehalfOf
    · subst hv
      rw [debt_repaid_self hrepay.1]
      exact Nat.sub_le _ _
    · rw [debt_repaid_of_ne hv]
  holdings_ge t := by rw [holdings_repaid h.tokens hrepay (h.ne_this msgSender) t, add_zero]
  supply_cover := by
    have hsupply := supply_repaid h.tokens hrepay
    have hdebts := debts_repaid hrepay
    omega

theorem inner_engine (h : d.Intact w) (hstatus : w._status = _ENTERED)
    {c : DSCEngine.Call} {before after : World → World}
    (hok : CallTree.engineTx msgSender c before after w = .ok ((), w')) : Inner w w' := by
  cases c with
  | depositCollateral t a => exact absurd hstatus (depositCollateral_eq_ok.mp hok).2.2.1
  | redeemCollateral t a => exact absurd hstatus (redeemCollateral_eq_ok.mp hok).2.1
  | mintDsc x => exact absurd hstatus (mintDsc_eq_ok.mp hok).2.1
  | burnDsc x =>
      obtain ⟨_, hrepay, _, _, rfl⟩ := burnDsc_eq_ok.mp hok
      exact h.inner_repaid hrepay
  | liquidate t u x => exact absurd hstatus (liquidate_eq_ok.mp hok).2.1
  | depositCollateralAndMintDsc t a x =>
      obtain ⟨w₁, hdeposit, _⟩ := depositCollateralAndMintDsc_eq_ok.mp hok
      exact absurd hstatus (depositCollateral_eq_ok.mp hdeposit).2.2.1
  | redeemCollateralForDsc t a x =>
      obtain ⟨w₁, hburn, hredeem⟩ := redeemCollateralForDsc_eq_ok.mp hok
      obtain ⟨_, _, _, _, rfl⟩ := burnDsc_eq_ok.mp hburn
      exact absurd hstatus (redeemCollateral_eq_ok.mp hredeem).2.1

/-! ## The moves of collateral themselves -/

theorem entered (h : d.Intact w) :
    d.Intact ((w.setStatus _ENTERED).setCollateral user token amount) :=
  ⟨h.this_eq, h.dsc_eq, h.owner_eq, h.tokens.wellFormed, h.tokens.noAllowance⟩

theorem within_collect (h : d.Intact w) (hcollect : w.CanCollect token w.this msgSender amount) :
    Within (fun t => if t = token then amount.toNat else 0) w
      (w.collect token w.this msgSender amount) where
  setting := ⟨rfl, rfl, rfl, rfl, rfl⟩
  tokens := h.tokens.collect hcollect
  collateral_eq := rfl
  debt_le _ := le_rfl
  holdings_ge t := by
    have hheld := holdings_collect h.tokens hcollect (h.ne_this msgSender) t
    rw [hheld, Nat.cast_add]
    split <;> simp
  supply_cover := Nat.add_le_add_right supply_collect.le _

theorem within_pay (h : d.Intact w) (hpay : w.CanPay token w.this msgSender amount) :
    Within (fun t => -if t = token then (amount.toNat : ℤ) else 0) w
      (w.pay token w.this msgSender amount) where
  setting := ⟨rfl, rfl, rfl, rfl, rfl⟩
  tokens := h.tokens.pay hpay
  collateral_eq := rfl
  debt_le _ := le_rfl
  holdings_ge t := by
    have hheld := holdings_pay h.tokens hpay (h.ne_this msgSender) t
    rw [← hheld, Nat.cast_add]
    split <;> simp
  supply_cover := Nat.add_le_add_right supply_pay.le _

/-! ## Calls that move stablecoins only -/

/-- Moves of the engine on its own, with the health that they leave. -/
theorem safe_of_moves (h : d.Intact w) (hmoves : Moves msgSender w w')
    (hhealthy : ∀ v, w.Healthy v → w'.Healthy v) : Safe w w' := by
  have hdebts := hmoves.debts_balance h.tokens
  refine ⟨hmoves.sameSetting, hmoves.tokensSound h.tokens, fun t => ?_, by omega, hhealthy⟩
  exact (hmoves.holdings_balance h.tokens (h.ne_this msgSender) t).ge

theorem mintDsc_safe (h : d.Intact w) (hstatus : w._status = _NOT_ENTERED)
    (hok : mintDsc msgSender amount w = .ok ((), w')) : Safe w w' := by
  obtain ⟨hmarket, hstep⟩ := mintDsc_refines hok
  refine h.safe_of_moves (mintDsc_moves hstatus hok) fun v hv => ?_
  rw [healthy_of_market_eq hmarket]
  exact hstep.healthy hv

theorem burnDsc_safe (h : d.Intact w) (hok : burnDsc msgSender amount w = .ok ((), w')) :
    Safe w w' := by
  obtain ⟨_, hrepay, _, _, rfl⟩ := burnDsc_eq_ok.mp hok
  exact (h.inner_repaid hrepay).safe

end Intact

/-! ## Entries on the deposit ledger -/

/-- The entry of a deposit on the ledger, seen from the world before the guard closed. -/
theorem deposits_credit_entered
    (hfits : (w.s_collateralDeposited user token).toNat + amount.toNat < 2 ^ 256) (t : Address) :
    (((w.setStatus _ENTERED).credit user token amount).deposits t : ℤ) ≤
      w.deposits t + if t = token then (amount.toNat : ℤ) else 0 := by
  have hentry : _ = w.deposits t + _ := deposits_credit (w := w.setStatus _ENTERED) hfits t
  rw [hentry, Nat.cast_add]
  split <;> simp

theorem deposits_debit_entered
    (hcover : amount.toNat ≤ (w.s_collateralDeposited user token).toNat) (t : Address) :
    (((w.setStatus _ENTERED).debit user token amount).deposits t : ℤ) ≤
      w.deposits t + -if t = token then (amount.toNat : ℤ) else 0 := by
  have hentry : _ + _ = w.deposits t := deposits_debit (w := w.setStatus _ENTERED) hcover t
  rw [← hentry, Nat.cast_add]
  split <;> simp

/-- What a token runs around a move, as far as the engine can tell. -/
def Harmless (d : Deployment) (hook : World → World) : Prop :=
  ∀ w, d.Intact w → w._status = _ENTERED → Inner w (hook w)

section Outer

variable {before after : World → World} (hbefore : d.Harmless before) (hafter : d.Harmless after)
  (h : d.Intact w)

include hbefore hafter h

/-! ## Calls from outside -/

theorem within_around (hstatus : w._status = _ENTERED) {moved : World}
    (hmove : d.Intact (before w) → (before w).this = w.this → Within shift (before w) moved) :
    Within shift w (after moved) := by
  have hin := hbefore w h hstatus
  have h₁ := h.of_setting hin.setting hin.tokens
  have hmoved := hmove h₁ hin.setting.this_eq
  have h₂ := h₁.of_setting hmoved.setting hmoved.tokens
  have hstatus₂ := hmoved.setting.status_eq.trans (hin.setting.status_eq.trans hstatus)
  exact .around hin hmoved (hafter _ h₂ hstatus₂)

theorem within_collect_around (hstatus : w._status = _ENTERED) {this : Address}
    (hthis : w.this = this)
    (hcollect : (before w).CanCollect token this msgSender amount) :
    Within (fun t => if t = token then amount.toNat else 0) w
      (after ((before w).collect token this msgSender amount)) := by
  refine within_around hbefore hafter h hstatus fun h₁ hsame => ?_
  obtain rfl : (before w).this = this := hsame.trans hthis
  exact h₁.within_collect hcollect

theorem within_pay_around (hstatus : w._status = _ENTERED) {this : Address}
    (hthis : w.this = this) (hpay : (before w).CanPay token this msgSender amount) :
    Within (fun t => -if t = token then (amount.toNat : ℤ) else 0) w
      (after ((before w).pay token this msgSender amount)) := by
  refine within_around hbefore hafter h hstatus fun h₁ hsame => ?_
  obtain rfl : (before w).this = this := hsame.trans hthis
  exact h₁.within_pay hpay

theorem depositCollateral_safe (hstatus : w._status = _NOT_ENTERED)
    (hok : depositCollateral (IERC20.hooked before after) msgSender token amount w =
      .ok ((), w')) : Safe w w' := by
  obtain ⟨_, _, _, hfits, _, rfl, hcollect, rfl⟩ := depositCollateral_eq_ok.mp hok
  let w₀ := (w.setStatus _ENTERED).credit msgSender token amount
  have h₀ : d.Intact w₀ := h.entered
  have hwithin := within_collect_around hbefore hafter h₀ rfl rfl hcollect
  refine hwithin.safe_of_setCollateral hstatus (deposits_credit_entered hfits) fun v hv => ?_
  -- of every deposit, the caller's included, there is at least what there was
  refine healthy_of_le (w := w) hwithin.setting.market_eq (fun t => ?_) (hwithin.debt_le v) hv
  have hgrown : w.book.collateral v t ≤ w₀.book.collateral v t := by
    rw [book_credit (w := w.setStatus _ENTERED) hfits]
    exact w.book.le_deposit msgSender v token t amount.toNat
  have hkept := congrFun (congrFun hwithin.collateral_eq v) t
  exact hgrown.trans (congrArg BitVec.toNat hkept).ge

theorem redeemCollateral_safe (hstatus : w._status = _NOT_ENTERED)
    (hok : redeemCollateral (IERC20.hooked before after) msgSender token amount w =
      .ok ((), w')) : Safe w w' := by
  obtain ⟨_, _, hcover, _, _, rfl, hpay, rfl, _, hhealthy, rfl⟩ := redeemCollateral_eq_ok.mp hok
  let w₀ := (w.setStatus _ENTERED).debit msgSender token amount
  have h₀ : d.Intact w₀ := h.entered
  have hwithin := within_pay_around hbefore hafter h₀ rfl rfl hpay
  refine hwithin.safe_of_setCollateral hstatus (deposits_debit_entered hcover) fun v hv => ?_
  by_cases hsender : v = msgSender
  · rw [hsender]
    exact hhealthy
  · exact hwithin.healthy_of_ne hsender hv

theorem liquidate_safe (hstatus : w._status = _NOT_ENTERED) {debtToCover : UInt256}
    (hok : liquidate (IERC20.hooked before after) msgSender token user debtToCover w =
      .ok ((), w')) : Safe w w' := by
  obtain ⟨_, _, _, hunhealthy, _, seized, _, w₂, _, _, hcover, rfl, hpay, hw₂, hrepay, rfl, _, _,
    _, hcaller, rfl⟩ := liquidate_eq_ok.mp hok
  let w₀ := (w.setStatus _ENTERED).debit user token seized
  have h₀ : d.Intact w₀ := h.entered
  have hpaid := hw₂ ▸ within_pay_around hbefore hafter h₀ rfl rfl hpay
  have h₂ := h₀.of_setting hpaid.setting hpaid.tokens
  have hwithin := hpaid.trans (h₂.inner_repaid hrepay) fun t => (add_zero _).symm
  refine hwithin.safe_of_setCollateral hstatus (deposits_debit_entered hcover) fun v hv => ?_
  by_cases hsender : v = msgSender
  · rw [hsender]
    exact hcaller
  · -- the target was unhealthy, so it is not the account in question
    exact hwithin.healthy_of_ne (fun huser => hunhealthy (huser ▸ hv)) hv

/-- **Every call of the engine from outside is safe**, whatever the tokens run. -/
theorem engine_safe (hstatus : w._status = _NOT_ENTERED) {c : DSCEngine.Call}
    (hok : CallTree.engineTx msgSender c before after w = .ok ((), w')) : Safe w w' := by
  cases c with
  | depositCollateral t a => exact depositCollateral_safe hbefore hafter h hstatus hok
  | redeemCollateral t a => exact redeemCollateral_safe hbefore hafter h hstatus hok
  | mintDsc x => exact h.mintDsc_safe hstatus hok
  | burnDsc x => exact h.burnDsc_safe hok
  | liquidate t u x => exact liquidate_safe hbefore hafter h hstatus hok
  | depositCollateralAndMintDsc t a x =>
      obtain ⟨w₁, hdeposit, hmint⟩ := depositCollateralAndMintDsc_eq_ok.mp hok
      have hfirst := depositCollateral_safe hbefore hafter h hstatus hdeposit
      have h₁ := h.of_setting hfirst.setting hfirst.tokens
      exact hfirst.trans (h₁.mintDsc_safe (hfirst.setting.status_eq.trans hstatus) hmint)
  | redeemCollateralForDsc t a x =>
      obtain ⟨w₁, hburn, hredeem⟩ := redeemCollateralForDsc_eq_ok.mp hok
      have hfirst := h.burnDsc_safe hburn
      have h₁ := h.of_setting hfirst.setting hfirst.tokens
      exact hfirst.trans (redeemCollateral_safe hbefore hafter h₁
        (hfirst.setting.status_eq.trans hstatus) hredeem)

end Outer

/-! ## Trees of calls -/

def Contained (d : Deployment) (f : World → World) : Prop :=
  ∀ w, d.Intact w →
    (w._status = _ENTERED → Inner w (f w)) ∧ (w._status = _NOT_ENTERED → Safe w (f w))

namespace Contained

variable {f g : World → World}

theorem harmless (hf : d.Contained f) : d.Harmless f := fun w h => (hf w h).1

theorem id : d.Contained id := fun _ h => ⟨fun _ => .refl h.tokens, fun _ => .refl h.tokens⟩

theorem comp (hf : d.Contained f) (hg : d.Contained g) : d.Contained fun w => g (f w) := by
  refine fun w h => ⟨fun hstatus => ?_, fun hstatus => ?_⟩
  · have hfirst := (hf w h).1 hstatus
    have h₁ := h.of_setting hfirst.setting hfirst.tokens
    exact hfirst.trans ((hg _ h₁).1 (hfirst.setting.status_eq.trans hstatus)) fun _ => rfl
  · have hfirst := (hf w h).2 hstatus
    have h₁ := h.of_setting hfirst.setting hfirst.tokens
    exact hfirst.trans ((hg _ h₁).2 (hfirst.setting.status_eq.trans hstatus))

/-- A call that reverts changes nothing, so only one that returns has to be looked at. -/
theorem attempt {α : Type} {t : Tx World Revert α}
    (hinner : ∀ w a w', d.Intact w → w._status = _ENTERED → t w = .ok (a, w') → Inner w w')
    (hsafe : ∀ w a w', d.Intact w → w._status = _NOT_ENTERED → t w = .ok (a, w') → Safe w w') :
    d.Contained (Tx.attempt t) := by
  intro w h
  rcases Tx.attempt_cases t w with ⟨a, hok⟩ | ⟨_, hsame⟩
  · exact ⟨fun hstatus => hinner w a _ h hstatus hok, fun hstatus => hsafe w a _ h hstatus hok⟩
  · rw [hsame]
    exact id w h

theorem engineCall {before after : World → World} (hbefore : d.Contained before)
    (hafter : d.Contained after) (msgSender : d.Account) (c : DSCEngine.Call) :
    d.Contained (Tx.attempt (CallTree.engineTx msgSender c before after)) :=
  attempt (fun _ _ _ h hstatus hok => h.inner_engine hstatus hok)
    fun _ _ _ h hstatus hok => engine_safe hbefore.harmless hafter.harmless h hstatus hok

/-- A call that may run while the guard is closed may run while it is open. -/
theorem attempt_of_inner {α : Type} {t : Tx World Revert α}
    (hinner : ∀ w a w', d.Intact w → t w = .ok (a, w') → Inner w w') :
    d.Contained (Tx.attempt t) :=
  attempt (fun w a w' h _ hok => hinner w a w' h hok)
    fun w a w' h _ hok => (hinner w a w' h hok).safe

theorem dscCall (msgSender : d.Account) (c : DecentralizedStableCoin.Call) :
    d.Contained (Tx.attempt (callDsc (c.run msgSender))) :=
  attempt_of_inner fun _ _ _ h hok => h.inner_dsc hok

theorem tokenMove (t : d.Token) (msgSender : d.Account) (c : ERC20Call) :
    d.Contained (Tx.attempt (ε := Revert) (callToken t (c.run msgSender))) := by
  refine attempt_of_inner fun w b w' h hok => ?_
  obtain ⟨k, hrun, rfl⟩ := callToken_eq_ok.mp hok
  exact h.inner_call hrun

theorem issueCall (t : d.Token) (account : Address) (amount : UInt256) :
    d.Contained (Tx.attempt (issueToken t account amount)) := by
  refine attempt_of_inner fun w b w' h hok => ?_
  obtain ⟨hne, hfits, heq⟩ := issueToken_eq_ok.mp hok
  cases heq
  exact h.inner_issueToken hne hfits

theorem tokenCall {before after : World → World} (hbefore : d.Contained before)
    (hafter : d.Contained after) (t : d.Token) (msgSender : d.Account) (c : ERC20Call) :
    d.Contained (Tx.attempt (CallTree.tokenTx t msgSender c before after)) := by
  -- the three parts one after the other, when none of them reverts
  have hparts := (hbefore.comp (tokenMove t msgSender c)).comp hafter
  have hresult : ∀ {w u w'}, CallTree.tokenTx t msgSender c before after w = .ok (u, w') →
      w' = after (Tx.attempt (callToken t (c.run msgSender)) (before w)) := by
    intro w u w' hok
    simp only [CallTree.tokenTx, Tx.bind_eq_ok, Tx.store_eq_ok] at hok
    obtain ⟨_, _, rfl, b, _, hmove, rfl⟩ := hok
    rw [Tx.attempt_of_ok hmove]
  exact attempt (fun w _ _ h hstatus hok => hresult hok ▸ (hparts w h).1 hstatus)
    fun w _ _ h hstatus hok => hresult hok ▸ (hparts w h).2 hstatus

end Contained

mutual

theorem exec_contained : ∀ tree : CallTree d, d.Contained tree.exec
  | .engine msgSender c before after => by
      rw [CallTree.exec]
      exact .engineCall (execAll_contained before) (execAll_contained after) msgSender c
  | .dsc msgSender c => by
      rw [CallTree.exec]
      exact .dscCall msgSender c
  | .token t msgSender c before after => by
      rw [CallTree.exec]
      exact .tokenCall (execAll_contained before) (execAll_contained after) t msgSender c
  | .issueToken t account amount => by
      rw [CallTree.exec]
      exact .issueCall t account amount

theorem execAll_contained : ∀ calls : List (CallTree d), d.Contained (CallTree.execAll calls)
  | [] => by
      rw [CallTree.execAll]
      exact .id
  | call :: rest => by
      rw [CallTree.execAll]
      exact (exec_contained call).comp (execAll_contained rest)

end

/-! ## Runs of outermost calls -/

structure Settled (d : Deployment) (w : World) : Prop where
  intact : d.Intact w
  status_eq : w._status = _NOT_ENTERED
  deposits_le : ∀ t, w.deposits t ≤ w.holdings t
  supply_le : w.supply ≤ w.debts

namespace Settled

theorem genesis : d.Settled d.genesis where
  intact := sound_genesis.toIntact
  status_eq := sound_genesis.status_eq
  deposits_le t := (deposits_genesis t).trans_le (Nat.zero_le _)
  supply_le := supply_genesis.trans_le (Nat.zero_le _)

theorem safe (h : d.Settled w) (hsafe : Safe w w') : d.Settled w' where
  intact := h.intact.of_setting hsafe.setting hsafe.tokens
  status_eq := hsafe.setting.status_eq.trans h.status_eq
  deposits_le t := by
    have := h.deposits_le t
    have := hsafe.holdings_cover t
    omega
  supply_le := by
    have := h.supply_le
    have := hsafe.supply_cover
    omega

theorem outerStep (h : d.Settled w) (a : OuterAction d) : d.Settled (d.outerStep w a) := by
  cases a with
  | call tree => exact h.safe ((exec_contained tree w h.intact).2 h.status_eq)
  | oracle feed => exact ⟨⟨h.intact.this_eq, h.intact.dsc_eq, h.intact.owner_eq,
      h.intact.tokens.wellFormed, h.intact.tokens.noAllowance⟩, h.status_eq, h.deposits_le,
      h.supply_le⟩
  | warp timestamp => exact ⟨⟨h.intact.this_eq, h.intact.dsc_eq, h.intact.owner_eq,
      h.intact.tokens.wellFormed, h.intact.tokens.noAllowance⟩, h.status_eq, h.deposits_le,
      h.supply_le⟩

/-- **Every state between outermost calls is settled.** -/
theorem outerRun (d : Deployment) (actions : List (OuterAction d)) :
    d.Settled (d.outerRun actions) :=
  Machine.run_invariant (I := d.Settled) (fun _ a h => h.outerStep a) genesis actions

end Settled

/-- **Safety under re-entrant tokens.** Whatever the tokens run around their moves, an
outermost call that returns leaves the guard open, the deposits covered by the engine's
holdings and the supply by the debts, and every account healthy that was. -/
theorem reentrant_safe (d : Deployment) (actions : List (OuterAction d)) (msgSender : d.Account)
    (c : DSCEngine.Call) (before after : List (CallTree d))
    (hok : CallTree.engineTx msgSender c (CallTree.execAll before) (CallTree.execAll after)
      (d.outerRun actions) = .ok ((), w')) :
    w'._status = _NOT_ENTERED ∧ (∀ t, w'.deposits t ≤ w'.holdings t) ∧ w'.supply ≤ w'.debts ∧
      ∀ v, (d.outerRun actions).Healthy v → w'.Healthy v := by
  have hsettled := Settled.outerRun d actions
  have hsafe := engine_safe (execAll_contained before).harmless (execAll_contained after).harmless
    hsettled.intact hsettled.status_eq hok
  have hafter := hsettled.safe hsafe
  exact ⟨hafter.status_eq, hafter.deposits_le, hafter.supply_le, hsafe.healthy⟩

/-- `openPosition` over tokens that could call back, but do not. -/
def openPositionOuter (user : anvil.Account) (amountCollateral amountToMint : UInt256) :
    List (OuterAction anvil) :=
  [.call (.issueToken ⟨weth, weth_ne_dsc⟩ user amountCollateral),
    .call (.token ⟨weth, weth_ne_dsc⟩ user (.approve anvil.dscEngine amountCollateral) [] []),
    .call (.engine user (.depositCollateralAndMintDsc weth amountCollateral amountToMint) [] []),
    .call (.dsc user (.erc20 (.approve anvil.dscEngine amountToMint)))]

/-- The user redeems what it could not, had WETH not let it burn half of its debt
before moving; the deposit that WETH attempts on its behalf reverts. -/
theorem reentrant_safe_burn :
    let w := anvil.outerRun (openPositionOuter USER (10 * 10 ^ 18) (10000 * 10 ^ 18))
    let before : List (CallTree anvil) :=
      [.engine USER (.depositCollateral weth (5 * 10 ^ 18)) [] [],
        .engine USER (.burnDsc (5000 * 10 ^ 18)) [] []]
    let w' := Tx.attempt (CallTree.engineTx USER (.redeemCollateral weth (5 * 10 ^ 18))
      (CallTree.execAll before) id) w
    (∀ t, w'.deposits t ≤ w'.holdings t) ∧ w'.supply ≤ w'.debts ∧ w'.Healthy USER := by
  intro w before w'
  have hreturns : Tx.Returns (CallTree.engineTx USER (.redeemCollateral weth (5 * 10 ^ 18))
      (CallTree.execAll before) id) w := by decide +kernel
  have hhealthy : w.Healthy USER := by decide +kernel
  have hsafe := reentrant_safe anvil _ USER _ before [] hreturns.eq_ok
  exact ⟨hsafe.2.1, hsafe.2.2.1, hsafe.2.2.2 USER hhealthy⟩

end Deployment

end DefiStablecoin
