import DefiStablecoin.Proofs.Calls
import DefiStablecoin.Proofs.Erasure

/-!
# Reading the engine's log

What a reader of the log has to get right about the writes of the engine, the code
of its collateral tokens and the stablecoin, to be in step with every call.
-/

namespace DefiStablecoin

open Solidity OpenZeppelin LogTx

/-! ## Calls of tokens -/

section Tokens

open World

variable {ρ : Type} {f : ρ → Log → ρ} {P Q : ρ → World → Prop}
  {token msgSender src dst account : Address} {amount : UInt256}

def ReadsApprovals (f : ρ → Log → ρ) (P : ρ → World → Prop) : Prop :=
  ∀ r w token owner spender amount, P r w →
    P (f r ⟨token, .erc20 (.Approval owner spender amount)⟩)
      (w.setToken token ((w.token token).allow owner spender amount))

/-- The transfer that a token logs takes the reader from `P` to `Q`. -/
def ReadsTransfer (f : ρ → Log → ρ) (P Q : ρ → World → Prop) (token src dst : Address)
    (amount : UInt256) : Prop :=
  ∀ r w, ERC20.CanMove src dst amount (w.token token) → P r w →
    Q (f r ⟨token, .erc20 (.Transfer src dst amount)⟩)
      (w.setToken token ((w.token token).move src dst amount))

theorem callTokenLogged_follows {t : LogTx ERC20Event ERC20 Revert Bool}
    (h : ∀ w : World, Follows (fun r e => f r ⟨token, .erc20 e⟩)
      (fun r k => P r (w.setToken token k))
      (fun r k => Q r (w.setToken token k)) t) : Follows f P Q (callTokenLogged token t) := by
  refine .zoom fun w => .mono (h w) (fun r k hr => ?_) fun _ _ hr => hr
  obtain ⟨rfl, hr⟩ := hr
  rwa [setToken_self]

/-- A rule about worlds, read off the storage of one token in them. -/
theorem ReadsApprovals.at_token (h : ReadsApprovals f P) (w : World) (r : ρ) (k : ERC20)
    (owner spender : Address) (amount : UInt256) (hr : P r (w.setToken token k)) :
    P (f r ⟨token, .erc20 (.Approval owner spender amount)⟩)
      (w.setToken token (k.allow owner spender amount)) := by
  have hnext := h r (w.setToken token k) token owner spender amount hr
  rwa [setToken_token_self, setToken_setToken] at hnext

theorem ReadsTransfer.at_token (h : ReadsTransfer f P Q token src dst amount) (w : World) (r : ρ)
    (k : ERC20) (hmove : ERC20.CanMove src dst amount k) (hr : P r (w.setToken token k)) :
    Q (f r ⟨token, .erc20 (.Transfer src dst amount)⟩)
      (w.setToken token (k.move src dst amount)) := by
  have hnext := h r (w.setToken token k) (by rwa [setToken_token_self]) hr
  rwa [setToken_token_self, setToken_setToken] at hnext

theorem transfer_follows (h : ReadsTransfer f P Q token msgSender dst amount) :
    Follows f P Q (callTokenLogged token (ERC20.Logged.transfer msgSender dst amount)) :=
  callTokenLogged_follows fun w =>
    .bind (ERC20.Logged._transfer_follows fun r k => h.at_token w r k) fun _ => .pure

theorem transferFrom_follows (happroval : ReadsApprovals f P)
    (h : ReadsTransfer f P Q token src dst amount) :
    Follows f P Q (callTokenLogged token (ERC20.Logged.transferFrom msgSender src dst amount)) :=
  callTokenLogged_follows fun w =>
    .bind (ERC20.Logged._spendAllowance_follows fun r k amount =>
        happroval.at_token w r k src msgSender amount) fun _ =>
      .bind (ERC20.Logged._transfer_follows fun r k => h.at_token w r k) fun _ => .pure

theorem run_token_follows (happroval : ReadsApprovals f P)
    (h : ∀ src dst amount, ReadsTransfer f P P token src dst amount) (c : ERC20Call) :
    Follows f P P (callTokenLogged token (ERC20.Logged.run msgSender c)) :=
  callTokenLogged_follows fun w => ERC20.Logged.run_follows (happroval.at_token w)
    (fun r k src dst amount => (h src dst amount).at_token w r k) c

theorem setDsc_dsc (w : World) : w.setDsc w.dsc = w := by
  unfold setDsc dsc
  rw [Function.update_eq_self]

theorem setDsc_setToken (d : DecentralizedStableCoin) (k : ERC20) (w : World) :
    (w.setDsc d).setToken w.i_dsc k = w.setDsc { d with toERC20 := k } := by
  simp [setDsc, setToken]

theorem callDscLogged_follows {α : Type} {t : LogTx Event DecentralizedStableCoin Revert α}
    (h : ∀ w : World, Follows (fun r e => f r ⟨w.i_dsc, e⟩) (fun r d => P r (w.setDsc d))
      (fun r d => Q r (w.setDsc d)) t) : Follows f P Q (callDscLogged t) := by
  refine .read_bind fun dsc => .zoom fun w => ?_
  by_cases hdsc : w.i_dsc = dsc
  · subst hdsc
    refine .mono (h w) (fun r d hr => ?_) fun _ _ hr => hr
    obtain ⟨rfl, _, hr⟩ := hr
    rwa [setDsc_dsc]
  · intro d log a d' log' hok
    obtain ⟨events, hlog, _⟩ := h w hok
    exact ⟨events, hlog, fun r hr => absurd hr.2.1 hdsc⟩

theorem asERC20_follows {α : Type} {t : LogTx ERC20Event ERC20 Revert α} {w : World}
    (h : ∀ d, Follows (fun r e => f r ⟨w.i_dsc, .erc20 e⟩)
      (fun r k => P r ((w.setDsc d).setToken w.i_dsc k))
      (fun r k => Q r ((w.setDsc d).setToken w.i_dsc k)) t) :
    Follows (fun r e => f r ⟨w.i_dsc, e⟩) (fun r d => P r (w.setDsc d))
      (fun r d => Q r (w.setDsc d)) (DecentralizedStableCoin.Logged.asERC20 t) := by
  refine .zoom fun d => .mono (h d) (fun r k hr => ?_) fun r k hr => ?_
  · obtain ⟨rfl, hr⟩ := hr
    rwa [setDsc_setToken]
  · rwa [setDsc_setToken] at hr

theorem mint_follows
    (h : ∀ r w, account ≠ 0 → P r w →
      Q (f r ⟨w.i_dsc, .erc20 (.Transfer 0 account amount)⟩)
        (w.setToken w.i_dsc ((w.token w.i_dsc).issue account amount))) :
    Follows f P Q
      (callDscLogged (DecentralizedStableCoin.Logged.mint msgSender account amount)) := by
  refine callDscLogged_follows fun w => .bind .view fun _ => .bind .view fun _ =>
    .bind .view fun _ => .bind (asERC20_follows fun d =>
      ERC20.Logged._mint_follows fun r k hne _ hr => ?_) fun _ => .pure
  have hnext := h r ((w.setDsc d).setToken w.i_dsc k) hne hr
  rwa [setToken_toDSCEngine, setDsc_toDSCEngine, setToken_token_self, setToken_setToken] at hnext

theorem destroy_follows (account : Address)
    (h : ∀ r w, account ≠ 0 → P r w →
      Q (f r ⟨w.i_dsc, .erc20 (.Transfer account 0 amount)⟩)
        (w.setToken w.i_dsc ((w.token w.i_dsc).destroy account amount))) (w : World)
    (d : DecentralizedStableCoin) :
    Follows (fun r e => f r ⟨w.i_dsc, .erc20 e⟩)
      (fun r k => P r ((w.setDsc d).setToken w.i_dsc k))
      (fun r k => Q r ((w.setDsc d).setToken w.i_dsc k))
      (ERC20.Logged._burn (ε := Revert) account amount) := by
  refine ERC20.Logged._burn_follows fun r k hne _ hr => ?_
  have hnext := h r ((w.setDsc d).setToken w.i_dsc k) hne hr
  rwa [setToken_toDSCEngine, setDsc_toDSCEngine, setToken_token_self, setToken_setToken] at hnext

theorem burn_follows
    (h : ∀ r w, msgSender ≠ 0 → P r w →
      Q (f r ⟨w.i_dsc, .erc20 (.Transfer msgSender 0 amount)⟩)
        (w.setToken w.i_dsc ((w.token w.i_dsc).destroy msgSender amount))) :
    Follows f P Q (callDscLogged (DecentralizedStableCoin.Logged.burn msgSender amount)) :=
  callDscLogged_follows fun w => .bind .view fun _ => .bind .read fun _ =>
    .bind .view fun _ => .bind .view fun _ => asERC20_follows fun d => destroy_follows _ h w d

theorem dsc_erc20_follows (happroval : ReadsApprovals f P)
    (h : ∀ src dst amount, ∀ w : World, ReadsTransfer f P P w.i_dsc src dst amount)
    (c : ERC20Call) :
    Follows f P P (callDscLogged (DecentralizedStableCoin.Logged.run msgSender (.erc20 c))) :=
  callDscLogged_follows fun w => .bind (asERC20_follows fun d =>
    ERC20.Logged.run_follows (happroval.at_token (w.setDsc d))
      (fun r k src dst amount => (h src dst amount w).at_token (w.setDsc d) r k) c) fun _ => .pure

theorem dsc_burnFrom_follows (happroval : ReadsApprovals f P)
    (h : ∀ r w, account ≠ 0 → P r w →
      P (f r ⟨w.i_dsc, .erc20 (.Transfer account 0 amount)⟩)
        (w.setToken w.i_dsc ((w.token w.i_dsc).destroy account amount))) :
    Follows f P P (callDscLogged
      (DecentralizedStableCoin.Logged.run msgSender (.burnFrom account amount))) :=
  callDscLogged_follows fun w => asERC20_follows fun d =>
    .bind (ERC20.Logged._spendAllowance_follows fun r k amount =>
      happroval.at_token (w.setDsc d) r k account msgSender amount) fun _ =>
        destroy_follows _ h w d

theorem issueToken_follows
    (h : ∀ r w, account ≠ 0 → P r w →
      P (f r ⟨token, .erc20 (.Transfer 0 account amount)⟩)
        (w.setToken token ((w.token token).issue account amount))) :
    Follows f P P (callTokenLogged token (do
      ERC20.Logged._mint account amount
      return true)) := by
  refine callTokenLogged_follows fun w =>
    .bind (ERC20.Logged._mint_follows fun r k hne _ hr => ?_) fun _ => .pure
  have hnext := h r (w.setToken token k) hne hr
  rwa [setToken_token_self, setToken_setToken] at hnext

end Tokens

/-- The reader with the rule `f` is in step with the engine over the given tokens:
in the sense of `P` between its calls, and in that of `Q user liquidator` when
collateral of `user` has gone to `liquidator` and the debt is not burned yet. -/
structure Indexes {ρ : Type} (f : ρ → Log → ρ) (P : ρ → World → Prop)
    (Q : Address → Address → ρ → World → Prop) (ierc20 : LoggedIERC20) : Prop where
  setStatus : ∀ r w status, P r w → P r (w.setStatus status)
  setCollateral_deposited : ∀ r w user token amount,
    (w.s_collateralDeposited user token).toNat + amount.toNat < 2 ^ 256 → P r w →
      P (f r ⟨w.this, .CollateralDeposited user token amount⟩)
        (w.setCollateral user token (w.s_collateralDeposited user token + amount))
  setCollateral_redeemed : ∀ r w source recipient token amount,
    amount.toNat ≤ (w.s_collateralDeposited source token).toNat → P r w →
      Q source recipient (f r ⟨w.this, .CollateralRedeemed source recipient token amount⟩)
        (w.setCollateral source token (w.s_collateralDeposited source token - amount))
  transfer : ∀ source recipient token msgSender dst amount,
    Follows f (Q source recipient) (Q source recipient)
      (ierc20.transfer token msgSender dst amount)
  transferFrom : ∀ token msgSender src dst amount,
    Follows f P P (ierc20.transferFrom token msgSender src dst amount)
  mintDsc : ∀ msgSender amount, Follows f P P (DSCEngine.Logged.mintDsc msgSender amount)
  _burnDsc : ∀ amount onBehalfOf dscFrom,
    Follows f (Q onBehalfOf dscFrom) P (DSCEngine.Logged._burnDsc amount onBehalfOf dscFrom)
  self : ∀ user r w, Q user user r w ↔ P r w

namespace DSCEngine.Logged

open World

variable {ρ : Type} {f : ρ → Log → ρ} {P P' : ρ → World → Prop}
  {Q : Address → Address → ρ → World → Prop} {ierc20 : LoggedIERC20}

theorem moreThanZero_follows (amount : UInt256) : Follows f P P (quiet (moreThanZero amount)) :=
  .revertIf

theorem isAllowedToken_follows (token : Address) : Follows f P P (quiet (isAllowedToken token)) :=
  .unchanged fun _ _ _ h => (isAllowedToken_eq_ok.mp h).2

theorem nonReentrant_follows (hstatus : ∀ r w status, P r w → P r (w.setStatus status))
    {body : LogTx Log World Revert Unit} (hbody : Follows f P P body) :
    Follows f P P (nonReentrant body) := by
  refine .bind (Q := P) (.quiet fun w u w' h r hr => ?_) fun _ => .bind hbody fun _ =>
    .quiet fun w u w' h r hr => ?_
  · simp only [_nonReentrantBefore, Tx.bind_eq_ok, Tx.read_eq_ok, Tx.revertIf_eq_ok,
      Tx.store_eq_ok, Prod.mk.injEq] at h
    obtain ⟨_, _, ⟨_, rfl⟩, _, _, ⟨_, rfl⟩, rfl⟩ := h
    exact hstatus r _ _ hr
  · have hw := Tx.store_eq_ok.mp h
    dsimp only at hw
    rw [hw]
    exact hstatus r w _ hr

/-- Minting, when the reader is one event behind, as `M`, until the stablecoin emits. -/
theorem mintDsc_follows {M : ρ → World → Prop} {msgSender : Address} {amount : UInt256}
    (hstatus : ∀ r w status, P r w → P r (w.setStatus status))
    (hminted : ∀ r w, (w.s_DSCMinted msgSender).toNat + amount.toNat < 2 ^ 256 → P r w →
      M r (w.setMinted msgSender (w.s_DSCMinted msgSender + amount)))
    (hissue : ∀ r w, msgSender ≠ 0 → M r w →
      P (f r ⟨w.i_dsc, .erc20 (.Transfer 0 msgSender amount)⟩)
        (w.setToken w.i_dsc ((w.token w.i_dsc).issue msgSender amount))) :
    Follows f P P (mintDsc msgSender amount) := by
  refine .bind (moreThanZero_follows amount) fun _ => nonReentrant_follows hstatus <|
    .bind (Q := M) (.quiet fun w u w' hok r hr => ?_) fun _ => .bind .view fun _ =>
      .bind .read fun this => .bind (mint_follows hissue) fun _ => .revertIf
  simp only [Tx.update_eq_ok, except_bind_eq_ok, checkedAdd_eq_ok, except_pure_eq_ok] at hok
  obtain ⟨_, ⟨hfits, rfl⟩, rfl⟩ := hok
  exact hminted r w hfits hr

/-- Burning: `M` while the debt is written off and the tokens are not collected yet,
`N` while they are collected and not destroyed. -/
theorem _burnDsc_follows {M N : ρ → World → Prop} {amount : UInt256} {onBehalfOf dscFrom : Address}
    (hminted : ∀ r w, amount.toNat ≤ (w.s_DSCMinted onBehalfOf).toNat → P r w →
      M r (w.setMinted onBehalfOf (w.s_DSCMinted onBehalfOf - amount)))
    (happroval : ReadsApprovals f M)
    (htransfer : ∀ r w, ERC20.CanMove dscFrom w.this amount (w.token w.i_dsc) → M r w →
      N (f r ⟨w.i_dsc, .erc20 (.Transfer dscFrom w.this amount)⟩)
        (w.setToken w.i_dsc ((w.token w.i_dsc).move dscFrom w.this amount)))
    (hdestroy : ∀ r w, w.this ≠ 0 → N r w →
      P' (f r ⟨w.i_dsc, .erc20 (.Transfer w.this 0 amount)⟩)
        (w.setToken w.i_dsc ((w.token w.i_dsc).destroy w.this amount))) :
    Follows f P P' (_burnDsc amount onBehalfOf dscFrom) := by
  refine .bind (Q := M) (.quiet fun w u w' hok r hr => ?_) fun _ => .read_bind fun this =>
    .read_bind fun dsc => .bind (Q := fun r w => w.i_dsc = dsc ∧ w.this = this ∧ N r w)
      (transferFrom_follows ?_ ?_) fun _ => .bind .revertIf fun _ => burn_follows ?_
  · simp only [Tx.update_eq_ok, except_bind_eq_ok, checkedSub_eq_ok, except_pure_eq_ok] at hok
    obtain ⟨_, ⟨hcover, rfl⟩, rfl⟩ := hok
    exact hminted r w hcover hr
  · intro r w token owner spender value hr
    exact ⟨hr.1, hr.2.1, happroval r w token owner spender value hr.2.2⟩
  · intro r w hmove hr
    obtain ⟨rfl, rfl, hr⟩ := hr
    exact ⟨rfl, rfl, htransfer r w hmove hr⟩
  · intro r w hne hr
    obtain ⟨rfl, rfl, hr⟩ := hr
    exact hdestroy r w hne hr

variable (h : Indexes f P Q ierc20)

include h

theorem _redeemCollateral_follows (token source recipient : Address) (amount : UInt256) :
    Follows f P (Q source recipient)
      (_redeemCollateral ierc20 token amount source recipient) := by
  -- between the write and its event the reader is one event behind
  refine .bind (Q := fun r w =>
      Q source recipient (f r ⟨w.this, .CollateralRedeemed source recipient token amount⟩) w)
    (.quiet fun w u w' hok r hr => ?_) fun _ => ?_
  · simp only [Tx.update_eq_ok, except_bind_eq_ok, checkedSub_eq_ok, except_pure_eq_ok] at hok
    obtain ⟨_, ⟨hcover, rfl⟩, rfl⟩ := hok
    exact h.setCollateral_redeemed r w _ _ _ _ hcover hr
  · refine .read_bind fun this => .bind (.emit fun w r hr => ?_) fun _ =>
      .bind (h.transfer source recipient _ _ _ _) fun _ => .revertIf
    rw [← hr.1]
    exact hr.2

theorem depositCollateral_follows (msgSender token : Address) (amount : UInt256) :
    Follows f P P (depositCollateral ierc20 msgSender token amount) := by
  refine .bind (moreThanZero_follows amount) fun _ => .bind (isAllowedToken_follows token) fun _ =>
    nonReentrant_follows h.setStatus <| .bind (Q := fun r w =>
      P (f r ⟨w.this, .CollateralDeposited msgSender token amount⟩) w)
    (.quiet fun w u w' hok r hr => ?_) fun _ => ?_
  · simp only [Tx.update_eq_ok, except_bind_eq_ok, checkedAdd_eq_ok, except_pure_eq_ok] at hok
    obtain ⟨_, ⟨hfits, rfl⟩, rfl⟩ := hok
    exact h.setCollateral_deposited r w _ _ _ hfits hr
  · refine .read_bind fun this => .bind (.emit fun w r hr => ?_) fun _ =>
      .bind (h.transferFrom _ _ _ _ _) fun _ => .revertIf
    rw [← hr.1]
    exact hr.2

theorem redeemCollateral_follows (msgSender token : Address) (amount : UInt256) :
    Follows f P P (redeemCollateral ierc20 msgSender token amount) := by
  refine .bind (moreThanZero_follows amount) fun _ => nonReentrant_follows h.setStatus <|
    .bind (.mono (_redeemCollateral_follows h token msgSender msgSender amount)
      (fun _ _ hr => hr) fun r w => (h.self msgSender r w).mp) fun _ => .view

theorem burnDsc_follows (msgSender : Address) (amount : UInt256) :
    Follows f P P (burnDsc msgSender amount) :=
  .bind (moreThanZero_follows amount) fun _ =>
    .bind (.mono (h._burnDsc amount msgSender msgSender)
      (fun r w => (h.self msgSender r w).mpr) fun _ _ hr => hr) fun _ => .view

/-- Between the seizure and the burning the reader knows whose debt is burned. -/
theorem liquidate_follows (msgSender token user : Address) (debtToCover : UInt256) :
    Follows f P P (liquidate ierc20 msgSender token user debtToCover) :=
  .bind (moreThanZero_follows debtToCover) fun _ => nonReentrant_follows h.setStatus <|
    .bind .view fun _ => .bind .revertIf fun _ => .bind .view fun _ => .bind .view fun _ =>
      .bind .view fun _ => .bind .view fun _ =>
      .bind (_redeemCollateral_follows h token user msgSender _) fun _ =>
      .bind (h._burnDsc debtToCover user msgSender) fun _ =>
      .bind .view fun _ => .bind .revertIf fun _ => .view

/-- **A reader who is in step with the writes is in step with every call.** -/
theorem run_follows (msgSender : Address) (c : Call) : Follows f P P (run ierc20 msgSender c) := by
  cases c with
  | depositCollateral t a => exact depositCollateral_follows h msgSender t a
  | redeemCollateral t a => exact redeemCollateral_follows h msgSender t a
  | mintDsc x => exact h.mintDsc msgSender x
  | burnDsc x => exact burnDsc_follows h msgSender x
  | liquidate t u x => exact liquidate_follows h msgSender t u x
  | depositCollateralAndMintDsc t a x =>
      exact .bind (depositCollateral_follows h msgSender t a) fun _ => h.mintDsc msgSender x
  | redeemCollateralForDsc t a x =>
      exact .bind (burnDsc_follows h msgSender x) fun _ => redeemCollateral_follows h msgSender t a

end DSCEngine.Logged

end DefiStablecoin
