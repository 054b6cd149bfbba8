import DefiStablecoin.Proofs.Wallets
import DefiStablecoin.Solidity.Commutation

/-!
# Calls are local

Besides its setting a world is a table of words: the two ledgers and the storage of
the token contracts.  A call displaces some of these words, by amounts that depend
only on the ledgers of the accounts it is about and on the wallet of its caller.
-/

namespace DefiStablecoin.OpenZeppelin.ERC20

open Solidity

/-! ## The entries of a token -/

inductive Entry where
  | balance (holder : Address)
  | allowance (owner spender : Address)
  | supply
deriving DecidableEq

def entry (k : ERC20) : Entry → UInt256
  | .balance holder => k._balances holder
  | .allowance owner spender => k._allowances owner spender
  | .supply => k._totalSupply

variable {k l : ERC20} {src dst account owner spender : Address} {amount : UInt256}

theorem ext_entry (h : k.entry = l.entry) : k = l := by
  obtain ⟨balances, allowances, supply⟩ := k
  obtain ⟨balances', allowances', supply'⟩ := l
  obtain rfl : balances = balances' := funext fun holder => congrFun h (.balance holder)
  obtain rfl : allowances = allowances' :=
    funext fun owner => funext fun spender => congrFun h (.allowance owner spender)
  obtain rfl : supply = supply' := congrFun h .supply
  rfl

theorem shift_eq_add (f : Address → UInt256) (src dst : Address) (x : UInt256) :
    shift f src dst x = f + Pi.single src (-x) + Pi.single dst x := by
  unfold shift
  rw [sub_eq_add_neg, update_add_single, update_add_single]

theorem entry_move : (k.move src dst amount).entry =
    k.entry + (Pi.single (.balance src) (-amount) + Pi.single (.balance dst) amount) := by
  funext e
  cases e with
  | balance holder => simp [entry, move, shift_eq_add, Pi.single_apply, add_assoc]
  | allowance owner spender => simp [entry, move]
  | supply => simp [entry, move]

theorem entry_issue : (k.issue account amount).entry =
    k.entry + (Pi.single (.balance account) amount + Pi.single .supply amount) := by
  funext e
  cases e with
  | balance holder => simp [entry, issue, update_add_single, Pi.single_apply]
  | allowance owner spender => simp [entry, issue]
  | supply => simp [entry, issue]

theorem entry_destroy : (k.destroy account amount).entry =
    k.entry + (Pi.single (.balance account) (-amount) + Pi.single .supply (-amount)) := by
  funext e
  cases e with
  | balance holder =>
    simp [entry, destroy, sub_eq_add_neg, update_add_single, Pi.single_apply]
  | allowance owner spender => simp [entry, destroy]
  | supply => simp [entry, destroy, sub_eq_add_neg]

theorem entry_spend : (k.spend owner spender amount).entry =
    k.entry + Pi.single (.allowance owner spender)
      (if k._allowances owner spender = maxUInt256 then 0 else -amount) := by
  by_cases hmax : k._allowances owner spender = maxUInt256
  · simp [spend, hmax]
  · funext e
    cases e with
    | balance holder => simp [entry]
    | allowance o s =>
      simp [entry, spend, hmax, allow, sub_eq_add_neg, update_update_add, Pi.single_apply]
    | supply => simp [entry]

end DefiStablecoin.OpenZeppelin.ERC20

namespace DefiStablecoin.World

open Solidity OpenZeppelin DSCEngine

/-! ## The entries of a world -/

inductive Entry where
  | collateral (user token : Address)
  | debt (user : Address)
  | token (token : Address) (e : ERC20.Entry)
deriving DecidableEq

def entry (w : World) : Entry → UInt256
  | .collateral user token => w.s_collateralDeposited user token
  | .debt user => w.s_DSCMinted user
  | .token token e => (w.token token).entry e

variable {v v' w w' : World} {user token source recipient spender : Address} {amount : UInt256}

theorem eq_of_entry (hsetting : SameSetting w w') (hentry : w'.entry = w.entry) : w' = w := by
  obtain ⟨⟨feeds, collateral, minted, tokens, dsc, status⟩, this, token, owner, feed, timestamp⟩ :=
    w
  obtain ⟨⟨feeds', collateral', minted', tokens', dsc', status'⟩, this', token', owner', feed',
    timestamp'⟩ := w'
  obtain ⟨rfl, rfl, rfl, rfl, hmarket⟩ := hsetting
  obtain ⟨rfl, rfl, rfl, rfl⟩ := Market.mk.inj hmarket
  obtain rfl : collateral' = collateral :=
    funext fun user => funext fun token => congrFun hentry (.collateral user token)
  obtain rfl : minted' = minted := funext fun user => congrFun hentry (.debt user)
  obtain rfl : token' = token :=
    funext fun t => ERC20.ext_entry (funext fun e => congrFun hentry (.token t e))
  rfl

theorem entry_credit : (w.credit user token amount).entry =
    w.entry + Pi.single (.collateral user token) amount := by
  funext e
  cases e with
  | collateral u t => simp [entry, credit, setCollateral, update_update_add, Pi.single_apply]
  | debt u => simp [entry, credit]
  | token t e => simp [entry, credit]

theorem entry_debit : (w.debit user token amount).entry =
    w.entry + Pi.single (.collateral user token) (-amount) := by
  funext e
  cases e with
  | collateral u t =>
    simp [entry, debit, setCollateral, sub_eq_add_neg, update_update_add, Pi.single_apply]
  | debt u => simp [entry, debit]
  | token t e => simp [entry, debit]

theorem entry_lend : (w.lend user amount).entry = w.entry + Pi.single (.debt user) amount := by
  funext e
  cases e with
  | collateral u t => simp [entry, lend]
  | debt u => simp [entry, lend, setMinted, update_add_single, Pi.single_apply]
  | token t e => simp [entry, lend]

theorem entry_forgive :
    (w.forgive user amount).entry = w.entry + Pi.single (.debt user) (-amount) := by
  funext e
  cases e with
  | collateral u t => simp [entry, forgive]
  | debt u =>
    simp [entry, forgive, setMinted, sub_eq_add_neg, update_add_single, Pi.single_apply]
  | token t e => simp [entry, forgive]

/-- Steps of one token that are parallel are parallel as steps of the world. -/
theorem parallel_setToken {k l : ERC20}
    (h : Parallel ERC20.entry (v.token token) k (w.token token) l) :
    Parallel entry v (v.setToken token k) w (w.setToken token l) := by
  funext e
  cases e with
  | collateral u t => simp [entry]
  | debt u => simp [entry]
  | token t e =>
    by_cases ht : t = token
    · subst ht
      simpa [entry, setToken] using congrFun h e
    · simp [entry, setToken, ht]

/-! ## Parallel effects -/

theorem parallel_credit :
    Parallel entry v (v.credit user token amount) w (w.credit user token amount) :=
  .of_displacement entry_credit entry_credit

theorem parallel_debit :
    Parallel entry v (v.debit user token amount) w (w.debit user token amount) :=
  .of_displacement entry_debit entry_debit

theorem parallel_lend : Parallel entry v (v.lend user amount) w (w.lend user amount) :=
  .of_displacement entry_lend entry_lend

theorem parallel_forgive : Parallel entry v (v.forgive user amount) w (w.forgive user amount) :=
  .of_displacement entry_forgive entry_forgive

theorem parallel_pay : Parallel entry v (v.pay token source recipient amount)
    w (w.pay token source recipient amount) :=
  parallel_setToken (.of_displacement ERC20.entry_move ERC20.entry_move)

/-- How far an allowance goes down depends on whether it is infinite. -/
theorem parallel_collect (h : (w.token token)._allowances source spender =
      (v.token token)._allowances source spender) :
    Parallel entry v (v.collect token spender source amount)
      w (w.collect token spender source amount) := by
  have hspend : Parallel ERC20.entry (v.token token) ((v.token token).spend source spender amount)
      (w.token token) ((w.token token).spend source spender amount) :=
    .of_displacement ERC20.entry_spend (by rw [ERC20.entry_spend, h])
  exact parallel_setToken (hspend.trans (.of_displacement ERC20.entry_move ERC20.entry_move))

theorem parallel_issue (h : SameSetting v w) :
    Parallel entry v (v.issue user amount) w (w.issue user amount) := by
  unfold issue
  rw [h.dsc_eq]
  exact parallel_setToken (.of_displacement ERC20.entry_issue ERC20.entry_issue)

theorem parallel_destroy (h : SameSetting v w) :
    Parallel entry v (v.destroy amount) w (w.destroy amount) := by
  unfold World.destroy
  rw [h.dsc_eq, h.this_eq]
  exact parallel_setToken (.of_displacement ERC20.entry_destroy ERC20.entry_destroy)

/-! ## Worlds that agree on some accounts -/

/-- The worlds have the same setting, the same rows of the ledgers for some accounts, and
the same wallet of one. -/
structure Agrees (ledgers : List Address) (holder : Address) (v w : World) : Prop where
  setting : SameSetting v w
  collateral_eq : ∀ u ∈ ledgers, w.s_collateralDeposited u = v.s_collateralDeposited u
  debt_eq : ∀ u ∈ ledgers, w.s_DSCMinted u = v.s_DSCMinted u
  wallet : SameWallet holder v w

namespace Agrees

variable {ledgers : List Address} {holder : Address} (h : Agrees ledgers holder v w)

include h

theorem symm : Agrees ledgers holder w v where
  setting := h.setting.symm
  collateral_eq u hu := (h.collateral_eq u hu).symm
  debt_eq u hu := (h.debt_eq u hu).symm
  wallet := h.wallet.symm

theorem step (hv : SameSetting v v') (hw : SameSetting w w')
    (hparallel : Parallel entry v v' w w') : Agrees ledgers holder v' w' where
  setting := (hv.symm.trans h.setting).trans hw
  collateral_eq u hu := funext fun t =>
    hparallel.apply_eq (i := .collateral u t) (congrFun (h.collateral_eq u hu) t)
  debt_eq u hu := hparallel.apply_eq (i := .debt u) (h.debt_eq u hu)
  wallet := {
    balance_eq := fun t =>
      hparallel.apply_eq (i := .token t (.balance holder)) (h.wallet.balance_eq t)
    allowance_eq := fun t => funext fun s =>
      hparallel.apply_eq (i := .token t (.allowance holder s))
        (congrFun (h.wallet.allowance_eq t) s) }

theorem untouched (hu : user ∈ ledgers) : v.book.Untouched user w.book :=
  ⟨congrArg (fun row t => (row t).toNat) (h.collateral_eq user hu),
    congrArg BitVec.toNat (h.debt_eq user hu)⟩

theorem scorable (hu : user ∈ ledgers) (hscore : v.market.Scorable v.book user) :
    w.market.Scorable w.book user := by
  obtain ⟨hrow, hdebt⟩ := h.untouched hu
  rw [h.setting.market_eq]
  unfold Market.Scorable
  rw [hrow, hdebt]
  exact hscore

theorem healthy_iff (hu : user ∈ ledgers) : w.Healthy user ↔ v.Healthy user := by
  unfold World.Healthy
  rw [h.setting.market_eq]
  exact (h.untouched hu).healthy_iff

theorem healthFactorOf_eq (hu : user ∈ ledgers) :
    w.healthFactorOf user = v.healthFactorOf user := by
  unfold World.healthFactorOf
  rw [h.setting.market_eq]
  exact (h.untouched hu).scoreOf_eq

theorem canCollect (hcollect : v.CanCollect token v.this holder amount) :
    w.CanCollect token w.this holder amount := by
  unfold CanCollect ERC20.CanSpend ERC20.CanMove at *
  rw [h.setting.this_eq, h.wallet.balance_eq, h.wallet.allowance_eq]
  exact hcollect

theorem canRepay {onBehalfOf : Address} (hw : w.TokensSound) (hu : onBehalfOf ∈ ledgers)
    (hrepay : CanRepay onBehalfOf holder amount v) : CanRepay onBehalfOf holder amount w := by
  have hallowance := allowance_of_canRepay hrepay
  obtain ⟨howed, ⟨_, _, _, hbalance⟩, howner, hpos, hthis, _⟩ := hrepay
  apply hw.canRepay
  · exact (h.setting.owner_eq.trans howner).trans h.setting.this_eq.symm
  · exact h.setting.this_eq.symm ▸ hthis
  · exact hpos
  · rw [h.debt_eq onBehalfOf hu]
    exact howed
  · rw [h.setting.dsc_eq, h.wallet.balance_eq]
    exact hbalance
  · rw [h.setting.dsc_eq, h.wallet.allowance_eq, h.setting.this_eq]
    exact hallowance

end Agrees

/-! ## Worlds in order -/

/-- The guard is open, the engine owns the stablecoin, and it holds what is deposited. -/
structure Backed (w : World) : Prop where
  status_eq : w._status = _NOT_ENTERED
  owner_this : w.dscOwner = w.this
  this_ne_zero : w.this ≠ 0
  tokens : w.TokensSound
  deposits_le : ∀ t, w.deposits t ≤ w.holdings t

namespace Backed

variable {msgSender : Address}

theorem moves (h : Backed w) (hne : msgSender ≠ w.this) (hmoves : Moves msgSender w w') :
    Backed w' := by
  have hsetting := hmoves.sameSetting
  exact {
    status_eq := hsetting.status_eq.trans h.status_eq
    owner_this := by rw [hsetting.owner_eq, h.owner_this, hsetting.this_eq]
    this_ne_zero := by
      rw [hsetting.this_eq]
      exact h.this_ne_zero
    tokens := hmoves.tokensSound h.tokens
    deposits_le := fun t => by
      have hbalance := hmoves.holdings_balance h.tokens hne t
      have hle := h.deposits_le t
      omega }

theorem canPay (h : Backed w) (hne : recipient ≠ 0)
    (hcover : amount.toNat ≤ (w.s_collateralDeposited user token).toNat) :
    w.CanPay token w.this recipient amount := by
  have hdeposited := hcover.trans (w.collateral_le_deposits user token)
  exact ⟨h.this_ne_zero, hne, hdeposited.trans (h.deposits_le token)⟩

end Backed

end DefiStablecoin.World

namespace DefiStablecoin.DSCEngine

open Solidity OpenZeppelin World

variable {v v' w w' : World} {msgSender token user source recipient : Address}
  {amount : UInt256} {ledgers : List Address}

/-! ## Parallel transactions -/

theorem SameSetting.forgive : SameSetting w (w.forgive user amount) := ⟨rfl, rfl, rfl, rfl, rfl⟩

theorem SameSetting.minted : SameSetting w (minted user amount w) := ⟨rfl, rfl, rfl, rfl, rfl⟩

theorem SameSetting.redeemed : SameSetting w (redeemed source recipient token amount w) :=
  ⟨rfl, rfl, rfl, rfl, rfl⟩

theorem SameSetting.liquidated {seized : UInt256} :
    SameSetting w (liquidated user msgSender token seized amount w) :=
  ⟨rfl, rfl, rfl, rfl, rfl⟩

theorem parallel_deposited (h : Agrees ledgers user v w) :
    Parallel entry v (deposited user token amount v) w (deposited user token amount w) := by
  unfold deposited
  rw [h.setting.this_eq]
  exact parallel_credit.trans
    (parallel_collect (congrFun (h.wallet.allowance_eq token) v.this))

theorem parallel_redeemed (h : SameSetting v w) :
    Parallel entry v (redeemed source recipient token amount v)
      w (redeemed source recipient token amount w) := by
  unfold redeemed
  rw [h.this_eq]
  exact parallel_debit.trans parallel_pay

theorem parallel_minted (h : SameSetting v w) :
    Parallel entry v (minted user amount v) w (minted user amount w) :=
  parallel_lend.trans (parallel_issue ⟨h.this_eq, h.dsc_eq, h.owner_eq, h.status_eq, h.market_eq⟩)

theorem parallel_repaid (h : Agrees ledgers msgSender v w) :
    Parallel entry v (repaid user msgSender amount v) w (repaid user msgSender amount w) := by
  have hcollect : Parallel entry v
      ((v.forgive user amount).collect v.i_dsc v.this msgSender amount) w
      ((w.forgive user amount).collect w.i_dsc w.this msgSender amount) := by
    rw [h.setting.dsc_eq, h.setting.this_eq]
    exact parallel_forgive.trans
      (parallel_collect (congrFun (h.wallet.allowance_eq v.i_dsc) v.this))
  exact hcollect.trans (parallel_destroy ⟨h.setting.this_eq, h.setting.dsc_eq, h.setting.owner_eq,
    h.setting.status_eq, h.setting.market_eq⟩)

section Transactions

variable (h : Agrees ledgers msgSender v w) (hw : Backed w) (hmem : msgSender ∈ ledgers)

include h hw hmem

theorem depositCollateral_local
    (hok : depositCollateral IERC20.standard msgSender token amount v = .ok ((), v')) :
    ∃ w', depositCollateral IERC20.standard msgSender token amount w = .ok ((), w') ∧
      Parallel entry v v' w w' := by
  have hstatus : v._status = _NOT_ENTERED := h.setting.status_eq.symm.trans hw.status_eq
  obtain ⟨hpos, hallowed, hfits, hcollect, rfl⟩ :=
    (depositCollateral_standard_eq_ok hstatus).mp hok
  refine ⟨_, (depositCollateral_standard_eq_ok hw.status_eq).mpr
    ⟨hpos, ?_, ?_, h.canCollect hcollect, rfl⟩, parallel_deposited h⟩
  · rw [h.setting.priceFeeds_eq]
    exact hallowed
  · rw [h.collateral_eq msgSender hmem]
    exact hfits

theorem redeemCollateral_local
    (hok : redeemCollateral IERC20.standard msgSender token amount v = .ok ((), v')) :
    ∃ w', redeemCollateral IERC20.standard msgSender token amount w = .ok ((), w') ∧
      Parallel entry v v' w w' := by
  have hstatus : v._status = _NOT_ENTERED := h.setting.status_eq.symm.trans hw.status_eq
  obtain ⟨hpos, hcover, hpay, hscore, hhealthy, rfl⟩ :=
    (redeemCollateral_standard_eq_ok hstatus).mp hok
  rw [← h.collateral_eq msgSender hmem] at hcover
  have hend : Agrees ledgers msgSender (redeemed msgSender msgSender token amount v)
      (redeemed msgSender msgSender token amount w) :=
    h.step .redeemed .redeemed (parallel_redeemed h.setting)
  exact ⟨_, (redeemCollateral_standard_eq_ok hw.status_eq).mpr
    ⟨hpos, hcover, hw.canPay hpay.2.1 hcover, hend.scorable hmem hscore,
      (hend.healthy_iff hmem).mpr hhealthy, rfl⟩, parallel_redeemed h.setting⟩

theorem mintDsc_local (hfits : w.supply + amount.toNat < 2 ^ 256)
    (hok : mintDsc msgSender amount v = .ok ((), v')) :
    ∃ w', mintDsc msgSender amount w = .ok ((), w') ∧ Parallel entry v v' w w' := by
  have hstatus : v._status = _NOT_ENTERED := h.setting.status_eq.symm.trans hw.status_eq
  obtain ⟨hpos, hdebt, hscore, hhealthy, hissue, rfl⟩ := (mintDsc_open_eq_ok hstatus).mp hok
  rw [← h.debt_eq msgSender hmem] at hdebt
  have hend : Agrees ledgers msgSender (minted msgSender amount v) (minted msgSender amount w) :=
    h.step .minted .minted (parallel_minted h.setting)
  exact ⟨_, (mintDsc_open_eq_ok hw.status_eq).mpr
    ⟨hpos, hdebt, hend.scorable hmem hscore, (hend.healthy_iff hmem).mpr hhealthy,
      ⟨hw.owner_this, hissue.2.1, hpos, hfits⟩, rfl⟩, parallel_minted h.setting⟩

theorem burnDsc_local (hok : burnDsc msgSender amount v = .ok ((), v')) :
    ∃ w', burnDsc msgSender amount w = .ok ((), w') ∧ Parallel entry v v' w w' := by
  obtain ⟨hpos, hrepay, hscore, hhealthy, rfl⟩ := burnDsc_eq_ok.mp hok
  have hend : Agrees ledgers msgSender (v.forgive msgSender amount) (w.forgive msgSender amount) :=
    h.step .forgive .forgive parallel_forgive
  exact ⟨_, burnDsc_eq_ok.mpr ⟨hpos, h.canRepay hw.tokens hmem hrepay, hend.scorable hmem hscore,
    (hend.healthy_iff hmem).mpr hhealthy, rfl⟩, parallel_repaid h⟩

theorem liquidate_local (huser : user ∈ ledgers)
    (hok : liquidate IERC20.standard msgSender token user amount v = .ok ((), v')) :
    ∃ w', liquidate IERC20.standard msgSender token user amount w = .ok ((), w') ∧
      Parallel entry v v' w w' := by
  have hstatus : v._status = _NOT_ENTERED := h.setting.status_eq.symm.trans hw.status_eq
  obtain ⟨hpos, hscore, hunhealthy, hpayable, seized, hseized, hcover, hpay, hrepay, hscore',
    hrise, hscoreCaller, hcaller, rfl⟩ := (liquidate_standard_eq_ok hstatus).mp hok
  rw [← h.collateral_eq user huser] at hcover
  have hpay' := hw.canPay hpay.2.1 hcover
  -- after the payout the caller's wallet still agrees, so it can repay in both worlds
  have hpaid : Agrees ledgers msgSender (redeemed user msgSender token seized v)
      (redeemed user msgSender token seized w) :=
    h.step .redeemed .redeemed (parallel_redeemed h.setting)
  have hrepay' := hpaid.canRepay (hw.tokens.redeemed hpay') huser hrepay
  have hrepaid : Parallel entry (redeemed user msgSender token seized v)
      (liquidated user msgSender token seized amount v) (redeemed user msgSender token seized w)
      (liquidated user msgSender token seized amount w) := parallel_repaid hpaid
  have hparallel := (parallel_redeemed h.setting).trans hrepaid
  have hend : Agrees ledgers msgSender (liquidated user msgSender token seized amount v)
      (liquidated user msgSender token seized amount w) :=
    h.step .liquidated .liquidated hparallel
  refine ⟨_, (liquidate_standard_eq_ok hw.status_eq).mpr
    ⟨hpos, h.scorable huser hscore, (h.healthy_iff huser).not.mpr hunhealthy, ?_, seized, ?_,
      hcover, hpay', hrepay', hend.scorable huser hscore', ?_, hend.scorable hmem hscoreCaller,
      (hend.healthy_iff hmem).mpr hcaller, rfl⟩, hparallel⟩
  · rw [h.setting.market_eq]
    exact hpayable
  · rw [h.setting.market_eq]
    exact hseized
  · rw [h.healthFactorOf_eq huser, hend.healthFactorOf_eq huser]
    exact hrise

end Transactions

/-! ## Calls -/

def Call.accounts (msgSender : Address) : Call → List Address
  | .liquidate _ user _ => [msgSender, user]
  | _ => [msgSender]

def Call.minted : Call → ℕ
  | .mintDsc amount => amount.toNat
  | .depositCollateralAndMintDsc _ _ amountDscToMint => amountDscToMint.toNat
  | _ => 0

def Call.burned : Call → ℕ
  | .burnDsc amount => amount.toNat
  | .redeemCollateralForDsc _ _ amountDscToBurn => amountDscToBurn.toNat
  | .liquidate _ _ debtToCover => debtToCover.toNat
  | _ => 0

theorem Call.msgSender_mem (c : Call) (msgSender : Address) : msgSender ∈ c.accounts msgSender := by
  cases c <;> simp [Call.accounts]

section Supply

variable (hw : Backed w)

include hw

theorem supply_depositCollateral
    (hok : depositCollateral IERC20.standard msgSender token amount w = .ok ((), w')) :
    w'.supply = w.supply := by
  obtain ⟨_, _, _, _, rfl⟩ := (depositCollateral_standard_eq_ok hw.status_eq).mp hok
  exact supply_deposited

theorem supply_redeemCollateral
    (hok : redeemCollateral IERC20.standard msgSender token amount w = .ok ((), w')) :
    w'.supply = w.supply := by
  obtain ⟨_, _, _, _, _, rfl⟩ := (redeemCollateral_standard_eq_ok hw.status_eq).mp hok
  exact supply_redeemed

theorem supply_mintDsc (hok : mintDsc msgSender amount w = .ok ((), w')) :
    w'.supply = w.supply + amount.toNat := by
  obtain ⟨_, _, _, _, hissue, rfl⟩ := (mintDsc_open_eq_ok hw.status_eq).mp hok
  exact supply_minted msgSender hissue.2.2.2

theorem supply_burnDsc (hok : burnDsc msgSender amount w = .ok ((), w')) :
    w'.supply + amount.toNat = w.supply := by
  obtain ⟨_, hrepay, _, _, rfl⟩ := burnDsc_eq_ok.mp hok
  exact supply_repaid hw.tokens hrepay

theorem supply_liquidate
    (hok : liquidate IERC20.standard msgSender token user amount w = .ok ((), w')) :
    w'.supply + amount.toNat = w.supply := by
  obtain ⟨_, _, _, _, seized, _, _, hpay, hrepay, _, _, _, _, rfl⟩ :=
    (liquidate_standard_eq_ok hw.status_eq).mp hok
  exact (supply_repaid (hw.tokens.redeemed hpay) hrepay).trans supply_redeemed

/-- **What a call does to the supply.** -/
theorem run_supply {c : Call} (hne : msgSender ≠ w.this)
    (hok : c.run IERC20.standard msgSender w = .ok ((), w')) :
    w'.supply + c.burned = w.supply + c.minted := by
  cases c with
  | depositCollateral t a => exact supply_depositCollateral hw hok
  | redeemCollateral t a => exact supply_redeemCollateral hw hok
  | mintDsc x => exact supply_mintDsc hw hok
  | burnDsc x => exact supply_burnDsc hw hok
  | liquidate t v x => exact supply_liquidate hw hok
  | depositCollateralAndMintDsc t a x =>
      obtain ⟨w₁, hdeposit, hmint⟩ := depositCollateralAndMintDsc_eq_ok.mp hok
      have hw₁ := hw.moves hne (depositCollateral_moves hw.status_eq hdeposit)
      exact (supply_mintDsc hw₁ hmint).trans
        (congrArg (· + x.toNat) (supply_depositCollateral hw hdeposit))
  | redeemCollateralForDsc t a x =>
      obtain ⟨w₁, hburn, hredeem⟩ := redeemCollateralForDsc_eq_ok.mp hok
      have hw₁ := hw.moves hne (burnDsc_moves hburn)
      exact (congrArg (· + x.toNat) (supply_redeemCollateral hw₁ hredeem)).trans
        (supply_burnDsc hw hburn)

end Supply

/-- What a call from `v` needs of `w` to return from there as well. -/
structure Call.Repeatable (c : Call) (msgSender : Address) (v w : World) : Prop where
  agrees : Agrees (c.accounts msgSender) msgSender v w
  backed : Backed w
  ne_this : msgSender ≠ w.this
  supply_lt : w.supply + c.minted < 2 ^ 256

/-- **Every call is local.** -/
theorem run_local (c : Call) (msgSender : Address) :
    Local entry (c.Repeatable msgSender)
      fun w w' => c.run IERC20.standard msgSender w = .ok ((), w') := by
  rintro v v' w ⟨h, hw, hne, hsupply⟩ hok
  have hmem := c.msgSender_mem msgSender
  have hstatus : v._status = _NOT_ENTERED := h.setting.status_eq.symm.trans hw.status_eq
  cases c with
  | depositCollateral t a => exact depositCollateral_local h hw hmem hok
  | redeemCollateral t a => exact redeemCollateral_local h hw hmem hok
  | mintDsc x => exact mintDsc_local h hw hmem hsupply hok
  | burnDsc x => exact burnDsc_local h hw hmem hok
  | liquidate t u x =>
      have huser : u ∈ [msgSender, u] := List.mem_cons_of_mem _ (List.mem_singleton_self u)
      exact liquidate_local h hw hmem huser hok
  | depositCollateralAndMintDsc t a x =>
      obtain ⟨v₁, hdeposit, hmint⟩ := depositCollateralAndMintDsc_eq_ok.mp hok
      obtain ⟨w₁, hdeposit', hparallel⟩ := depositCollateral_local h hw hmem hdeposit
      have hmoves := depositCollateral_moves hstatus hdeposit
      have hmoves' := depositCollateral_moves hw.status_eq hdeposit'
      have hfits : w₁.supply + x.toNat < 2 ^ 256 := by
        rw [supply_depositCollateral hw hdeposit']
        exact hsupply
      obtain ⟨w', hmint', hparallel'⟩ := mintDsc_local
        (h.step hmoves.sameSetting hmoves'.sameSetting hparallel) (hw.moves hne hmoves') hmem
        hfits hmint
      exact ⟨w', depositCollateralAndMintDsc_eq_ok.mpr ⟨w₁, hdeposit', hmint'⟩,
        hparallel.trans hparallel'⟩
  | redeemCollateralForDsc t a x =>
      obtain ⟨v₁, hburn, hredeem⟩ := redeemCollateralForDsc_eq_ok.mp hok
      obtain ⟨w₁, hburn', hparallel⟩ := burnDsc_local h hw hmem hburn
      have hmoves := burnDsc_moves hburn
      have hmoves' := burnDsc_moves hburn'
      obtain ⟨w', hredeem', hparallel'⟩ := redeemCollateral_local
        (h.step hmoves.sameSetting hmoves'.sameSetting hparallel) (hw.moves hne hmoves') hmem
        hredeem
      exact ⟨w', redeemCollateralForDsc_eq_ok.mpr ⟨w₁, hburn', hredeem'⟩,
        hparallel.trans hparallel'⟩

end DefiStablecoin.DSCEngine
