import DefiStablecoin.Proofs.Wallets
import DefiStablecoin.Properties.Closing
import DefiStablecoin.Properties.Health
import DefiStablecoin.Properties.Solvency

/-!
# Round trips

Taking a deposit back right away runs checks that the deposit did not run: it
needs every feed and the value of everything that is deposited.  A position that
is opened with both of its sides, by contrast, can be closed again whatever others
have done in the meantime.
-/

namespace DefiStablecoin.Deployment

open Solidity OpenZeppelin DSCEngine World

variable {d : Deployment} {w w' : World} {user token : Address} {amount : UInt256}

/-! ## A deposit and its redemption -/

/-- The deposit taken back: all that is left of it is the allowance that it used. -/
def restored (user token : Address) (amount : UInt256) (w : World) : World :=
  w.setToken token ((w.token token).spend user w.this amount)

theorem redeemed_deposited (user token : Address) (amount : UInt256) (w : World) :
    redeemed user user token amount (deposited user token amount w) =
      restored user token amount w := by
  have hledger : Function.update w.s_collateralDeposited user
      (Function.update (w.s_collateralDeposited user) token
        (w.s_collateralDeposited user token + amount - amount)) = w.s_collateralDeposited := by
    rw [BitVec.add_sub_cancel, Function.update_eq_self, Function.update_eq_self]
  simp only [redeemed, deposited, restored, debit, credit, collect, pay, setCollateral, setToken,
    ERC20.move, Function.update_self, Function.update_idem, hledger, shift_shift]

theorem collateral_deposited
    (hfits : (w.s_collateralDeposited user token).toNat + amount.toNat < 2 ^ 256) :
    ((deposited user token amount w).s_collateralDeposited user token).toNat =
      (w.s_collateralDeposited user token).toNat + amount.toNat := by
  simp [deposited, credit, collect, BitVec.toNat_add_of_lt hfits]

/-- After a deposit without debt the redemption returns exactly when what was deposited
before can be valued. -/
theorem redeemCollateral_deposited_iff (h : d.Sound w) (user : d.Account)
    (hdebt : w.s_DSCMinted user = 0)
    (hok : depositCollateral IERC20.standard user token amount w =
      .ok ((), deposited user token amount w)) :
    redeemCollateral IERC20.standard user token amount (deposited user token amount w) =
        .ok ((), w') ↔
      w.market.Valued (w.book.collateral user) ∧ w' = restored user token amount w := by
  obtain ⟨hpos, _, hfits, hcollect, _⟩ := (depositCollateral_standard_eq_ok h.status_eq).mp hok
  have hstatus : (deposited user token amount w)._status = _NOT_ENTERED := h.status_eq
  have hcover := (Nat.le_add_left _ _).trans (collateral_deposited hfits).ge
  have hheld : amount.toNat ≤ (deposited user token amount w).holdings token := by
    have hcollected := holdings_deposited h.tokens hcollect (h.ne_this user) token
    rw [if_pos rfl] at hcollected
    exact (Nat.le_add_left _ _).trans hcollected.ge
  have hzero : w.book.debt user = 0 := congrArg BitVec.toNat hdebt
  rw [redeemCollateral_standard_eq_ok hstatus, redeemed_deposited]
  constructor
  · rintro ⟨_, _, _, hscore, _, rfl⟩
    exact ⟨hscore.1, rfl⟩
  · rintro ⟨hvalued, rfl⟩
    have hhealthy : (restored user token amount w).Healthy user := by
      have hnothing : 2 * w.book.debt user ≤ w.collateralValue user := by
        rw [hzero]
        exact Nat.zero_le _
      exact hnothing
    exact ⟨hpos, hcover, ⟨h.this_ne_zero, hcollect.2.1, hheld⟩,
      ⟨hvalued, fun hne => absurd hzero hne⟩, hhealthy, rfl⟩

/-- **What is deposited without debt can be taken back right away exactly when what was
deposited before can be valued**: every registered feed answers, with a fresh answer that is
not too large to be scaled, and no product and no sum in the valuation overflows. -/
theorem deposit_redeemable_iff (d : Deployment) (actions : List (Action d)) (user : d.Account)
    (token : Address) (amount : UInt256) (w₁ : World)
    (hdebt : (d.run actions).s_DSCMinted user = 0)
    (hok : depositCollateral IERC20.standard user token amount (d.run actions) = .ok ((), w₁)) :
    (∃ w₂, redeemCollateral IERC20.standard user token amount w₁ = .ok ((), w₂) ∧
      w₂.s_collateralDeposited user token = (d.run actions).s_collateralDeposited user token ∧
      (w₂.token token)._balances user = ((d.run actions).token token)._balances user ∧
      (w₂.token token)._balances d.dscEngine =
        ((d.run actions).token token)._balances d.dscEngine) ↔
      (d.run actions).market.Valued ((d.run actions).book.collateral user) := by
  have hsound := d.sound_run actions
  obtain ⟨_, _, _, _, rfl⟩ := (depositCollateral_standard_eq_ok hsound.status_eq).mp hok
  constructor
  · rintro ⟨w₂, hredeem, _⟩
    exact ((redeemCollateral_deposited_iff hsound user hdebt hok).mp hredeem).1
  · intro hvalued
    have hbalances : ((restored user token amount (d.run actions)).token token)._balances =
        ((d.run actions).token token)._balances := by simp [restored, setToken]
    exact ⟨_, (redeemCollateral_deposited_iff hsound user hdebt hok).mpr ⟨hvalued, rfl⟩, rfl,
      congrFun hbalances _, congrFun hbalances _⟩

def approveDeposit : List (Action anvil) :=
  [.issueToken ⟨weth, weth_ne_dsc⟩ USER (10 * 10 ^ 18),
    .token ⟨weth, weth_ne_dsc⟩ USER (.approve anvil.dscEngine (10 * 10 ^ 18))]

/-- With fresh feeds a deposit can be taken back. -/
theorem deposit_redeemable_fresh :
    let w := anvil.run approveDeposit
    ∃ w₂, redeemCollateral IERC20.standard USER weth (10 * 10 ^ 18)
        (Tx.attempt (depositCollateral IERC20.standard USER weth (10 * 10 ^ 18)) w) =
          .ok ((), w₂) ∧
      w₂.s_collateralDeposited USER weth = 0 := by
  intro w
  have hreturns : Tx.Returns (depositCollateral IERC20.standard USER weth (10 * 10 ^ 18)) w := by
    decide +kernel
  have hvalue : getAccountCollateralValue USER w = .ok 0 := by decide +kernel
  obtain ⟨w₂, hredeem, hledger, _⟩ := (deposit_redeemable_iff anvil approveDeposit USER weth
    (10 * 10 ^ 18) _ (by decide +kernel) hreturns.eq_ok).mpr
      (getAccountCollateralValue_eq_ok.mp hvalue).1
  exact ⟨w₂, hredeem, hledger.trans (by decide +kernel)⟩

/-- Three hours later the prices are stale: a deposit still returns, but the user cannot
take it back. -/
theorem deposit_stranded_stale :
    let w := anvil.run (approveDeposit ++ [.warp 10802])
    w.s_DSCMinted USER = 0 ∧
      Tx.Returns (depositCollateral IERC20.standard USER weth (10 * 10 ^ 18)) w ∧
      ¬Tx.Returns (redeemCollateral IERC20.standard USER weth (10 * 10 ^ 18))
        (Tx.attempt (depositCollateral IERC20.standard USER weth (10 * 10 ^ 18)) w) := by
  decide +kernel

/-! ## What others can do to an open position -/

/-- What may happen while a user leaves its position alone: others call the engine, no
stablecoins leave the user's wallet, and the feeds keep their answers. -/
def Aside (user : d.Account) (w : World) : Action d → Prop
  | .engine msgSender _ => msgSender ≠ user
  | .dsc msgSender c => ((w.token d.dsc)._balances user).toNat ≤
      (((d.step w (.dsc msgSender c)).token d.dsc)._balances user).toNat
  | .oracle feed => ∀ f, (feed f).map RoundData.answer = (w.feed f).map RoundData.answer
  | _ => True

/-- The user's position is as it was, with the same answers to value it, and no
stablecoins have left the user's wallet. -/
structure Undisturbed (user : d.Account) (w w' : World) : Prop where
  sound : d.Sound w'
  answers : ∀ f, (w'.feed f).map RoundData.answer = (w.feed f).map RoundData.answer
  collateral_eq : w'.s_collateralDeposited user = w.s_collateralDeposited user
  debt_eq : w'.s_DSCMinted user = w.s_DSCMinted user
  balance_le : ((w.token d.dsc)._balances user).toNat ≤
    ((w'.token d.dsc)._balances user).toNat

namespace Undisturbed

variable {user : d.Account} {a : Action d} {u : Unit} {w'' : World}

theorem book_untouched (h : Undisturbed user w w') : w.book.Untouched user.val w'.book :=
  ⟨congrArg (fun row t => (row t).toNat) h.collateral_eq, congrArg BitVec.toNat h.debt_eq⟩

theorem healthy (h : Undisturbed user w w') (hw : d.Sound w) (hhealthy : w.Healthy user) :
    w'.Healthy user := by
  unfold World.Healthy
  rw [terms_eq_of_answers hw h.sound h.answers]
  exact h.book_untouched.healthy_iff.mpr hhealthy

theorem engine (h : Undisturbed user w w') (hw : d.Sound w) (hhealthy : w.Healthy user)
    {msgSender : d.Account} {c : DSCEngine.Call} (hne : msgSender ≠ user)
    (hok : c.run IERC20.standard msgSender w' = .ok ((), w'')) : Undisturbed user w w'' := by
  have hmoves := run_moves h.sound.status_eq hok
  have hcaller : user.val ≠ msgSender.val := fun heq => hne (Subtype.ext heq.symm)
  have htarget : ∀ token debtToCover, c ≠ .liquidate token user debtToCover := by
    rintro token debtToCover rfl
    exact (liquidate_target hok).1 (h.healthy hw hhealthy)
  obtain ⟨hcollateral, hdebt⟩ := ledgers_of_untouched (run_untouched hok hcaller htarget)
  have hfeed : w''.feed = w'.feed := congrArg Market.feed hmoves.sameSetting.market_eq
  have hwallet := hmoves.sameWallet hcaller (h.sound.ne_this user)
  exact {
    sound := h.sound.moves hmoves
    answers := fun f => by rw [hfeed, h.answers]
    collateral_eq := hcollateral.trans h.collateral_eq
    debt_eq := hdebt.trans h.debt_eq
    balance_le := by rw [hwallet.balance_eq]; exact h.balance_le }

theorem elsewhere (h : Undisturbed user w w') (hsound : d.Sound w'')
    (hledger : w''.s_collateralDeposited = w'.s_collateralDeposited)
    (hminted : w''.s_DSCMinted = w'.s_DSCMinted)
    (hanswers : ∀ f, (w''.feed f).map RoundData.answer = (w'.feed f).map RoundData.answer)
    (hbalance : ((w'.token d.dsc)._balances user).toNat ≤
      ((w''.token d.dsc)._balances user).toNat) : Undisturbed user w w'' where
  sound := hsound
  answers f := (hanswers f).trans (h.answers f)
  collateral_eq := (congrFun hledger user).trans h.collateral_eq
  debt_eq := (congrFun hminted user).trans h.debt_eq
  balance_le := h.balance_le.trans hbalance

theorem tx (h : Undisturbed user w w') (hw : d.Sound w) (hhealthy : w.Healthy user)
    (haside : Aside user w' a) (hok : a.tx w' = .ok (u, w'')) : Undisturbed user w w'' := by
  have hsound := sound_tx h.sound hok
  have hstep : d.step w' a = w'' := Tx.attempt_of_ok hok
  cases a with
  | engine msgSender c => exact h.engine hw hhealthy haside hok
  | dsc msgSender c =>
      have hbalance : ((w'.token d.dsc)._balances user).toNat ≤
          ((w''.token d.dsc)._balances user).toNat := hstep ▸ haside
      obtain ⟨_, _, _, _, _, rfl⟩ | ⟨_, _, _, _, _, _, rfl⟩ :=
        callDsc_cases (h.sound.ne_owner msgSender) hok
      · exact h.elsewhere hsound rfl rfl (fun _ => rfl) hbalance
      · exact h.elsewhere hsound rfl rfl (fun _ => rfl) hbalance
  | token t msgSender c =>
      obtain ⟨_, k, _, rfl⟩ := tx_token_eq_ok.mp hok
      have hdsc : (w'.setToken t k).token d.dsc = w'.token d.dsc :=
        Function.update_of_ne t.property.symm _ _
      exact h.elsewhere hsound rfl rfl (fun _ => rfl) (by rw [hdsc])
  | issueToken t account amount =>
      obtain ⟨_, _, rfl⟩ := tx_issueToken_eq_ok.mp hok
      have hdsc : (w'.setToken t ((w'.token t).issue account amount)).token d.dsc =
          w'.token d.dsc := Function.update_of_ne t.property.symm _ _
      exact h.elsewhere hsound rfl rfl (fun _ => rfl) (by rw [hdsc])
  | oracle feed =>
      cases Tx.store_eq_ok.mp hok
      exact h.elsewhere hsound rfl rfl haside le_rfl
  | warp timestamp =>
      cases Tx.store_eq_ok.mp hok
      exact h.elsewhere hsound rfl rfl (fun _ => rfl) le_rfl

theorem step (h : Undisturbed user w w') (hw : d.Sound w) (hhealthy : w.Healthy user)
    (haside : Aside user w' a) : Undisturbed user w (d.step w' a) := by
  rcases Tx.attempt_cases a.tx w' with ⟨_, hok⟩ | ⟨_, hsame⟩
  · exact h.tx hw hhealthy haside hok
  · rwa [Deployment.step, hsame]

end Undisturbed

/-- **Nobody can disturb a healthy position from aside**, however long the run. -/
theorem undisturbed_run (user : d.Account) (hw : d.Sound w) (hhealthy : w.Healthy user)
    {between : List (Action d)} (haside : Machine.Along d.step (Aside user) w between) :
    Undisturbed user w (Machine.run d.step w between) :=
  Machine.run_invariant_along (fun _ _ h ha => h.step hw hhealthy ha)
    ⟨hw, fun _ => rfl, rfl, rfl, le_rfl⟩ haside

/-! ## Closing what was opened -/

def FeedsFresh (d : Deployment) (w : World) : Prop :=
  ∀ t ∈ d.s_tokenAddresses, ∃ round, w.feed (w.s_priceFeeds t) = some round ∧
    OracleLib.Fresh w.timestamp round

theorem Undisturbed.scorable {user : d.Account} (h : Undisturbed user w w') (hw : d.Sound w)
    (hfresh : FeedsFresh d w') (hscore : w.market.Scorable w.book user) :
    w'.market.Scorable w'.book user := by
  have hprice : w'.market.price = w.market.price :=
    price_eq_of_answers (h.sound.priceFeeds_eq.trans hw.priceFeeds_eq.symm) h.answers
  have hterms := terms_eq_of_answers hw h.sound h.answers
  have htokens : w'.s_collateralTokens = w.s_collateralTokens :=
    h.sound.collateralTokens_eq.trans hw.collateralTokens_eq.symm
  obtain ⟨⟨hvalued, hsum⟩, hbounds⟩ := hscore
  obtain ⟨hrow, hdebt⟩ := h.book_untouched
  unfold Market.Scorable Market.Valued
  rw [hterms, hrow, hdebt]
  refine ⟨⟨fun t ht => ?_, hsum⟩, hbounds⟩
  have hmem : t ∈ w.s_collateralTokens := htokens ▸ ht
  obtain ⟨hquoted, hproduct⟩ := hvalued t hmem
  obtain ⟨round, hfeed, hround⟩ := hfresh t (hw.collateralTokens_eq ▸ hmem)
  obtain ⟨_, _, _, hscaled⟩ := hquoted
  rw [hprice]
  exact ⟨⟨round, hfeed, hround, hprice ▸ hscaled⟩, hproduct⟩

def opened (user token : Address) (amountCollateral amountDsc : UInt256) (w : World) : World :=
  minted user amountDsc (deposited user token amountCollateral w)

section Opened

variable {amountCollateral amountDsc : UInt256}

theorem depositCollateralAndMintDsc_opened (hstatus : w._status = _NOT_ENTERED)
    (hok : depositCollateralAndMintDsc IERC20.standard user token amountCollateral amountDsc w =
      .ok ((), w')) :
    w' = opened user token amountCollateral amountDsc w ∧
      depositCollateral IERC20.standard user token amountCollateral w =
        .ok ((), deposited user token amountCollateral w) ∧
      mintDsc user amountDsc (deposited user token amountCollateral w) = .ok ((), w') := by
  obtain ⟨w₁, hdeposit, hmint⟩ := depositCollateralAndMintDsc_eq_ok.mp hok
  obtain ⟨_, _, _, _, rfl⟩ := (depositCollateral_standard_eq_ok hstatus).mp hdeposit
  have hopen : (deposited user token amountCollateral w)._status = _NOT_ENTERED := hstatus
  obtain ⟨_, _, _, _, _, heq⟩ := (mintDsc_open_eq_ok hopen).mp hmint
  exact ⟨heq, hdeposit, hmint⟩

theorem collateral_opened :
    (opened user token amountCollateral amountDsc w).s_collateralDeposited user =
      Function.update (w.s_collateralDeposited user) token
        (w.s_collateralDeposited user token + amountCollateral) :=
  Function.update_self ..

theorem debt_opened :
    (opened user token amountCollateral amountDsc w).s_DSCMinted user =
      w.s_DSCMinted user + amountDsc :=
  Function.update_self ..

theorem collateral_debit (hrow : w'.s_collateralDeposited user =
    (opened user token amountCollateral amountDsc w).s_collateralDeposited user) :
    (w'.debit user token amountCollateral).s_collateralDeposited user =
      w.s_collateralDeposited user := by
  have hdebit : (w'.debit user token amountCollateral).s_collateralDeposited user =
      Function.update (w'.s_collateralDeposited user) token
        (w'.s_collateralDeposited user token - amountCollateral) := Function.update_self ..
  rw [hdebit, hrow, collateral_opened, Function.update_self, Function.update_idem,
    BitVec.add_sub_cancel, Function.update_eq_self]

theorem debt_forgive (hdebt : w'.s_DSCMinted user =
    (opened user token amountCollateral amountDsc w).s_DSCMinted user) :
    (w'.forgive user amountDsc).s_DSCMinted user = w.s_DSCMinted user := by
  have hforgive : (w'.forgive user amountDsc).s_DSCMinted user =
      w'.s_DSCMinted user - amountDsc := Function.update_self ..
  rw [hforgive, hdebt, debt_opened, BitVec.add_sub_cancel]

/-- What opening a position moves: the collateral leaves the wallet, and the stablecoins
that enter it are new. -/
theorem wallet_opened (h : d.Sound w) (user : d.Account) (htoken : token ≠ w.i_dsc)
    (hok : depositCollateralAndMintDsc IERC20.standard user token amountCollateral amountDsc w =
      .ok ((), w')) :
    ((w'.token token)._balances user).toNat + amountCollateral.toNat =
        ((w.token token)._balances user).toNat ∧
      ((w'.token w.i_dsc)._balances user).toNat =
        ((w.token w.i_dsc)._balances user).toNat + amountDsc.toNat ∧
      w'.supply = w.supply + amountDsc.toNat := by
  obtain ⟨rfl, hdeposit, hmint⟩ := depositCollateralAndMintDsc_opened h.status_eq hok
  obtain ⟨_, _, _, hcollect, _⟩ := (depositCollateral_standard_eq_ok h.status_eq).mp hdeposit
  have hopen : (deposited user token amountCollateral w)._status = _NOT_ENTERED := h.status_eq
  obtain ⟨_, _, _, _, hissue, _⟩ := (mintDsc_open_eq_ok hopen).mp hmint
  have hpaid := balance_deposited h.tokens hcollect (h.ne_this user)
  have hissued := balance_minted (h.tokens.deposited hcollect) hissue
  have hsupply := supply_minted user hissue.2.2.2
  have htoken' : (opened user token amountCollateral amountDsc w).token token =
      (deposited user token amountCollateral w).token token := Function.update_of_ne htoken _ _
  have hdsc : (deposited user token amountCollateral w).token w.i_dsc = w.token w.i_dsc :=
    Function.update_of_ne htoken.symm _ _
  refine ⟨?_, ?_, ?_⟩
  · rw [htoken']
    exact hpaid
  · rw [← hdsc]
    exact hissued
  · exact hsupply.trans (congrArg (· + amountDsc.toNat) supply_deposited)

theorem wallet_closed (h : d.Sound w) (user : d.Account) (htoken : token ≠ w.i_dsc)
    (hclose : CanClose user token amountCollateral amountDsc w)
    (hheld : (w.s_collateralDeposited user token).toNat ≤ w.holdings token) :
    (((closed user token amountCollateral amountDsc w).token token)._balances user).toNat =
        ((w.token token)._balances user).toNat + amountCollateral.toNat ∧
      (((closed user token amountCollateral amountDsc w).token w.i_dsc)._balances user).toNat +
        amountDsc.toNat = ((w.token w.i_dsc)._balances user).toNat ∧
      (closed user token amountCollateral amountDsc w).supply + amountDsc.toNat = w.supply := by
  have hrepay := hclose.canRepay h
  have htoken' : (repaid user user amountDsc w).token token = w.token token :=
    token_repaid_of_ne htoken
  have hdsc : (closed user token amountCollateral amountDsc w).token w.i_dsc =
      (repaid user user amountDsc w).token w.i_dsc := Function.update_of_ne htoken.symm _ _
  have hpay : (repaid user user amountDsc w).CanPay token w.this user amountCollateral := by
    refine ⟨h.this_ne_zero, hclose.user_ne_zero h, ?_⟩
    have hcover := hclose.deposited.trans hheld
    rw [← holdings_repaid h.tokens hrepay (h.ne_this user) token] at hcover
    exact hcover
  have hpaid := balance_redeemed user (h.tokens.repaid hrepay) hpay (h.ne_this user)
  refine ⟨?_, ?_, ?_⟩
  · rw [← htoken']
    exact hpaid
  · rw [hdsc]
    exact balance_repaid h.tokens hrepay (h.ne_this user)
  · rw [closed, supply_redeemed]
    exact supply_repaid h.tokens hrepay

/-- An undisturbed position of a user that was healthy before it was opened can be closed. -/
theorem Undisturbed.canClose {user : d.Account} {w₁ w₂ : World} (h : d.Sound w)
    (hhealthy : w.Healthy user) (htoken : token ≠ w.i_dsc)
    (hok : depositCollateralAndMintDsc IERC20.standard user token amountCollateral amountDsc w =
      .ok ((), w₁))
    (hund : Undisturbed user w₁ w₂)
    (hallowance : amountDsc.toNat ≤ ((w₂.token d.dsc)._allowances user d.dscEngine).toNat) :
    CanClose user token amountCollateral amountDsc w₂ := by
  obtain ⟨_, hissued, _⟩ := wallet_opened h user htoken hok
  obtain ⟨rfl, hdeposit, hmint⟩ := depositCollateralAndMintDsc_opened h.status_eq hok
  have hopen : (deposited user token amountCollateral w)._status = _NOT_ENTERED := h.status_eq
  obtain ⟨hpos, _, hfits, _, _⟩ := (depositCollateral_standard_eq_ok h.status_eq).mp hdeposit
  obtain ⟨hpos', hfits', _, _, hissue, _⟩ := (mintDsc_open_eq_ok hopen).mp hmint
  have hdeposited : (w₂.s_collateralDeposited user token).toNat =
      (w.s_collateralDeposited user token).toNat + amountCollateral.toNat := by
    rw [hund.collateral_eq, collateral_opened, Function.update_self, BitVec.toNat_add_of_lt hfits]
  have howed : (w₂.s_DSCMinted user).toNat = (w.s_DSCMinted user).toNat + amountDsc.toNat := by
    rw [hund.debt_eq, debt_opened]
    exact BitVec.toNat_add_of_lt hfits'
  have hterms : w₂.market.terms = w.market.terms :=
    terms_eq_of_answers h hund.sound fun f => hund.answers f
  have hrow : (w₂.debit user token amountCollateral).book.collateral user =
      w.book.collateral user :=
    congrArg (fun row t => (row t).toNat) (collateral_debit hund.collateral_eq)
  have hvalue : (w₂.debit user token amountCollateral).collateralValue user =
      w.collateralValue user := by
    unfold World.collateralValue
    rw [market_debit, hterms, hrow]
  have hbalance := hund.balance_le
  rw [h.dsc_eq] at hissued
  exact {
    collateral_pos := toNat_pos_of_ne_zero hpos
    burn_pos := toNat_pos_of_ne_zero hpos'
    owed := (Nat.le_add_left _ _).trans howed.ge
    balance := by
      rw [hund.sound.dsc_eq]
      exact (Nat.le_add_left _ _).trans (hissued.symm.trans_le hbalance)
    allowance := by
      rw [hund.sound.dsc_eq, hund.sound.this_eq]
      exact hallowance
    deposited := (Nat.le_add_left _ _).trans hdeposited.ge
    healthy := by
      rw [howed, Nat.add_sub_cancel, hvalue]
      exact hhealthy }

end Opened

/-- Custody still holds after a call and whatever followed it. -/
theorem holdings_ge_between {w₁ : World} {c : Call} (before between : List (Action d))
    (user : d.Account) (token : Address)
    (hok : c.run IERC20.standard user (d.run before) = .ok ((), w₁)) :
    ((Machine.run d.step w₁ between).s_collateralDeposited user token).toNat ≤
      (Machine.run d.step w₁ between).holdings token := by
  have hstep : d.step (d.run before) (.engine user c) = w₁ := Tx.attempt_of_ok hok
  have hrun : d.run (before ++ .engine user c :: between) = Machine.run d.step w₁ between := by
    unfold run
    rw [Machine.run_append, ← hstep]
    rfl
  rw [← hrun]
  exact d.holdings_ge _ user token

theorem feedsFresh_of_valued {deposited : Address → ℕ}
    (htokens : w.s_collateralTokens = d.s_tokenAddresses) (hvalued : w.market.Valued deposited) :
    FeedsFresh d w := by
  intro t ht
  have hmem : t ∈ w.s_collateralTokens := htokens ▸ ht
  obtain ⟨⟨round, hfeed, hfresh, _⟩, _⟩ := hvalued.1 t hmem
  exact ⟨round, hfeed, hfresh⟩

/-- What two calls, from `w` to `w₁` and from `w₂` to `w₃`, change together. -/
def netChange (f : World → ℕ) (w w₁ w₂ w₃ : World) : ℤ :=
  ((f w₁ : ℤ) - f w) + ((f w₃ : ℤ) - f w₂)

/-- **What was opened can be closed, whatever others do in between**, and the two calls
together leave the user's position, its wallet and the supply as they were. -/
theorem position_round_trip (d : Deployment) (before between : List (Action d))
    (user : d.Account) (token : Address) (amountCollateral amountDsc healthFactor : UInt256)
    (w₁ : World) (hreturns : getHealthFactor user (d.run before) = .ok healthFactor)
    (hmin : MIN_HEALTH_FACTOR ≤ healthFactor)
    (hok : depositCollateralAndMintDsc IERC20.standard user token amountCollateral amountDsc
      (d.run before) = .ok ((), w₁))
    (haside : Machine.Along d.step (Aside user) w₁ between)
    (hfresh : FeedsFresh d (Machine.run d.step w₁ between))
    (hallowance : amountDsc.toNat ≤
      (((Machine.run d.step w₁ between).token d.dsc)._allowances user d.dscEngine).toNat) :
    ∃ w₃, redeemCollateralForDsc IERC20.standard user token amountCollateral amountDsc
        (Machine.run d.step w₁ between) = .ok ((), w₃) ∧
      w₃.s_collateralDeposited user = (d.run before).s_collateralDeposited user ∧
      w₃.s_DSCMinted user = (d.run before).s_DSCMinted user ∧
      netChange (fun w => ((w.token token)._balances user).toNat) (d.run before) w₁
        (Machine.run d.step w₁ between) w₃ = 0 ∧
      netChange (fun w => ((w.token d.dsc)._balances user).toNat) (d.run before) w₁
        (Machine.run d.step w₁ between) w₃ = 0 ∧
      netChange supply (d.run before) w₁ (Machine.run d.step w₁ between) w₃ = 0 := by
  have hsound := d.sound_run before
  obtain ⟨_, hscored⟩ := _healthFactor_eq_ok.mp hreturns
  have hhealthy : (d.run before).Healthy user := by
    rw [BitVec.le_def, toNat_MIN_HEALTH_FACTOR, hscored] at hmin
    exact Lending.Terms.threshold_le_scoreOf.mp hmin
  have hmoves := run_moves (c := .depositCollateralAndMintDsc token amountCollateral amountDsc)
    hsound.status_eq hok
  have hsound₁ := hsound.moves hmoves
  obtain ⟨rfl, hdeposit, hmint⟩ := depositCollateralAndMintDsc_opened hsound.status_eq hok
  have hopen : (deposited user token amountCollateral (d.run before))._status = _NOT_ENTERED :=
    hsound.status_eq
  obtain ⟨_, hlisted, _⟩ := (depositCollateral_standard_eq_ok hsound.status_eq).mp hdeposit
  obtain ⟨_, _, hscore, hhealthy₁, _⟩ := (mintDsc_open_eq_ok hopen).mp hmint
  have hund := undisturbed_run user hsound₁ hhealthy₁ haside
  have htoken := ne_dsc_of_priceFeed hsound hlisted
  have hclose := hund.canClose hsound hhealthy htoken hok hallowance
  have hheld := holdings_ge_between
    (c := .depositCollateralAndMintDsc token amountCollateral amountDsc) before between user token
    hok
  have htoken₂ := htoken
  rw [hsound.dsc_eq, ← hund.sound.dsc_eq] at htoken₂
  obtain ⟨hpaid, hissued, hsupply⟩ := wallet_opened hsound user htoken hok
  obtain ⟨hpaid', hburned, hsupply'⟩ := wallet_closed hund.sound user htoken₂ hclose hheld
  rw [hsound.dsc_eq] at hissued
  rw [hund.sound.dsc_eq] at hburned
  refine ⟨_, (redeemCollateralForDsc_returns_iff hund.sound
    (hund.scorable hsound₁ hfresh hscore) hheld).mpr ⟨hclose, rfl⟩,
    collateral_debit hund.collateral_eq, debt_forgive hund.debt_eq, ?_, ?_, ?_⟩
  · simp only [netChange]
    omega
  · simp only [netChange]
    omega
  · simp only [netChange]
    omega

/-- The user approves the engine, the liquidator opens a position and tries to liquidate
the user. -/
def meanwhile : List (Action anvil) :=
  .dsc USER (.erc20 (.approve anvil.dscEngine (10000 * 10 ^ 18))) ::
    (openPosition liquidator (20 * 10 ^ 18) (10000 * 10 ^ 18) ++
      [.engine liquidator (.liquidate weth USER (10 * 10 ^ 18))])

/-- The user deposits ten WETH, borrows all it can against them, and closes the position later. -/
theorem position_round_trip_meanwhile :
    let w := anvil.run approveDeposit
    let w₁ := Tx.attempt
      (depositCollateralAndMintDsc IERC20.standard USER weth (10 * 10 ^ 18) (10000 * 10 ^ 18)) w
    let w₂ := Machine.run anvil.step w₁ meanwhile
    ∃ w₃, redeemCollateralForDsc IERC20.standard USER weth (10 * 10 ^ 18) (10000 * 10 ^ 18) w₂ =
        .ok ((), w₃) ∧ netChange supply w w₁ w₂ w₃ = 0 := by
  intro w w₁ w₂
  have hreturns : Tx.Returns
      (depositCollateralAndMintDsc IERC20.standard USER weth (10 * 10 ^ 18) (10000 * 10 ^ 18))
      w := by decide +kernel
  have haside : Machine.Along anvil.step (Aside USER) w₁ meanwhile := by
    refine ⟨?_, trivial, trivial, ?_, ?_, ?_, trivial⟩
    · change _ ≤ _
      decide +kernel
    · exact (by decide : liquidator ≠ USER)
    · change _ ≤ _
      decide +kernel
    · exact (by decide : liquidator ≠ USER)
  have hvalue : getAccountCollateralValue USER w₂ = .ok (20000 * 10 ^ 18) := by decide +kernel
  have hfresh : FeedsFresh anvil w₂ :=
    feedsFresh_of_valued (by decide +kernel) (getAccountCollateralValue_eq_ok.mp hvalue).1
  obtain ⟨w₃, hclose, _, _, _, _, hsupply⟩ := position_round_trip anvil approveDeposit meanwhile
    USER weth (10 * 10 ^ 18) (10000 * 10 ^ 18) maxUInt256 w₁ (by decide +kernel) (by decide)
    hreturns.eq_ok haside hfresh (by decide +kernel)
  exact ⟨w₃, hclose, hsupply⟩

end DefiStablecoin.Deployment
