import DefiStablecoin.System.Log

/-!
# What the log tells

The engine's getters show the present only; whoever follows the log can tell the
rest.  The deposits are told by the engine's own events, whatever the collateral
tokens do and however they call back.  The storage of every token is told by the
events of `ERC20.sol`.  Debts are told by nobody: no event is emitted where they
change, and yet they can be read off the order of the others.
-/

namespace DefiStablecoin

open Solidity OpenZeppelin DSCEngine World LogTx
open Deployment (anvil crash USER liquidator weth log_follows sound_run)

/-! ## The ledger of deposits -/

def readDeposits (dscEngine : Address) (ledger : Address → Address → UInt256) :
    Log → Address → Address → UInt256
  | ⟨address, .CollateralDeposited user token amount⟩ =>
      if address = dscEngine then
        Function.update ledger user
          (Function.update (ledger user) token (ledger user token + amount))
      else ledger
  | ⟨address, .CollateralRedeemed redeemedFrom _ token amount⟩ =>
      if address = dscEngine then
        Function.update ledger redeemedFrom
          (Function.update (ledger redeemedFrom) token (ledger redeemedFrom token - amount))
      else ledger
  | _ => ledger

def ReadsDeposits (dscEngine : Address) (ledger : Address → Address → UInt256) (w : World) : Prop :=
  w.this = dscEngine ∧ ledger = w.s_collateralDeposited

theorem readDeposits_of_not_tells {dscEngine : Address} {log : Log}
    (h : ¬log.TellsOfDeposits dscEngine) (ledger : Address → Address → UInt256) :
    readDeposits dscEngine ledger log = ledger := by
  obtain ⟨address, event⟩ := log
  cases event with
  | erc20 e => rfl
  | OwnershipTransferred previousOwner newOwner => rfl
  | CollateralDeposited user token amount => exact if_neg h
  | CollateralRedeemed redeemedFrom redeemedTo token amount => exact if_neg h

theorem readDeposits_foldl_of_not_tells {dscEngine : Address} {events : List Log}
    (h : ∀ e ∈ events, ¬e.TellsOfDeposits dscEngine) (ledger : Address → Address → UInt256) :
    events.foldl (readDeposits dscEngine) ledger = ledger := by
  induction events with
  | nil => rfl
  | cons e rest ih =>
      rw [List.foldl_cons, readDeposits_of_not_tells (h e (List.mem_cons_self ..))]
      exact ih fun e he => h e (List.mem_cons_of_mem _ he)

theorem indexes_deposits {dscEngine : Address} {ierc20 : LoggedIERC20}
    (htransfer : ∀ token msgSender dst amount,
      Follows (readDeposits dscEngine) (ReadsDeposits dscEngine) (ReadsDeposits dscEngine)
        (ierc20.transfer token msgSender dst amount))
    (htransferFrom : ∀ token msgSender src dst amount,
      Follows (readDeposits dscEngine) (ReadsDeposits dscEngine) (ReadsDeposits dscEngine)
        (ierc20.transferFrom token msgSender src dst amount)) :
    Indexes (readDeposits dscEngine) (ReadsDeposits dscEngine)
      (fun _ _ => ReadsDeposits dscEngine) ierc20 where
  setStatus _ _ _ hr := hr
  setCollateral_deposited := by
    rintro _ w user token amount _ ⟨rfl, rfl⟩
    exact ⟨rfl, if_pos rfl⟩
  setCollateral_redeemed := by
    rintro _ w source recipient token amount _ ⟨rfl, rfl⟩
    exact ⟨rfl, if_pos rfl⟩
  transfer _ _ := htransfer
  transferFrom := htransferFrom
  mintDsc _ _ := Logged.mintDsc_follows (fun _ _ _ hr => hr) (fun _ _ _ hr => hr)
    fun _ _ _ hr => hr
  _burnDsc _ _ _ := Logged._burnDsc_follows (fun _ _ _ hr => hr) (fun _ _ _ _ _ _ hr => hr)
    (fun _ _ _ hr => hr) fun _ _ _ hr => hr
  self _ _ _ := Iff.rfl

/-- **In every execution, whatever the collateral tokens do, the engine's events tell
the ledger of deposits.** -/
theorem deposits_of_log {d : Deployment} {w : World} {log : List Log}
    (h : LogReaches (d.genesis, []) (w, log)) :
    log.foldl (readDeposits d.dscEngine) (fun _ _ => 0) = w.s_collateralDeposited := by
  have helsewhere : ∀ ledger v v' (events : List Log), v'.toDSCEngine = v.toDSCEngine →
      v'.this = v.this → (∀ e ∈ events, ¬e.TellsOfDeposits v.this) →
      ReadsDeposits d.dscEngine ledger v →
      ReadsDeposits d.dscEngine (events.foldl (readDeposits d.dscEngine) ledger) v' := by
    rintro _ v v' events hstorage hthis hevents ⟨hengine, rfl⟩
    rw [readDeposits_foldl_of_not_tells (hengine ▸ hevents)]
    exact ⟨hthis.trans hengine, congrArg DSCEngine.s_collateralDeposited hstorage.symm⟩
  obtain ⟨events, hlog, hread⟩ := h.follows (fun _ htransfer htransferFrom =>
    indexes_deposits htransfer htransferFrom) helsewhere
  have hread := hread (fun _ _ => 0) ⟨rfl, rfl⟩
  dsimp only [List.nil_append] at hlog
  rw [hlog]
  exact hread.2

theorem deposits_of_log_crash :
    (anvil.log (crash (1800 * 10 ^ 8))).foldl (readDeposits anvil.dscEngine) (fun _ _ => 0) =
      (anvil.run (crash (1800 * 10 ^ 8))).s_collateralDeposited :=
  deposits_of_log (logReaches_run anvil (crash (1800 * 10 ^ 8)))

/-! ## The storage of a token -/

def readToken (token : Address) (k : ERC20) : Log → ERC20
  | ⟨address, .erc20 e⟩ => if address = token then k.redo e else k
  | _ => k

def ReadsToken (token : Address) (k : ERC20) (w : World) : Prop := k = w.token token

/-- An event of a token that is redone at that token, and at no other. -/
theorem readsToken_redo {t token : Address} {e : ERC20Event} {k k' : ERC20} {w : World}
    (hr : ReadsToken t k w) (hredo : (w.token token).redo e = k') :
    ReadsToken t (readToken t k ⟨token, .erc20 e⟩) (w.setToken token k') := by
  cases hr
  by_cases ht : token = t
  · subst ht
    rw [ReadsToken, setToken_token_self, ← hredo]
    exact if_pos rfl
  · have hsame : (w.setToken token k').token t = w.token t := Function.update_of_ne (Ne.symm ht) ..
    rw [ReadsToken, hsame]
    exact if_neg ht

theorem readsToken_approvals (t : Address) : ReadsApprovals (readToken t) (ReadsToken t) :=
  fun _ _ _ _ _ _ hr => readsToken_redo hr rfl

theorem readsToken_transfer (t token src dst : Address) (amount : UInt256) :
    ReadsTransfer (readToken t) (ReadsToken t) (ReadsToken t) token src dst amount :=
  fun _ _ hmove hr => readsToken_redo hr (ERC20.redo_transfer hmove)

theorem indexes_token (t : Address) :
    Indexes (readToken t) (ReadsToken t) (fun _ _ => ReadsToken t) LoggedIERC20.standard where
  setStatus _ _ _ hr := hr
  setCollateral_deposited _ _ _ _ _ _ hr := hr
  setCollateral_redeemed _ _ _ _ _ _ _ hr := hr
  transfer _ _ _ _ _ _ := transfer_follows (readsToken_transfer t _ _ _ _)
  transferFrom _ _ _ _ _ :=
    transferFrom_follows (readsToken_approvals t) (readsToken_transfer t _ _ _ _)
  mintDsc _ _ := Logged.mintDsc_follows (fun _ _ _ hr => hr) (fun _ _ _ hr => hr)
    fun _ _ _ hr => readsToken_redo hr (ERC20.redo_issue ..)
  _burnDsc _ _ _ := Logged._burnDsc_follows (fun _ _ _ hr => hr) (readsToken_approvals t)
    (fun _ _ hmove hr => readsToken_redo hr (ERC20.redo_transfer hmove))
    fun _ _ hne hr => readsToken_redo hr (ERC20.redo_destroy _ _ hne)
  self _ _ _ := Iff.rfl

/-- **In every run, the events of every token tell its storage**: its balances, its
allowances and its supply. -/
theorem token_of_log (d : Deployment) (actions : List (Action d)) (t : Address) :
    (d.log actions).foldl (readToken t) (d.genesis.token t) = (d.run actions).token t := by
  refine log_follows (P := ReadsToken t) (fun w hsound a log u w' log' hok => ?_) rfl
    actions
  cases a with
  | engine msgSender c => exact Logged.run_follows (indexes_token t) msgSender c hok
  | dsc msgSender c =>
      have hquiet := (Action.logged_erases (.dsc msgSender c)).eq_ok hok
      obtain ⟨call, _, _, rfl, _⟩ | ⟨account, amount, rfl, _⟩ :=
        callDsc_cases (hsound.ne_owner msgSender) hquiet
      · exact dsc_erc20_follows (readsToken_approvals t)
          (fun _ _ _ _ => readsToken_transfer t _ _ _ _) call hok
      · exact dsc_burnFrom_follows (readsToken_approvals t)
          (fun _ _ hne hr => readsToken_redo hr (ERC20.redo_destroy _ _ hne)) hok
  | token token msgSender c =>
      exact Follows.bind (run_token_follows (readsToken_approvals t)
        (fun _ _ _ => readsToken_transfer t _ _ _ _) c) (fun _ => .pure) hok
  | issueToken token account amount =>
      exact Follows.bind (issueToken_follows
        fun _ _ _ hr => readsToken_redo hr (ERC20.redo_issue ..)) (fun _ => .pure) hok
  | oracle feed =>
      exact Follows.quiet (P := ReadsToken t) (t := Tx.store (World.setFeed feed))
        (fun _ _ _ h _ hr => by cases Tx.store_eq_ok.mp h; exact hr) hok
  | warp timestamp =>
      exact Follows.quiet (P := ReadsToken t) (t := Tx.store (World.setTimestamp timestamp))
        (fun _ _ _ h _ hr => by cases Tx.store_eq_ok.mp h; exact hr) hok

/-! ## The debts -/

/-- What a reader of the log keeps in mind to tell the debts: whose collateral was
seized by another account, until a debt is burned, and who paid the engine last. -/
structure DebtReader where
  owed : Address → UInt256
  seizedFrom : Option Address
  payer : Address

def DebtReader.debtor (r : DebtReader) : Address := r.seizedFrom.getD r.payer

/-- The debts, as the transfers of the stablecoin tell them: what comes from nowhere
is lent to its recipient, and what the engine destroys was owed by the account whose
collateral was seized or, if none was, by the one that paid. -/
def readDebts (dscEngine dsc : Address) (r : DebtReader) : Log → DebtReader
  | ⟨address, .CollateralRedeemed redeemedFrom redeemedTo _ _⟩ =>
      if address = dscEngine then
        { r with seizedFrom := if redeemedFrom = redeemedTo then none else some redeemedFrom }
      else r
  | ⟨address, .erc20 (.Transfer source recipient value)⟩ =>
      if address ≠ dsc then r
      else if source = 0 then
        { r with owed := Function.update r.owed recipient (r.owed recipient + value) }
      else if source = dscEngine ∧ recipient = 0 then
        { r with
          owed := Function.update r.owed r.debtor (r.owed r.debtor - value)
          seizedFrom := none }
      else if recipient = dscEngine then { r with payer := source }
      else r
  | _ => r

/-- The reader knows where the contracts are, whose collateral is seized, and, up to
what the engine has written since, the debts. -/
structure ReadsDebts (dscEngine dsc : Address) (written : (Address → UInt256) → Address → UInt256)
    (seizedFrom : Option Address) (r : DebtReader) (w : World) : Prop where
  this_eq : w.this = dscEngine
  dsc_eq : w.i_dsc = dsc
  owed_eq : written r.owed = w.s_DSCMinted
  seizedFrom_eq : r.seizedFrom = seizedFrom

section Debts

variable {dscEngine dsc : Address} {written : (Address → UInt256) → Address → UInt256}
  {seizedFrom : Option Address}

theorem readsDebts_approvals :
    ReadsApprovals (readDebts dscEngine dsc) (ReadsDebts dscEngine dsc written seizedFrom) :=
  fun _ _ _ _ _ _ hr => ⟨hr.this_eq, hr.dsc_eq, hr.owed_eq, hr.seizedFrom_eq⟩

variable (dscEngine dsc) in
/-- Between two accounts nothing is lent and nothing is paid back. -/
theorem readDebts_transfer (r : DebtReader) (token src dst : Address) (amount : UInt256)
    (hsrc : src ≠ 0) (hdst : dst ≠ 0) :
    (readDebts dscEngine dsc r ⟨token, .erc20 (.Transfer src dst amount)⟩).owed = r.owed ∧
      (readDebts dscEngine dsc r ⟨token, .erc20 (.Transfer src dst amount)⟩).seizedFrom =
        r.seizedFrom := by
  unfold readDebts
  simp only [hsrc, hdst, and_false, if_false]
  split
  · exact ⟨rfl, rfl⟩
  · split <;> exact ⟨rfl, rfl⟩

theorem readsDebts_transfer (token src dst : Address) (amount : UInt256) :
    ReadsTransfer (readDebts dscEngine dsc) (ReadsDebts dscEngine dsc written seizedFrom)
      (ReadsDebts dscEngine dsc written seizedFrom) token src dst amount := by
  intro r w hmove hr
  obtain ⟨howed, hseized⟩ :=
    readDebts_transfer dscEngine dsc r token src dst amount hmove.1 hmove.2.1
  exact ⟨hr.this_eq, hr.dsc_eq, howed ▸ hr.owed_eq, hseized.trans hr.seizedFrom_eq⟩

theorem indexes_debts (hengine : dscEngine ≠ 0) :
    Indexes (readDebts dscEngine dsc) (ReadsDebts dscEngine dsc id none)
      (fun user liquidator =>
        ReadsDebts dscEngine dsc id (if user = liquidator then none else some user))
      LoggedIERC20.standard where
  setStatus _ _ _ hr := ⟨hr.this_eq, hr.dsc_eq, hr.owed_eq, hr.seizedFrom_eq⟩
  setCollateral_deposited _ _ _ _ _ _ hr := ⟨hr.this_eq, hr.dsc_eq, hr.owed_eq, hr.seizedFrom_eq⟩
  setCollateral_redeemed r w source recipient token amount _ hr := by
    simp only [readDebts, hr.this_eq, if_true]
    exact ⟨hr.this_eq, hr.dsc_eq, hr.owed_eq, rfl⟩
  transfer _ _ _ _ _ _ := transfer_follows (readsDebts_transfer _ _ _ _)
  transferFrom _ _ _ _ _ :=
    transferFrom_follows readsDebts_approvals (readsDebts_transfer _ _ _ _)
  mintDsc msgSender amount := by
    refine Logged.mintDsc_follows (M := ReadsDebts dscEngine dsc
      (fun owed => Function.update owed msgSender (owed msgSender + amount)) none)
      (fun r w _ hr => ?_) (fun r w _ hr => ?_) fun r w hne hr => ?_
    · exact ⟨hr.this_eq, hr.dsc_eq, hr.owed_eq, hr.seizedFrom_eq⟩
    · have howed : r.owed = w.s_DSCMinted := hr.owed_eq
      refine ⟨hr.this_eq, hr.dsc_eq, ?_, hr.seizedFrom_eq⟩
      rw [howed]
      rfl
    · simp only [readDebts, hr.dsc_eq, ne_eq, not_true_eq_false, if_false, if_true]
      exact ⟨hr.this_eq, hr.dsc_eq, hr.owed_eq, hr.seizedFrom_eq⟩
  _burnDsc amount onBehalfOf dscFrom := by
    let written (owed : Address → UInt256) :=
      Function.update owed onBehalfOf (owed onBehalfOf - amount)
    let seizedFrom := if onBehalfOf = dscFrom then none else some onBehalfOf
    refine Logged._burnDsc_follows (M := ReadsDebts dscEngine dsc written seizedFrom)
      (N := fun r w => ReadsDebts dscEngine dsc written seizedFrom r w ∧ r.payer = dscFrom)
      (fun r w _ hr => ?_) readsDebts_approvals (fun r w hmove hr => ?_) fun r w hne hr => ?_
    · have howed : r.owed = w.s_DSCMinted := hr.owed_eq
      refine ⟨hr.this_eq, hr.dsc_eq, ?_, hr.seizedFrom_eq⟩
      simp only [written, howed]
      rfl
    · refine ⟨readsDebts_transfer _ _ _ _ r w hmove hr, ?_⟩
      simp [readDebts, hr.this_eq, hr.dsc_eq, hmove.1, hengine]
    · obtain ⟨hr, hpayer⟩ := hr
      have hdebtor : r.debtor = onBehalfOf := by
        simp only [DebtReader.debtor, hr.seizedFrom_eq, hpayer, seizedFrom]
        split
        · next hself => exact hself.symm
        · rfl
      have hread : readDebts dscEngine dsc r ⟨w.i_dsc, .erc20 (.Transfer w.this 0 amount)⟩ =
          { r with owed := written r.owed, seizedFrom := none } := by
        simp [readDebts, hr.this_eq, hr.dsc_eq, hengine, hdebtor, written]
      rw [hread]
      exact ⟨hr.this_eq, hr.dsc_eq, hr.owed_eq, rfl⟩
  self user r w := by simp only [if_true]

variable (dsc) in
/-- What others burn pays no debt, not even where they burn nothing of the engine's. -/
theorem readDebts_burnFrom (r : DebtReader) {account : Address} {amount : UInt256}
    (hne : account ≠ 0) (hengine : dscEngine ≠ 0) (hnothing : account = dscEngine → amount = 0)
    (hseized : r.seizedFrom = none) :
    readDebts dscEngine dsc r ⟨dsc, .erc20 (.Transfer account 0 amount)⟩ = r := by
  obtain ⟨owed, seizedFrom, payer⟩ := r
  cases hseized
  by_cases hself : account = dscEngine
  · simp [readDebts, hself, hengine, hnothing hself]
  · simp [readDebts, hne, hself, hengine.symm]

end Debts

/-- **In every run the log tells the debts**, although the engine emits nothing where
it writes them. -/
theorem debts_of_log (d : Deployment) (actions : List (Action d)) :
    ((d.log actions).foldl (readDebts d.dscEngine d.dsc) ⟨fun _ => 0, none, 0⟩).owed =
      (d.run actions).s_DSCMinted := by
  refine (log_follows (P := ReadsDebts d.dscEngine d.dsc id none)
    (fun w hsound a log u w' log' hok => ?_) ⟨rfl, rfl, rfl, rfl⟩ actions).owed_eq
  cases a with
  | engine msgSender c =>
      exact Logged.run_follows (indexes_debts d.dscEngine_ne_zero) msgSender c hok
  | dsc msgSender c =>
      have hquiet := (Action.logged_erases (.dsc msgSender c)).eq_ok hok
      obtain ⟨call, _, _, rfl, _⟩ | ⟨account, amount, rfl, hspend, _⟩ :=
        callDsc_cases (hsound.ne_owner msgSender) hquiet
      · exact dsc_erc20_follows readsDebts_approvals
          (fun _ _ _ _ => readsDebts_transfer _ _ _ _) call hok
      · -- the engine approves nobody, so of what it holds others can burn nothing only
        have hnothing : account = d.dscEngine → amount = 0 := by
          intro hself
          rw [hself.trans hsound.this_eq.symm] at hspend
          exact toNat_eq_zero.mp ((hsound.tokens.noAllowance _).spent_eq_zero hspend)
        refine dsc_burnFrom_follows readsDebts_approvals (fun r v hne hr => ?_) hok
        have hread := readDebts_burnFrom d.dsc r hne d.dscEngine_ne_zero hnothing hr.seizedFrom_eq
        rw [hr.dsc_eq, hread]
        exact ⟨hr.this_eq, hr.dsc_eq, hr.owed_eq, hr.seizedFrom_eq⟩
  | token token msgSender c =>
      exact Follows.bind (run_token_follows readsDebts_approvals
        (fun _ _ _ => readsDebts_transfer _ _ _ _) c) (fun _ => .pure) hok
  | issueToken token account amount =>
      refine Follows.bind (issueToken_follows fun r v _ hr => ?_) (fun _ => .pure) hok
      have hother : readDebts d.dscEngine d.dsc r
          ⟨token, .erc20 (.Transfer 0 account amount)⟩ = r := if_pos token.property
      rw [hother]
      exact ⟨hr.this_eq, hr.dsc_eq, hr.owed_eq, hr.seizedFrom_eq⟩
  | oracle feed =>
      exact Follows.quiet (P := ReadsDebts d.dscEngine d.dsc id none)
        (t := Tx.store (World.setFeed feed)) (fun _ _ _ h _ hr => by
          cases Tx.store_eq_ok.mp h
          exact ⟨hr.this_eq, hr.dsc_eq, hr.owed_eq, hr.seizedFrom_eq⟩) hok
  | warp timestamp =>
      exact Follows.quiet (P := ReadsDebts d.dscEngine d.dsc id none)
        (t := Tx.store (World.setTimestamp timestamp)) (fun _ _ _ h _ hr => by
          cases Tx.store_eq_ok.mp h
          exact ⟨hr.this_eq, hr.dsc_eq, hr.owed_eq, hr.seizedFrom_eq⟩) hok

/-! ## Liquidations -/

/-- If it tells of redeemed collateral, the event says that `dst` got `amount` of the
`token` that `src` had deposited, and the two accounts differ only if `seizure` holds. -/
def Event.Redeems (seizure : (src dst token : Address) → UInt256 → Prop) : Event → Prop
  | .CollateralRedeemed redeemedFrom redeemedTo token amount =>
      redeemedFrom = redeemedTo ∨ seizure redeemedFrom redeemedTo token amount
  | _ => True

section Redeems

variable {seizure : (src dst token : Address) → UInt256 → Prop} {msgSender token user : Address}
  {amount : UInt256}

theorem callTokenLogged_redeems {f : LogTx ERC20Event ERC20 Revert Bool} :
    Emits (fun e => e.event.Redeems seizure) (callTokenLogged token f) :=
  .zoom fun _ => trivial

theorem callDscLogged_redeems {α : Type} {t : LogTx Event DecentralizedStableCoin Revert α}
    (ht : Emits (Event.Redeems seizure) t) :
    Emits (fun e => e.event.Redeems seizure) (callDscLogged t) :=
  .bind .quiet fun _ => .zoom_of_emits ht

theorem _redeemCollateral_redeems {source recipient : Address}
    (h : source = recipient ∨ seizure source recipient token amount) :
    Emits (fun e => e.event.Redeems seizure)
      (Logged._redeemCollateral LoggedIERC20.standard token amount source recipient) :=
  .bind .quiet fun _ => .bind .quiet fun _ => .bind (.emit h) fun _ =>
    .bind callTokenLogged_redeems fun _ => .quiet

theorem _burnDsc_redeems {onBehalfOf dscFrom : Address} :
    Emits (fun e => e.event.Redeems seizure) (Logged._burnDsc amount onBehalfOf dscFrom) :=
  .bind .quiet fun _ => .bind .quiet fun _ => .bind .quiet fun _ =>
    .bind callTokenLogged_redeems fun _ => .bind .quiet fun _ => callDscLogged_redeems <|
      .bind .quiet fun _ => .bind .quiet fun _ => .bind .quiet fun _ => .bind .quiet fun _ =>
        .zoom fun _ => trivial

theorem depositCollateral_redeems :
    Emits (fun e => e.event.Redeems seizure)
      (Logged.depositCollateral LoggedIERC20.standard msgSender token amount) :=
  .bind .quiet fun _ => .bind .quiet fun _ => .bind .quiet fun _ =>
    .bind (.bind .quiet fun _ => .bind .quiet fun _ => .bind (.emit trivial) fun _ =>
      .bind callTokenLogged_redeems fun _ => .quiet) fun _ => .quiet

theorem redeemCollateral_redeems :
    Emits (fun e => e.event.Redeems seizure)
      (Logged.redeemCollateral LoggedIERC20.standard msgSender token amount) :=
  .bind .quiet fun _ => .bind .quiet fun _ =>
    .bind (.bind (_redeemCollateral_redeems (.inl rfl)) fun _ => .quiet) fun _ => .quiet

theorem mintDsc_redeems :
    Emits (fun e => e.event.Redeems seizure) (Logged.mintDsc msgSender amount) :=
  .bind .quiet fun _ => .bind .quiet fun _ => .bind (.bind .quiet fun _ => .bind .quiet fun _ =>
    .bind .quiet fun _ => .bind (callDscLogged_redeems <| .bind .quiet fun _ =>
      .bind .quiet fun _ => .bind .quiet fun _ => .bind (.zoom fun _ => trivial) fun _ => .pure)
      fun _ => .quiet) fun _ => .quiet

theorem burnDsc_redeems :
    Emits (fun e => e.event.Redeems seizure) (Logged.burnDsc msgSender amount) :=
  .bind .quiet fun _ => .bind _burnDsc_redeems fun _ => .quiet

theorem liquidate_redeems {debtToCover : UInt256} {w w' : World} {log log' : List Log} {u : Unit}
    (hok : Logged.liquidate LoggedIERC20.standard msgSender token user debtToCover (w, log) =
      .ok (u, w', log')) :
    ∃ events, log' = log ++ events ∧ ∀ e ∈ events, e.event.Redeems fun src dst t amount =>
      src = user ∧ dst = msgSender ∧ t = token ∧
        amount.toNat = payout (w.market.price token) debtToCover.toNat := by
  simp only [Logged.liquidate, Logged.nonReentrant, Tx.bind_eq_ok, Prod.exists, quiet_eq_ok,
    moreThanZero_eq_ok, Tx.view_eq_ok, Tx.revertIf_eq_ok] at hok
  obtain ⟨_, v, before, ⟨⟨_, rfl⟩, rfl⟩, _, entered, _, ⟨hbefore, hsilent⟩, _, _, _, hbody, _,
    rfl⟩ := hok
  have hmarket : entered.market = v.market := by
    simp only [_nonReentrantBefore, Tx.bind_eq_ok, Tx.read_eq_ok, Tx.revertIf_eq_ok,
      Tx.store_eq_ok, Prod.mk.injEq] at hbefore
    obtain ⟨_, _, ⟨_, rfl⟩, _, _, ⟨_, rfl⟩, rfl⟩ := hbefore
    rfl
  rw [hsilent] at hbody
  obtain ⟨_, _, _, ⟨⟨_, rfl⟩, rfl⟩, _, _, _, ⟨⟨_, rfl⟩, rfl⟩, equal, _, _, ⟨⟨hequal, rfl⟩, rfl⟩,
    scaled, _, _, ⟨⟨hscaled, rfl⟩, rfl⟩, bonus, _, _, ⟨⟨hbonus, rfl⟩, rfl⟩,
    seized, _, _, ⟨⟨hseized, rfl⟩, rfl⟩, _, _, _, hredeem, _, _, _, hburn, _, _, _,
    ⟨⟨_, rfl⟩, rfl⟩, _, _, _, ⟨⟨_, rfl⟩, rfl⟩, ⟨_, rfl⟩, rfl⟩ := hbody
  obtain ⟨_, hpayout⟩ := payout_eq_ok.mp ⟨equal, hequal, scaled, hscaled, bonus, hbonus, hseized⟩
  rw [hmarket] at hpayout
  have hseizes : Emits (fun e => e.event.Redeems fun src dst t amount =>
      src = user ∧ dst = msgSender ∧ t = token ∧
        amount.toNat = payout (v.market.price token) debtToCover.toNat)
      (Logged._redeemCollateral LoggedIERC20.standard token seized user msgSender) :=
    _redeemCollateral_redeems (.inr ⟨rfl, rfl, rfl, hpayout⟩)
  obtain ⟨events₁, rfl, hevents₁⟩ := hseizes hredeem
  obtain ⟨events₂, rfl, hevents₂⟩ := _burnDsc_redeems hburn
  refine ⟨events₁ ++ events₂, List.append_assoc .., fun e he => ?_⟩
  rcases List.mem_append.mp he with he | he
  · exact hevents₁ e he
  · exact hevents₂ e he

theorem run_redeems {c : DSCEngine.Call} {w w' : World} {log log' : List Log} {u : Unit}
    (hok : Logged.run LoggedIERC20.standard msgSender c (w, log) = .ok (u, w', log')) :
    ∃ events, log' = log ++ events ∧ ∀ e ∈ events, e.event.Redeems fun src dst t amount =>
      dst = msgSender ∧ ∃ debtToCover, c = .liquidate t src debtToCover ∧
        amount.toNat = payout (w.market.price t) debtToCover.toNat := by
  cases c with
  | depositCollateral t a => exact depositCollateral_redeems hok
  | redeemCollateral t a => exact redeemCollateral_redeems hok
  | mintDsc x => exact mintDsc_redeems hok
  | burnDsc x => exact burnDsc_redeems hok
  | liquidate t v x =>
      obtain ⟨events, hlog, hevents⟩ := liquidate_redeems hok
      refine ⟨events, hlog, fun e he => ?_⟩
      have hredeems := hevents e he
      unfold Event.Redeems at hredeems ⊢
      split at hredeems
      · refine hredeems.imp_right fun hseizure => ?_
        obtain ⟨rfl, rfl, rfl, hpayout⟩ := hseizure
        exact ⟨rfl, x, rfl, hpayout⟩
      · trivial
  | depositCollateralAndMintDsc t a x =>
      exact Emits.bind depositCollateral_redeems (fun _ => mintDsc_redeems) hok
  | redeemCollateralForDsc t a x =>
      exact Emits.bind burnDsc_redeems (fun _ => redeemCollateral_redeems) hok

end Redeems

/-- **Collateral that the log says was redeemed from one account to another was seized
in a liquidation**, of an account that was unhealthy then, and it was the payout. -/
theorem liquidated_of_log {d : Deployment} {actions : List (Action d)}
    {address src dst token : Address} {amount : UInt256}
    (h : ⟨address, .CollateralRedeemed src dst token amount⟩ ∈ d.log actions) (hne : src ≠ dst) :
    ∃ before liquidator debtToCover after,
      actions = before ++ .engine liquidator (.liquidate token src debtToCover) :: after ∧
        liquidator.val = dst ∧
        (∃ factor, getHealthFactor src (d.run before) = .ok factor ∧ factor < MIN_HEALTH_FACTOR) ∧
        amount.toNat = payout ((d.run before).market.price token) debtToCover.toNat := by
  obtain ⟨before, a, after, u, w', events, rfl, hok, he⟩ := mem_log h
  by_cases hengine : ∃ liquidator c, a = .engine liquidator c
  · obtain ⟨liquidator, c, rfl⟩ := hengine
    obtain ⟨events', hlog, hevents⟩ := run_redeems hok
    cases List.append_cancel_left hlog
    obtain ⟨rfl, debtToCover, rfl, hpayout⟩ := (hevents _ he).resolve_left hne
    refine ⟨before, liquidator, debtToCover, after, rfl, rfl, ?_, hpayout⟩
    have hquiet := (Action.logged_erases (.engine liquidator _)).eq_ok hok
    obtain ⟨_, hscorable, hunhealthy, _⟩ :=
      (liquidate_standard_eq_ok (sound_run d before).status_eq).mp hquiet
    obtain ⟨factor, hfactor, heq⟩ := exists_healthFactor hscorable
    refine ⟨factor, hfactor, ?_⟩
    rw [BitVec.lt_def, heq, toNat_MIN_HEALTH_FACTOR]
    exact Lending.Terms.scoreOf_lt_threshold.mpr hunhealthy
  · obtain ⟨events', hlog, hevents⟩ :=
      logged_emits (fun liquidator c hcall => hengine ⟨liquidator, c, hcall⟩) hok
    cases List.append_cancel_left hlog
    exact absurd rfl (hevents _ he)

/-- The liquidator pays a tenth of the user's debt when the price of WETH has fallen. -/
def liquidation : List (Action anvil) :=
  crash (1800 * 10 ^ 8) ++ [.engine liquidator (.liquidate weth USER (1000 * 10 ^ 18))]

theorem liquidated_of_log_crash :
    ∃ (before : List (Action anvil)) (account : anvil.Account) (debtToCover : UInt256)
        (after : List (Action anvil)),
      liquidation = before ++ .engine account (.liquidate weth USER debtToCover) :: after ∧
        account.val = liquidator.val ∧
        (∃ factor, getHealthFactor USER (anvil.run before) = .ok factor ∧
          factor < MIN_HEALTH_FACTOR) ∧
        (611111111111111110 : UInt256).toNat =
          payout ((anvil.run before).market.price weth) debtToCover.toNat :=
  liquidated_of_log
    (show ⟨anvil.dscEngine, .CollateralRedeemed USER liquidator weth 611111111111111110⟩ ∈
      anvil.log liquidation by decide +kernel) (by decide)

end DefiStablecoin
