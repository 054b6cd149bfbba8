import DefiStablecoin.Properties.Causes
import DefiStablecoin.Properties.WindDown
import DefiStablecoin.System.Network

/-!
# The engine is a lending protocol

The books that users of the deployed system reach without losing stablecoins are exactly
those that the lending protocol reaches, where every operation finds usable prices and
room for what it adds.  In one direction every call that returns is made of allowed
operations.  In the other, whoever may perform an operation can be given the tokens for
it, and the engine then performs it.
-/

namespace DefiStablecoin

open Solidity OpenZeppelin DSCEngine World Lending

/-! ## The same prices at another time -/

namespace Market

/-- The same answers, all of them given at `timestamp`. -/
def restamp (m : Market) (timestamp : UInt256) : Market where
  s_priceFeeds := m.s_priceFeeds
  s_collateralTokens := m.s_collateralTokens
  feed f := (m.feed f).map fun round => { round with updatedAt := timestamp }
  timestamp := timestamp

variable {m : Market} {t u : Address} {b : Book Address Address}

theorem price_restamp (m : Market) (timestamp : UInt256) :
    (m.restamp timestamp).price = m.price := by
  funext t
  exact Option.elim_map ..

theorem terms_restamp (m : Market) (timestamp : UInt256) :
    (m.restamp timestamp).terms = m.terms := by
  unfold terms
  rw [price_restamp]
  rfl

theorem Quoted.restamp (h : m.Quoted t) (timestamp : UInt256) :
    (m.restamp timestamp).Quoted t := by
  obtain ⟨round, hfeed, _, hfits⟩ := h
  refine ⟨{ round with updatedAt := timestamp }, ?_, ⟨le_rfl, ?_⟩, ?_⟩
  · exact congrArg (Option.map fun round => { round with updatedAt := timestamp }) hfeed
  · exact (Nat.sub_self _).trans_le (Nat.zero_le _)
  · rwa [price_restamp]

theorem Payable.restamp {x : ℕ} (h : m.Payable t x) (timestamp : UInt256) :
    (m.restamp timestamp).Payable t x := by
  unfold Payable
  rw [price_restamp]
  exact ⟨h.1.restamp timestamp, h.2⟩

theorem Scorable.restamp (h : m.Scorable b u) (timestamp : UInt256) :
    (m.restamp timestamp).Scorable b u := by
  unfold Scorable Valued
  rw [price_restamp, terms_restamp]
  exact ⟨⟨fun t ht => ⟨(h.1.1 t ht).1.restamp timestamp, (h.1.1 t ht).2⟩, h.1.2⟩, h.2⟩

end Market

namespace Deployment

variable {d : Deployment} {w w' : World} {a : Action d} {m : Market} {c : Address}
  {op : Op Address Address} {b b' : Book Address Address}

/-! ## What the engine asks for besides the rules of the protocol -/

/-- The prices can be used, and what is added fits a word. -/
def Room (d : Deployment) (m : Market) (c : Address) :
    Op Address Address → Book Address Address → Prop
  | .deposit t a, b =>
      m.s_priceFeeds t ≠ 0 ∧ d.stuck t d.genesis + ∑ u, b.collateral u t + a < 2 ^ 256
  | .withdraw t a, b => m.Scorable (b.withdraw c t a) c
  | .borrow x, b => m.Scorable (b.borrow c x) c ∧ ∑ u, b.debt u + x < 2 ^ 256
  | .repay x, b => m.Scorable (b.repay c x) c
  | .liquidate target t seized x, b =>
      m.Scorable b target ∧ m.Payable t x ∧ seized = payout (m.price t) x ∧
        m.Scorable ((b.withdraw target t seized).repay target x) target ∧
        m.Scorable ((b.withdraw target t seized).repay target x) c

/-- A user performs an operation of a positive amount at prices of the deployed registry. -/
structure Admits (d : Deployment) (m : Market) (c : Address) (op : Op Address Address)
    (b : Book Address Address) : Prop where
  priceFeeds_eq : m.s_priceFeeds = d.genesis.s_priceFeeds
  collateralTokens_eq : m.s_collateralTokens = d.s_tokenAddresses
  answerable : d.Answerable m.feed
  user : d.IsUser c
  positive : 0 < op.amount
  room : d.Room m c op b

/-- The books of the lending protocol at the prices of any markets. -/
abbrev Reached (d : Deployment) : Book Address Address → Prop :=
  Lending.Reached Market.terms d.Admits

theorem Answerable.restamp (h : d.Answerable m.feed) (timestamp : UInt256) :
    d.Answerable (m.restamp timestamp).feed := by
  obtain ⟨hzero, hdsc, hengine, htokens⟩ := h
  simpa [Answerable, Market.restamp, hzero, hdsc, hengine] using htokens

/-- Only the answers matter, not when they were given, as long as they are fresh. -/
theorem Admits.restamp (h : d.Admits m c op b) (timestamp : UInt256) :
    d.Admits (m.restamp timestamp) c op b where
  priceFeeds_eq := h.priceFeeds_eq
  collateralTokens_eq := h.collateralTokens_eq
  answerable := h.answerable.restamp timestamp
  user := h.user
  positive := h.positive
  room := by
    have hroom := h.room
    cases op with
    | deposit t a => exact hroom
    | withdraw t a => exact Market.Scorable.restamp hroom timestamp
    | borrow x => exact ⟨hroom.1.restamp timestamp, hroom.2⟩
    | repay x => exact Market.Scorable.restamp hroom timestamp
    | liquidate target t seized x =>
        obtain ⟨hscore, hpayable, hseized, hscoreTarget, hscoreCaller⟩ := hroom
        refine ⟨hscore.restamp timestamp, hpayable.restamp timestamp, ?_,
          hscoreTarget.restamp timestamp, hscoreCaller.restamp timestamp⟩
        rw [Market.price_restamp]
        exact hseized

/-! ## Every call is made of allowed operations -/

/-- What holds as long as users act and burn nothing behind the engine's back. -/
structure Unburned (d : Deployment) (w : World) : Prop where
  sound : d.Sound w
  idle : ∀ t, d.Idle t w
  stuck_ge : ∀ t, d.stuck t d.genesis + w.deposits t ≤ d.stuck t w
  debts_eq : w.debts = w.supply
  answerable : d.Answerable w.feed

theorem room_of_liquidate {msgSender : d.Account} {token user : Address} {amount : UInt256}
    (h : d.Sound w)
    (hok : liquidate IERC20.standard msgSender token user amount w = .ok ((), w')) :
    0 < amount.toNat ∧ d.Room w.market msgSender
      (.liquidate user token (payout (w.market.price token) amount.toNat) amount.toNat) w.book := by
  obtain ⟨hpos, hscore, _, hpayable, seized, hseized, hcover, _, hrepay, hscoreUser, _,
    hscoreCaller, _⟩ := (liquidate_standard_eq_ok h.status_eq).mp hok
  have hbook := book_of_liquidated msgSender.val hcover hrepay.1
  rw [hbook, hseized] at hscoreUser hscoreCaller
  exact ⟨toNat_pos_of_ne_zero hpos, hscore, hpayable, rfl, hscoreUser, hscoreCaller⟩

namespace Unburned

theorem genesis (hidle : ∀ t, d.Idle t d.genesis) (hfeed : d.Answerable d.feed) :
    d.Unburned d.genesis where
  sound := sound_genesis
  idle := hidle
  stuck_ge t := by rw [deposits_genesis, Nat.add_zero]
  debts_eq := by rw [debts_genesis, supply_genesis]
  answerable := hfeed

theorem step (h : d.Unburned w) (ha : Feasible w a) (hburns : whenReturns burns w a = 0) :
    d.Unburned (d.step w a) where
  sound := sound_step h.sound a
  idle t := idle_step h.sound ha.byUser (h.idle t)
  stuck_ge t := by
    have hbalance := stuck_step h.sound ha.byUser (h.idle t)
    have hstuck := h.stuck_ge t
    omega
  debts_eq := by
    have hbalance := (balance_step h.sound a 0).2
    have hdebts := h.debts_eq
    omega
  answerable := by
    by_cases horacle : ∃ feed, a = .oracle feed
    · obtain ⟨feed, rfl⟩ := horacle
      exact ha
    · rw [feed_step (not_exists.mp horacle)]
      exact h.answerable

theorem step_engine {msgSender : d.Account} (h : d.Unburned w) (huser : d.IsUser msgSender)
    (call : DSCEngine.Call) : d.Unburned (d.step w (.engine msgSender call)) :=
  h.step ((quiet_engine huser call).feasible w) (whenReturns_eq_zero rfl)

theorem admits_of_run {msgSender : d.Account} {call : DSCEngine.Call} (h : d.Unburned w)
    (huser : d.IsUser msgSender) (hops : call.ops w.market = [op])
    (hok : call.run IERC20.standard msgSender w = .ok ((), w')) :
    d.Admits w.market msgSender op w.book := by
  have hstatus := h.sound.status_eq
  suffices hroom : 0 < op.amount ∧ d.Room w.market msgSender op w.book from
    ⟨h.sound.priceFeeds_eq, h.sound.collateralTokens_eq, h.answerable, huser, hroom.1, hroom.2⟩
  cases call with
  | depositCollateral t a =>
      cases hops
      obtain ⟨hpos, hallowed, _, hcollect, _⟩ := (depositCollateral_standard_eq_ok hstatus).mp hok
      refine ⟨toNat_pos_of_ne_zero hpos, hallowed, ?_⟩
      have hstock := stuck_add_balance_le h.sound huser.not_mem t
      have hbalance := hcollect.2.2.2
      have hfits := (w.token t)._totalSupply.isLt
      have hstuck : d.stuck t d.genesis + ∑ u, w.book.collateral u t ≤ d.stuck t w := h.stuck_ge t
      omega
  | redeemCollateral t a =>
      cases hops
      obtain ⟨hpos, hcover, _, hscore, _⟩ := (redeemCollateral_standard_eq_ok hstatus).mp hok
      have hbook : (redeemed msgSender msgSender t a w).book =
          w.book.withdraw msgSender.val t a.toNat := book_debit hcover
      rw [hbook] at hscore
      exact ⟨toNat_pos_of_ne_zero hpos, hscore⟩
  | mintDsc x =>
      cases hops
      obtain ⟨hpos, hfits, hscore, _, hissue, _⟩ := (mintDsc_open_eq_ok hstatus).mp hok
      have hbook : (minted msgSender x w).book = w.book.borrow msgSender.val x.toNat :=
        book_lend hfits
      rw [hbook] at hscore
      have hsupply : w.debts + x.toNat < 2 ^ 256 := h.debts_eq ▸ hissue.2.2.2
      exact ⟨toNat_pos_of_ne_zero hpos, hscore, hsupply⟩
  | burnDsc x =>
      cases hops
      obtain ⟨hpos, hrepay, hscore, _⟩ := burnDsc_eq_ok.mp hok
      rw [book_forgive hrepay.1] at hscore
      exact ⟨toNat_pos_of_ne_zero hpos, hscore⟩
  | liquidate t user x =>
      cases hops
      exact room_of_liquidate h.sound hok
  | depositCollateralAndMintDsc t a x => cases hops
  | redeemCollateralForDsc t a x => cases hops

theorem reached_of_runAll {msgSender : d.Account} {cs : List DSCEngine.Call}
    (h : d.Unburned w) (huser : d.IsUser msgSender) (hparts : ∀ p ∈ cs, p.parts = [p])
    (hreached : d.Reached w.book)
    (hok : Call.runAll IERC20.standard msgSender cs w = .ok ((), w')) : d.Reached w'.book := by
  induction cs generalizing w with
  | nil =>
      cases hok
      exact hreached
  | cons p rest ih =>
      obtain ⟨_, w₁, hfirst, hrest⟩ := Tx.bind_eq_ok.mp hok
      have hnext : d.step w (.engine msgSender p) = w₁ := Tx.attempt_of_ok hfirst
      obtain ⟨op, hops⟩ := Call.ops_of_parts (hparts p (List.mem_cons_self ..)) w.market
      obtain ⟨_, hsteps⟩ := run_refines hfirst
      rw [hops] at hsteps
      cases hsteps with
      | cons hstep htail =>
          cases htail
          have hreached₁ := hreached.step (h.admits_of_run huser hops hfirst) hstep
          exact ih (hnext ▸ h.step_engine huser p)
            (fun p hp => hparts p (List.mem_cons_of_mem _ hp)) hreached₁ hrest

theorem reached_step (h : d.Unburned w) (ha : Feasible w a) (hreached : d.Reached w.book) :
    d.Reached (d.step w a).book := by
  rcases Tx.attempt_cases a.tx w with ⟨_, hok⟩ | ⟨_, hsame⟩
  · obtain ⟨msgSender, call, rfl⟩ | hbook := book_tx h.sound hok
    · have hrun : Call.runAll IERC20.standard msgSender call.parts w =
          .ok ((), d.step w (.engine msgSender call)) := by
        rw [← Call.run_eq_runAll]
        exact hok
      have huser : d.IsUser msgSender := ha.byUser msgSender rfl
      exact h.reached_of_runAll huser (fun p hp => Call.parts_of_mem hp) hreached hrun
    · exact hbook.symm ▸ hreached
  · rw [Deployment.step, hsame]
    exact hreached

end Unburned

/-- What users reach without burning any stablecoins, the protocol reaches. -/
theorem reached_of_run {actions : List (Action d)} (hidle : ∀ t, d.Idle t d.genesis)
    (hfeed : d.Answerable d.feed) (hfeasible : Machine.Along d.step Feasible d.genesis actions)
    (hburned : d.burnedDirectly actions = 0) : d.Reached (d.run actions).book := by
  have hnone := Machine.charge_eq_zero.mp hburned
  exact (Machine.run_invariant_along (I := fun w => d.Unburned w ∧ d.Reached w.book)
    (fun _ _ h ha => ⟨h.1.step ha.1 ha.2, h.1.reached_step ha.1 h.2⟩)
    ⟨.genesis hidle hfeed, .empty⟩ (hfeasible.and hnone)).2

/-! ## Every allowed operation can be performed -/

/-- A state that actions reach of which none loses any tokens. -/
def Lossless (d : Deployment) (w : World) : Prop := Machine.Leads d.step Quiet d.genesis w

theorem charge_whenReturns_eq_zero {cost : Action d → ℕ} {actions : List (Action d)}
    (h : ∀ a ∈ actions, cost a = 0) (w : World) :
    Machine.charge d.step (whenReturns cost) w actions = 0 :=
  Machine.charge_eq_zero.mpr
    (Machine.along_of_forall_mem fun a ha _ => whenReturns_eq_zero (h a ha))

theorem stranded_of_quiet {actions : List (Action d)} (h : ∀ a ∈ actions, Quiet a) :
    d.stranded actions = 0 := by
  unfold stranded burnedDirectly sentToContracts
  rw [stuck_dsc_genesis, charge_whenReturns_eq_zero (fun a ha => (h a ha).burns),
    charge_whenReturns_eq_zero fun a ha => (h a ha).sendsToContracts d.dsc]

namespace Lossless

theorem leads (h : d.Lossless w) (hlead : Machine.Leads d.step Quiet w w') : d.Lossless w' :=
  h.trans hlead

theorem sound (h : d.Lossless w) : d.Sound w := by
  obtain ⟨actions, _, rfl⟩ := h
  exact d.sound_run actions

theorem stuck_eq (h : d.Lossless w) {t : Address} (hidle : d.Idle t d.genesis) :
    d.stuck t w = w.deposits t + d.stuck t d.genesis := by
  obtain ⟨actions, hquiet, rfl⟩ := h
  have hstuck := stuck_run (fun a ha => (hquiet a ha).byUser) hidle
  unfold sentToContracts at hstuck
  rwa [charge_whenReturns_eq_zero fun a ha => (hquiet a ha).sendsToContracts t] at hstuck

theorem balanced (h : d.Lossless w) : d.Balanced w := by
  obtain ⟨actions, hquiet, rfl⟩ := h
  have husers : ∀ a ∈ actions, ByUser a := fun a ha => (hquiet a ha).byUser
  obtain ⟨hburned, hsent⟩ := Nat.add_eq_zero_iff.mp (stranded_of_quiet hquiet)
  refine ⟨⟨actions, husers, rfl⟩, ?_, (stuck_dsc_run husers).trans hsent⟩
  have hdebts := d.debts_run actions
  rwa [hburned, Nat.add_zero] at hdebts

end Lossless

theorem leads_market (h : d.Sound w) (hfeeds : m.s_priceFeeds = d.genesis.s_priceFeeds)
    (htokens : m.s_collateralTokens = d.s_tokenAddresses) (hanswerable : d.Answerable m.feed) :
    ∃ w', Machine.Leads d.step Quiet w w' ∧ w'.market = m.restamp w.timestamp ∧
      w'.book = w.book := by
  let feed := (m.restamp w.timestamp).feed
  have hquiet : Quiet (d := d) (.oracle feed) :=
    ⟨fun _ => hanswerable.restamp w.timestamp, fun _ _ _ => rfl, rfl⟩
  refine ⟨d.step w (.oracle feed), .single hquiet, ?_, rfl⟩
  change Market.mk w.s_priceFeeds w.s_collateralTokens feed w.timestamp = _
  rw [h.priceFeeds_eq, h.collateralTokens_eq, ← hfeeds, ← htokens]
  rfl

theorem provide (h : d.Sound w) (t : d.Token) (account : d.Account) (huser : d.IsUser account)
    {amount : UInt256} (hroom : d.stuck t w + amount.toNat < 2 ^ 256) :
    ∃ k, Machine.Leads d.step Quiet w (w.setToken t k) ∧
      amount.toNat ≤ (k._balances account).toNat ∧ k._allowances account d.dscEngine = amount := by
  by_cases hcover : d.stuck t w + amount.toNat ≤ (w.token t)._totalSupply.toNat
  · obtain ⟨k, hlead, hfunded⟩ := fund t h account huser hcover
    exact ⟨k, hlead.mono fun _ => Passing.quiet, hfunded⟩
  -- what is short is issued first
  have hshort : d.stuck t w + amount.toNat - (w.token t)._totalSupply.toNat < 2 ^ 256 := by omega
  let short : UInt256 := BitVec.ofNatLT _ hshort
  have hsum : (w.token t)._totalSupply.toNat + short.toNat = d.stuck t w + amount.toNat := by
    rw [BitVec.toNat_ofNatLT]
    omega
  let k₀ := (w.token t).issue account short
  have hstep : d.step w (.issueToken t account short) = w.setToken t k₀ :=
    Tx.attempt_of_ok (tx_issueToken_eq_ok (u := ()).mpr ⟨huser.ne_zero, by omega, rfl⟩)
  have hquiet : Quiet (d := d) (.issueToken t account short) := by
    refine ⟨fun _ => nofun, fun t' x hx => ?_, rfl⟩
    simp [sendsTo, ne_of_mem_of_not_mem hx huser.not_mem |>.symm]
  have hstuck : d.stuck t (w.setToken t k₀) = d.stuck t w := by
    apply Finset.sum_congr rfl
    intro x hx
    rw [setToken_token_self]
    simp [k₀, ERC20.issue, ne_of_mem_of_not_mem hx huser.not_mem]
  have hsupply : ((w.setToken t k₀).token t)._totalSupply.toNat = d.stuck t w + amount.toNat := by
    rw [setToken_token_self, ← hsum]
    exact BitVec.toNat_add_of_lt (by omega)
  obtain ⟨k, hlead, hfunded⟩ := fund (t : Address) (hstep ▸ sound_step h _) account huser
    (hstuck.symm ▸ hsupply.ge)
  rw [setToken_setToken] at hlead
  have hissue : Machine.Leads d.step Quiet w (w.setToken t k₀) := hstep ▸ .single hquiet
  exact ⟨k, hissue.trans (hlead.mono fun _ => Passing.quiet), hfunded⟩

theorem leads_of_returns {msgSender : d.Account} (huser : d.IsUser msgSender)
    (call : DSCEngine.Call) (hops : call.ops w.market = [op])
    (hok : Tx.Returns (call.run IERC20.standard msgSender) w) :
    ∃ w', Machine.Leads d.step Quiet w w' ∧ w'.book = op.apply msgSender.val w.book := by
  have hrun := hok.eq_ok
  obtain ⟨_, hsteps⟩ := run_refines hrun
  rw [hops] at hsteps
  cases hsteps with
  | cons hstep htail =>
      cases htail
      exact ⟨d.step w (.engine msgSender call), .single (quiet_engine huser call),
        hstep.eq_apply⟩

section Operations

variable (account : d.Account) {t target : Address} {a x : ℕ}

theorem leads_deposit (h : d.Lossless w) (hidle : d.Idle t d.genesis)
    (hadmits : d.Admits w.market account (.deposit t a) w.book) :
    ∃ w', Machine.Leads d.step Quiet w w' ∧ w'.book = w.book.deposit account.val t a := by
  obtain ⟨hallowed, hfits⟩ := hadmits.room
  have hsound := h.sound
  let amount : UInt256 := BitVec.ofNatLT a (by omega)
  have hamount : amount.toNat = a := BitVec.toNat_ofNatLT ..
  have hne : t ≠ d.dsc := hsound.dsc_eq ▸ ne_dsc_of_priceFeed hsound hallowed
  have hdeposits : w.deposits t = ∑ u, w.book.collateral u t := rfl
  have hroom : d.stuck t w + amount.toNat < 2 ^ 256 := by
    rw [h.stuck_eq hidle, hamount]
    omega
  obtain ⟨k, hlead, hbalance, hallowance⟩ := provide hsound ⟨t, hne⟩ account hadmits.user hroom
  have hfunded : d.Sound (w.setToken t k) := (h.leads hlead).sound
  have hcollect : (w.setToken t k).CanCollect t (w.setToken t k).this account amount := by
    have hthis : (w.setToken t k).this = d.dscEngine := hsound.this_eq
    unfold CanCollect
    rw [hthis, setToken_token_self]
    have hspend := (congrArg BitVec.toNat hallowance).ge
    exact ⟨.inr ⟨hspend, hadmits.user.ne_zero, d.dscEngine_ne_zero⟩, hadmits.user.ne_zero,
      d.dscEngine_ne_zero, hbalance⟩
  have hcredit : (w.s_collateralDeposited account t).toNat + amount.toNat < 2 ^ 256 := by
    have hle := w.collateral_le_deposits account t
    omega
  have hok : Tx.Returns (depositCollateral IERC20.standard account t amount) (w.setToken t k) :=
    ⟨_, (depositCollateral_standard_eq_ok hfunded.status_eq).mpr
      ⟨ne_zero_of_toNat_pos (hamount ▸ hadmits.positive), hallowed, hcredit, hcollect, rfl⟩⟩
  obtain ⟨w', hlead', hbook⟩ := leads_of_returns hadmits.user (.depositCollateral t amount) rfl hok
  rw [hamount] at hbook
  exact ⟨w', hlead.trans hlead', hbook⟩

theorem leads_withdraw (h : d.Lossless w)
    (hadmits : d.Admits w.market account (.withdraw t a) w.book)
    (hcover : a ≤ w.book.collateral account t)
    (hcaller : w.market.terms.Healthy (w.book.withdraw account.val t a) account) :
    ∃ w', Machine.Leads d.step Quiet w w' ∧ w'.book = w.book.withdraw account.val t a := by
  let amount : UInt256 := BitVec.ofNatLT a (hcover.trans_lt (BitVec.isLt _))
  have hamount : amount.toNat = a := BitVec.toNat_ofNatLT ..
  have hcovered : amount.toNat ≤ (w.s_collateralDeposited account t).toNat := hamount ▸ hcover
  have hheld := h.balanced.collateral_le_holdings account t
  have hbook : (redeemed account account t amount w).book = w.book.withdraw account.val t a :=
    hamount ▸ book_debit hcovered
  have hscore : w.market.Scorable (w.book.withdraw account.val t a) account := hadmits.room
  rw [← hbook] at hscore hcaller
  have hok : Tx.Returns (redeemCollateral IERC20.standard account t amount) w :=
    ⟨_, (redeemCollateral_standard_eq_ok h.sound.status_eq).mpr
      ⟨ne_zero_of_toNat_pos (hamount ▸ hadmits.positive), hcovered,
        ⟨h.sound.this_ne_zero, hadmits.user.ne_zero, hcovered.trans hheld⟩, hscore, hcaller, rfl⟩⟩
  obtain ⟨w', hlead, hbook'⟩ := leads_of_returns hadmits.user (.redeemCollateral t amount) rfl hok
  rw [hamount] at hbook'
  exact ⟨w', hlead, hbook'⟩

theorem leads_borrow (h : d.Lossless w)
    (hadmits : d.Admits w.market account (.borrow x) w.book)
    (hcaller : w.market.terms.Healthy (w.book.borrow account.val x) account) :
    ∃ w', Machine.Leads d.step Quiet w w' ∧ w'.book = w.book.borrow account.val x := by
  obtain ⟨hscore, hroom⟩ := hadmits.room
  let amount : UInt256 := BitVec.ofNatLT x (by omega)
  have hamount : amount.toNat = x := BitVec.toNat_ofNatLT ..
  have hdebts : w.debts = ∑ u, w.book.debt u := rfl
  have hsupply : w.supply + amount.toNat < 2 ^ 256 := by
    rw [← h.balanced.debts_eq, hamount]
    exact hroom
  have hfits : (w.s_DSCMinted account).toNat + amount.toNat < 2 ^ 256 := by
    have hle := toNat_le_total w.s_DSCMinted account
    have htotal : total w.s_DSCMinted = ∑ u, w.book.debt u := rfl
    omega
  have hbook : (minted account amount w).book = w.book.borrow account.val x :=
    hamount ▸ book_lend hfits
  rw [← hbook] at hscore hcaller
  have hpos := ne_zero_of_toNat_pos (hamount ▸ hadmits.positive)
  have hok : Tx.Returns (mintDsc account amount) w :=
    ⟨_, (mintDsc_open_eq_ok h.sound.status_eq).mpr
      ⟨hpos, hfits, hscore, hcaller, ⟨h.sound.owner_this, hadmits.user.ne_zero, hpos, hsupply⟩,
        rfl⟩⟩
  obtain ⟨w', hlead, hbook'⟩ := leads_of_returns hadmits.user (.mintDsc amount) rfl hok
  rw [hamount] at hbook'
  exact ⟨w', hlead, hbook'⟩

theorem leads_fund (target : Address) (h : d.Lossless w) (huser : d.IsUser account)
    {amount : UInt256} (howed : amount.toNat ≤ (w.s_DSCMinted target).toNat) :
    ∃ w', Machine.Leads d.step Quiet w w' ∧ w'.book = w.book ∧ w'.market = w.market ∧
      amount.toNat ≤ ((w'.token w'.i_dsc)._balances account).toNat ∧
      amount.toNat ≤ ((w'.token w'.i_dsc)._allowances account w'.this).toNat := by
  have hdebt := h.balanced.debt_le target
  obtain ⟨k, hlead, hbalance, hallowance⟩ := fund d.dsc h.sound account huser
    (show d.stuck d.dsc w + amount.toNat ≤ _ by omega)
  have hdsc : (w.setToken d.dsc k).token (w.setToken d.dsc k).i_dsc = k := by
    rw [show (w.setToken d.dsc k).i_dsc = d.dsc from h.sound.dsc_eq, setToken_token_self]
  have hthis : (w.setToken d.dsc k).this = d.dscEngine := h.sound.this_eq
  refine ⟨_, hlead.mono fun _ => Passing.quiet, book_setToken .., market_setToken .., ?_, ?_⟩
  · rw [hdsc]
    exact hbalance
  · rw [hdsc, hthis, hallowance]

theorem leads_repay (h : d.Lossless w) (hadmits : d.Admits w.market account (.repay x) w.book)
    (howed : x ≤ w.book.debt account)
    (hcaller : w.market.terms.Healthy (w.book.repay account.val x) account) :
    ∃ w', Machine.Leads d.step Quiet w w' ∧ w'.book = w.book.repay account.val x := by
  let amount : UInt256 := BitVec.ofNatLT x (howed.trans_lt (BitVec.isLt _))
  have hamount : amount.toNat = x := BitVec.toNat_ofNatLT ..
  have howes : amount.toNat ≤ (w.s_DSCMinted account).toNat := hamount ▸ howed
  obtain ⟨w₁, hlead, hbook₁, hmarket₁, hbalance, hallowance⟩ :=
    leads_fund account account h hadmits.user howes
  have hsound := (h.leads hlead).sound
  have howes₁ : amount.toNat ≤ (w₁.s_DSCMinted account).toNat :=
    howes.trans_eq (congrFun (congrArg Book.debt hbook₁) account.val).symm
  have hpos := ne_zero_of_toNat_pos (hamount ▸ hadmits.positive)
  have hrepay := hsound.tokens.canRepay hsound.owner_this hsound.this_ne_zero hpos howes₁ hbalance
    hallowance
  have hbook : (w₁.forgive account amount).book = w.book.repay account.val x := by
    rw [book_forgive howes₁, hbook₁, hamount]
  have hscore : w.market.Scorable (w.book.repay account.val x) account := hadmits.room
  rw [← hbook, ← hmarket₁] at hscore hcaller
  have hok : Tx.Returns (burnDsc account amount) w₁ :=
    ⟨((), _), burnDsc_eq_ok.mpr ⟨hpos, hrepay, hscore, hcaller, rfl⟩⟩
  obtain ⟨w', hlead', hbook'⟩ := leads_of_returns hadmits.user (.burnDsc amount) rfl hok
  rw [hamount, hbook₁] at hbook'
  exact ⟨w', hlead.trans hlead', hbook'⟩

theorem liquidate_returns (h : d.Lossless w) (hne : account.val ≠ 0) {amount seized : UInt256}
    (hpos : amount ≠ 0) (hscore : w.market.Scorable w.book target)
    (hpayable : w.market.Payable t amount.toNat)
    (hseized : seized.toNat = payout (w.market.price t) amount.toNat)
    (hscoreTarget : w.market.Scorable
      ((w.book.withdraw target t seized.toNat).repay target amount.toNat) target)
    (hscoreCaller : w.market.Scorable
      ((w.book.withdraw target t seized.toNat).repay target amount.toNat) account)
    (hbalance : amount.toNat ≤ ((w.token w.i_dsc)._balances account).toNat)
    (hallowance : amount.toNat ≤ ((w.token w.i_dsc)._allowances account w.this).toNat)
    (hstep : Step w.market.terms account.val (.liquidate target t seized.toNat amount.toNat)
      w.book b') :
    Tx.Returns (liquidate IERC20.standard account t target amount) w := by
  have hsound := h.sound
  cases hstep with
  | liquidate hcover howed hbefore hrise hcaller =>
      have hpay : w.CanPay t w.this account seized :=
        ⟨hsound.this_ne_zero, hne, hcover.trans (h.balanced.collateral_le_holdings target t)⟩
      have hdsc : (redeemed target account t seized w).token w.i_dsc = w.token w.i_dsc :=
        token_dsc_seized (dsc_deposited hsound target) hcover
      have htokens : (redeemed target account t seized w).TokensSound :=
        TokensSound.redeemed hsound.tokens hpay
      have hrepay : CanRepay target account amount (redeemed target account t seized w) := by
        refine htokens.canRepay hsound.owner_this hsound.this_ne_zero hpos howed ?_ ?_
        · exact hbalance.trans_eq (congrArg (fun k => (k._balances account).toNat) hdsc).symm
        · exact hallowance.trans_eq
            (congrArg (fun k => (k._allowances account w.this).toNat) hdsc).symm
      have hbook := book_of_liquidated account.val hcover howed
      rw [← hbook] at hscoreTarget hscoreCaller hrise hcaller
      exact ⟨_, (liquidate_standard_eq_ok hsound.status_eq).mpr ⟨hpos, hscore, hbefore, hpayable,
        seized, hseized, hcover, hpay, hrepay, hscoreTarget, hrise, hscoreCaller, hcaller, rfl⟩⟩

theorem leads_liquidate (h : d.Lossless w) {seized : ℕ}
    (hadmits : d.Admits w.market account (.liquidate target t seized x) w.book)
    (hstep : Step w.market.terms account.val (.liquidate target t seized x) w.book b') :
    ∃ w', Machine.Leads d.step Quiet w w' ∧
      w'.book = (w.book.withdraw target t seized).repay target x := by
  obtain ⟨hscore, hpayable, hseized, hscoreTarget, hscoreCaller⟩ := hadmits.room
  obtain ⟨hcover, howed⟩ : seized ≤ w.book.collateral target t ∧ x ≤ w.book.debt target := by
    cases hstep with
    | liquidate hcover howed => exact ⟨hcover, howed⟩
  let amount : UInt256 := BitVec.ofNatLT x (howed.trans_lt (BitVec.isLt _))
  let payment : UInt256 := BitVec.ofNatLT seized (hcover.trans_lt (BitVec.isLt _))
  have hamount : amount.toNat = x := BitVec.toNat_ofNatLT ..
  have hpayment : payment.toNat = seized := BitVec.toNat_ofNatLT ..
  obtain ⟨w₁, hlead, hbook₁, hmarket₁, hbalance, hallowance⟩ :=
    leads_fund account target h hadmits.user (hamount.trans_le howed)
  have hpos := ne_zero_of_toNat_pos (hamount ▸ hadmits.positive)
  rw [← hamount] at hpayable hseized hscoreTarget hscoreCaller hstep
  rw [← hpayment] at hseized hscoreTarget hscoreCaller hstep
  rw [← hbook₁, ← hmarket₁] at hscore hscoreTarget hscoreCaller hstep
  rw [← hmarket₁] at hpayable hseized
  have hok := liquidate_returns account (h.leads hlead) hadmits.user.ne_zero hpos hscore hpayable
    hseized hscoreTarget hscoreCaller hbalance hallowance hstep
  have hops : DSCEngine.Call.ops w₁.market (.liquidate t target amount) =
      [.liquidate target t payment.toNat amount.toNat] := by
    rw [hseized]
    rfl
  obtain ⟨w', hlead', hbook'⟩ := leads_of_returns hadmits.user (.liquidate t target amount) hops hok
  rw [hamount, hpayment, hbook₁] at hbook'
  exact ⟨w', hlead.trans hlead', hbook'⟩

end Operations

/-- **Every operation that the protocol allows and the system has room for can be performed.** -/
theorem leads_of_step (h : d.Lossless w) (hidle : ∀ t, d.Idle t d.genesis)
    (hadmits : d.Admits m c op w.book) (hstep : Step m.terms c op w.book b') :
    ∃ w', Machine.Leads d.step Quiet w w' ∧ w'.book = b' := by
  obtain ⟨w₁, hlead, hmarket, hbook⟩ :=
    leads_market h.sound hadmits.priceFeeds_eq hadmits.collateralTokens_eq hadmits.answerable
  have h₁ := h.leads hlead
  replace hadmits := hadmits.restamp w.timestamp
  rw [← hmarket, ← hbook] at hadmits
  rw [← m.terms_restamp w.timestamp, ← hmarket, ← hbook] at hstep
  let account : d.Account := ⟨c, hadmits.user.ne_engine⟩
  have hperform : ∃ w', Machine.Leads d.step Quiet w₁ w' ∧ w'.book = b' := by
    cases hstep with
    | deposit t a => exact leads_deposit account h₁ (hidle t) hadmits
    | withdraw hcover hcaller => exact leads_withdraw account h₁ hadmits hcover hcaller
    | borrow hcaller => exact leads_borrow account h₁ hadmits hcaller
    | repay howed hcaller => exact leads_repay account h₁ hadmits howed hcaller
    | liquidate hcover howed hbefore hrise hcaller =>
        exact leads_liquidate account h₁ hadmits (.liquidate hcover howed hbefore hrise hcaller)
  obtain ⟨w', hlead', hbook'⟩ := hperform
  exact ⟨w', hlead.trans hlead', hbook'⟩

/-- **The engine is the lending protocol.** Where no contract has approved anybody and only
feeds give prices when the system is deployed, the books that users reach without losing
any stablecoins are those that the protocol reaches at the prices of any markets, where
every operation finds usable prices and room. -/
theorem books_iff (d : Deployment) (hidle : ∀ t, d.Idle t d.genesis)
    (hfeed : d.Answerable d.feed) (b : Book Address Address) :
    (∃ actions, Machine.Along d.step Feasible d.genesis actions ∧ d.stranded actions = 0 ∧
      (d.run actions).book = b) ↔ d.Reached b := by
  constructor
  · rintro ⟨actions, hfeasible, hstranded, rfl⟩
    exact reached_of_run hidle hfeed hfeasible (Nat.add_eq_zero_iff.mp hstranded).1
  · intro hreached
    have hworld : ∃ w, d.Lossless w ∧ w.book = b := by
      induction hreached with
      | empty => exact ⟨d.genesis, .refl _, rfl⟩
      | step _ hadmits hstep ih =>
          obtain ⟨w, hw, rfl⟩ := ih
          obtain ⟨w', hlead, hbook⟩ := leads_of_step hw hidle hadmits hstep
          exact ⟨w', hw.leads hlead, hbook⟩
    obtain ⟨_, ⟨actions, hquiet, rfl⟩, hbook⟩ := hworld
    exact ⟨actions, Machine.along_of_forall_mem fun a ha => (hquiet a ha).feasible,
      stranded_of_quiet hquiet, hbook⟩

theorem idle_anvil (t : Address) : anvil.Idle t anvil.genesis := by
  intro c _ spender
  simp only [genesis, anvil, Function.update_apply]
  split_ifs <;> rfl

theorem feasible_crash (answer : Int256) : ∀ a ∈ crash answer, Feasible w a := by
  intro a ha
  have huser := byUser_crash answer a ha
  cases a with
  | oracle feed =>
      simp only [crash, openPosition, updateAnswer, List.mem_append, List.mem_cons,
        List.not_mem_nil, reduceCtorEq, or_false, false_or] at ha
      cases ha
      exact ⟨rfl, rfl, rfl, forall_mem_anvil rfl rfl⟩
  | warp timestamp => simp [crash, openPosition, updateAnswer] at ha
  | _ => exact huser

/-- The book that a crash leaves is one of the protocol. -/
theorem books_iff_crash : anvil.Reached (anvil.run (crash (1500 * 10 ^ 8))).book := by
  have hfeed : anvil.Answerable anvil.feed := ⟨rfl, rfl, rfl, forall_mem_anvil rfl rfl⟩
  refine (books_iff anvil idle_anvil hfeed _).mp ⟨crash (1500 * 10 ^ 8), ?_, ?_, rfl⟩
  · exact Machine.along_of_forall_mem fun a ha w => feasible_crash _ a ha
  · decide +kernel

end Deployment

end DefiStablecoin
