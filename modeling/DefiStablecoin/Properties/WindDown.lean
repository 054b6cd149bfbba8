import DefiStablecoin.Properties.Custody
import DefiStablecoin.Properties.Health
import DefiStablecoin.Properties.Oracle
import DefiStablecoin.Properties.Repayment
import DefiStablecoin.System.Circulation

/-!
# Winding the system down

Stablecoins that are burned behind the engine's back, or that end up in the wallet
of the engine or of another contract, are lost for good: the recorded debt never falls
below what is lost.  Where none are, the users can close every position and withdraw
everything by calls of their own, at the prices that they find.
-/

namespace DefiStablecoin

open Solidity OpenZeppelin DSCEngine World Lending

/-! ## Accounts without a position -/

def World.Vacant (v : Address) (w : World) : Prop :=
  w.s_DSCMinted v = 0 ∧ ∀ t, w.s_collateralDeposited v t = 0

namespace DSCEngine

variable {w w' : World} {msgSender v : Address}

/-- Nobody opens a position for somebody else, nor for the zero address. -/
theorem Move.vacant (h : Move msgSender w w') (hv : v ≠ msgSender ∨ v = 0) (hw : w.Vacant v) :
    w'.Vacant v := by
  cases h with
  | deposit _ _ hcollect =>
      have hne : v ≠ msgSender := hv.elim id fun hzero => hzero ▸ hcollect.2.1.symm
      refine ⟨hw.1, fun t => ?_⟩
      simpa [credit, collect, hne] using hw.2 t
  | @withdraw token source amount hcover _ =>
      refine ⟨hw.1, fun t => ?_⟩
      by_cases hsource : v = source
      · subst hsource
        by_cases ht : t = token
        · subst ht
          rw [hw.2 t, toNat_zero, Nat.le_zero, toNat_eq_zero] at hcover
          simp [debit, pay, hw.2 t, hcover]
        · simpa [debit, pay, ht] using hw.2 t
      · simpa [debit, pay, hsource] using hw.2 t
  | borrow _ _ _ _ hissue =>
      have hne : v ≠ msgSender := hv.elim id fun hzero => hzero ▸ hissue.2.1.symm
      exact ⟨by simpa [lend, World.issue, hne] using hw.1, hw.2⟩
  | @repay onBehalfOf amount hrepay =>
      refine ⟨?_, hw.2⟩
      by_cases hself : v = onBehalfOf
      · subst hself
        apply toNat_eq_zero.mp
        rw [debt_repaid_self hrepay.1, hw.1, toNat_zero, Nat.zero_sub]
      · rw [debt_repaid_of_ne hself]
        exact hw.1

theorem Moves.vacant (h : Moves msgSender w w') (hv : v ≠ msgSender ∨ v = 0) (hw : w.Vacant v) :
    w'.Vacant v := by
  induction h with
  | refl => exact hw
  | tail _ hmove ih => exact hmove.vacant hv ih

end DSCEngine

namespace Deployment

variable {d : Deployment} {w w' : World} {a : Action d} {u : Address}

theorem vacant_tx {v : Address} {x : Unit} (h : d.Sound w) (hok : a.tx w = .ok (x, w'))
    (hidle : ∀ (msgSender : d.Account) (c : DSCEngine.Call), a = .engine msgSender c →
      v ≠ msgSender.val ∨ v = 0) (hw : w.Vacant v) : w'.Vacant v := by
  obtain ⟨msgSender, c, rfl⟩ | hbook := book_tx h hok
  · exact (run_moves h.status_eq hok).vacant (hidle msgSender c rfl) hw
  · have hrow : w.book.Untouched v w'.book := hbook ▸ ⟨rfl, rfl⟩
    obtain ⟨hcollateral, hdebt⟩ := ledgers_of_untouched hrow
    exact ⟨hdebt.trans hw.1, fun t => (congrFun hcollateral t).trans (hw.2 t)⟩

theorem vacant_run (d : Deployment) (actions : List (Action d)) {v : Address}
    (hidle : ∀ a ∈ actions, ∀ (msgSender : d.Account) (c : DSCEngine.Call),
      a = .engine msgSender c → v ≠ msgSender.val ∨ v = 0) : (d.run actions).Vacant v := by
  refine (Machine.run_invariant_along (I := fun w => d.Sound w ∧ w.Vacant v)
    (fun w a hw ha => ⟨sound_step hw.1 a, ?_⟩) ⟨sound_genesis, rfl, fun _ => rfl⟩
    (Machine.along_of_forall_mem fun a ha _ => hidle a ha)).2
  rcases Tx.attempt_cases a.tx w with ⟨_, hok⟩ | ⟨_, hsame⟩
  · exact vacant_tx hw.1 hok ha hw.2
  · rw [step, hsame]
    exact hw.2

theorem vacant_of_byUser {actions : List (Action d)} (husers : ∀ a ∈ actions, ByUser a)
    {v : Address} (hv : v ∈ d.contracts ∨ v = 0) : (d.run actions).Vacant v := by
  refine d.vacant_run actions fun a ha msgSender c heq => hv.imp_left fun hmem => ?_
  subst heq
  exact ne_of_mem_of_not_mem hmem (husers _ ha msgSender rfl).not_mem

/-! ## What is missing stays missing -/

/-- The stablecoins that no repayment can collect: burned directly, or sent to the engine. -/
def missing (d : Deployment) (actions : List (Action d)) : ℕ :=
  d.burnedDirectly actions + d.sentDirectly d.dsc actions

theorem deposits_dsc (h : d.Sound w) : w.deposits d.dsc = 0 := by
  have hfeed : w.s_priceFeeds d.dsc = 0 := by
    rw [h.priceFeeds_eq]
    exact d.genesis_priceFeeds_of_not_mem d.dsc_not_mem
  have hrow : (fun v => w.s_collateralDeposited v d.dsc) = fun _ => 0 :=
    funext (h.unlisted d.dsc hfeed)
  unfold deposits
  rw [hrow, total_zero]

theorem holdings_dsc_run (d : Deployment) (actions : List (Action d)) :
    (d.run actions).holdings d.dsc = d.sentDirectly d.dsc actions := by
  have hheld := d.holdings_run actions d.dsc
  rwa [deposits_dsc (d.sound_run actions), Nat.zero_add] at hheld

/-- What is burned directly and what is left of the supply are together owed. -/
theorem burned_add_le_debts (d : Deployment) (actions more : List (Action d)) {n : ℕ}
    (hn : n ≤ (d.run (actions ++ more)).supply) :
    d.burnedDirectly actions + n ≤ (d.run (actions ++ more)).debts := by
  have hburned : d.burnedDirectly actions ≤ d.burnedDirectly (actions ++ more) :=
    Machine.charge_le_charge_append d.genesis actions more
  have hdebts := d.debts_run (actions ++ more)
  omega

/-- **Missing stablecoins leave debt that can never be repaid**, whatever happens later. -/
theorem missing_le_debts (d : Deployment) (actions more : List (Action d)) :
    d.missing actions ≤ (d.run (actions ++ more)).debts := by
  have hsound := d.sound_run (actions ++ more)
  apply d.burned_add_le_debts actions more
  calc d.sentDirectly d.dsc actions
      ≤ d.sentDirectly d.dsc (actions ++ more) :=
        Nat.add_le_add_left (Machine.charge_le_charge_append d.genesis actions more) _
    _ = (d.run (actions ++ more)).holdings d.dsc := (d.holdings_dsc_run _).symm
    _ ≤ ((d.run (actions ++ more)).token d.dsc)._totalSupply.toNat :=
        (hsound.tokens.wellFormed d.dsc).balance_le_supply _
    _ = (d.run (actions ++ more)).supply := by rw [supply, hsound.dsc_eq]

/-- The stablecoins that no user can repay with: burned directly, or sent to a contract. -/
def stranded (d : Deployment) (actions : List (Action d)) : ℕ :=
  d.burnedDirectly actions + d.sentToContracts d.dsc actions

theorem stuck_dsc_run {actions : List (Action d)} (husers : ∀ a ∈ actions, ByUser a) :
    d.stuck d.dsc (d.run actions) = d.sentToContracts d.dsc actions := by
  have hstuck := stuck_run husers idle_dsc_genesis
  rwa [deposits_dsc (d.sound_run actions), Nat.zero_add] at hstuck

theorem stranded_le_debts {actions more : List (Action d)}
    (husers : ∀ a ∈ actions ++ more, ByUser a) :
    d.stranded actions ≤ (d.run (actions ++ more)).debts := by
  have hsound := d.sound_run (actions ++ more)
  apply d.burned_add_le_debts actions more
  calc d.sentToContracts d.dsc actions
      ≤ d.sentToContracts d.dsc (actions ++ more) :=
        Nat.add_le_add_left (Machine.charge_le_charge_append d.genesis actions more) _
    _ = d.stuck d.dsc (d.run (actions ++ more)) := (stuck_dsc_run husers).symm
    _ ≤ ((d.run (actions ++ more)).token d.dsc)._totalSupply.toNat := stuck_le_supply hsound _
    _ = (d.run (actions ++ more)).supply := by rw [supply, hsound.dsc_eq]

/-! ## Calls that lose nothing -/

/-- The actions by which users themselves use the system: calls of the engine and of the
stablecoin. -/
def ByUsers : Action d → Prop
  | .engine msgSender _ => d.IsUser msgSender
  | .dsc msgSender _ => d.IsUser msgSender
  | _ => False

theorem ByUsers.byUser (h : ByUsers a) : ByUser a := by
  cases a with
  | engine => exact fun _ hactor => Option.some.inj hactor ▸ h
  | dsc => exact fun _ hactor => Option.some.inj hactor ▸ h
  | _ => exact h.elim

/-- A call by a user that neither burns any stablecoins nor sends any to a contract. -/
structure Orderly (a : Action d) : Prop extends Quiet a where
  byUsers : ByUsers a

theorem orderly_engine {msgSender : d.Account} (hsender : d.IsUser msgSender)
    (c : DSCEngine.Call) : Orderly (.engine msgSender c) :=
  ⟨quiet_engine hsender c, hsender⟩

theorem orderly_of_passing (h : Passing d.dsc a) : Orderly a := by
  refine ⟨h.quiet, ?_⟩
  obtain ⟨msgSender, c, rfl, hsender, _⟩ := h
  unfold erc20Action
  rw [dif_pos rfl]
  exact hsender

/-- A state that users reach, in which no stablecoin is lost. -/
structure Balanced (d : Deployment) (w : World) : Prop where
  reached : ∃ actions, (∀ a ∈ actions, ByUser a) ∧ d.run actions = w
  debts_eq : w.debts = w.supply
  stuck_eq : d.stuck d.dsc w = 0

namespace Balanced

theorem sound (h : d.Balanced w) : d.Sound w := by
  obtain ⟨actions, _, rfl⟩ := h.reached
  exact d.sound_run actions

theorem isUser (h : d.Balanced w) (hu : ¬w.Vacant u) : d.IsUser u := by
  obtain ⟨actions, husers, rfl⟩ := h.reached
  exact ⟨fun hzero => hu (vacant_of_byUser husers (.inr hzero)),
    fun hmem => hu (vacant_of_byUser husers (.inl hmem))⟩

theorem collateral_le_holdings (h : d.Balanced w) (v t : Address) :
    (w.s_collateralDeposited v t).toNat ≤ w.holdings t := by
  obtain ⟨actions, _, rfl⟩ := h.reached
  exact d.holdings_ge actions v t

theorem step (h : d.Balanced w) (ha : Orderly a) : d.Balanced (d.step w a) where
  reached := by
    obtain ⟨actions, husers, rfl⟩ := h.reached
    refine ⟨actions ++ [a], fun b hb => ?_, Machine.run_append d.genesis actions [a]⟩
    rcases List.mem_append.mp hb with hb | hb
    · exact husers b hb
    · exact List.mem_singleton.mp hb ▸ ha.byUser
  debts_eq := by
    have hbalance := (balance_step h.sound a d.dsc).2
    have hcost := whenReturns_eq_zero (w := w) ha.burns
    have hdebts := h.debts_eq
    omega
  stuck_eq := by
    obtain ⟨actions, husers, rfl⟩ := h.reached
    have hbalance := stuck_step h.sound ha.byUser (idle_run husers idle_dsc_genesis)
    have hcost := whenReturns_eq_zero (w := d.run actions) (ha.sendsToContracts d.dsc)
    rw [deposits_dsc h.sound, deposits_dsc (sound_step h.sound a), h.stuck_eq, hcost] at hbalance
    exact hbalance

theorem debt_le (h : d.Balanced w) (v : Address) :
    d.stuck d.dsc w + (w.s_DSCMinted v).toNat ≤ (w.token d.dsc)._totalSupply.toNat := by
  have hone := toNat_le_total w.s_DSCMinted v
  have hdebts := h.debts_eq
  unfold debts supply at hdebts
  rw [h.sound.dsc_eq] at hdebts
  rw [h.stuck_eq]
  omega

end Balanced

abbrev Leads (d : Deployment) : World → World → Prop := Machine.Leads d.step Orderly

/-- The market is the same, and of all positions only that of `u` may have shrunk. -/
structure Eases (u : Address) (w w' : World) : Prop where
  market_eq : w'.market = w.market
  untouched : ∀ v, v ≠ u → w.book.Untouched v w'.book
  collateral_le : ∀ t, w'.book.collateral u t ≤ w.book.collateral u t
  debt_le : w'.book.debt u ≤ w.book.debt u

namespace Eases

theorem of_same (hmarket : w'.market = w.market) (hbook : w'.book = w.book) : Eases u w w' where
  market_eq := hmarket
  untouched _ _ := hbook ▸ ⟨rfl, rfl⟩
  collateral_le _ := hbook ▸ le_rfl
  debt_le := hbook ▸ le_rfl

theorem trans {w'' : World} (h : Eases u w w') (h' : Eases u w' w'') : Eases u w w'' where
  market_eq := h'.market_eq.trans h.market_eq
  untouched v hv := (h.untouched v hv).trans (h'.untouched v hv)
  collateral_le t := (h'.collateral_le t).trans (h.collateral_le t)
  debt_le := h'.debt_le.trans h.debt_le

theorem scorable (h : Eases u w w') (hw : ∀ v, w.market.Scorable w.book v) (v : Address) :
    w'.market.Scorable w'.book v := by
  rw [h.market_eq]
  by_cases hv : v = u
  · subst hv
    exact (hw v).mono h.collateral_le h.debt_le
  · have hsame := h.untouched v hv
    exact (hw v).mono (fun t => (congrFun hsame.1 t).le) hsame.2.le

theorem vacant (h : Eases u w w') {v : Address} (hv : w.Vacant v) : w'.Vacant v := by
  have hrow : ∀ t, w'.book.collateral v t ≤ w.book.collateral v t ∧
      w'.book.debt v ≤ w.book.debt v := by
    intro t
    by_cases heq : v = u
    · subst heq
      exact ⟨h.collateral_le t, h.debt_le⟩
    · have hsame := h.untouched v heq
      exact ⟨(congrFun hsame.1 t).le, hsame.2.le⟩
  constructor
  · have hdebt : w.book.debt v = 0 := toNat_eq_zero.mpr hv.1
    exact toNat_eq_zero.mp (Nat.le_zero.mp (hdebt ▸ (hrow 0).2))
  · intro t
    have hcollateral : w.book.collateral v t = 0 := toNat_eq_zero.mpr (hv.2 t)
    exact toNat_eq_zero.mp (Nat.le_zero.mp (hcollateral ▸ (hrow t).1))

end Eases

structure Settleable (d : Deployment) (w : World) : Prop extends Balanced d w where
  scorable : ∀ v, w.market.Scorable w.book v

theorem Settleable.ease (h : d.Settleable w) (hw' : d.Balanced w') (hease : Eases u w w') :
    d.Settleable w' :=
  ⟨hw', hease.scorable h.scorable⟩

/-! ## Closing the positions -/

theorem burn_all (h : d.Settleable w) {user : d.Account} (huser : d.IsUser user)
    (hdebt : w.s_DSCMinted user ≠ 0)
    (hbalance : (w.s_DSCMinted user).toNat ≤ ((w.token w.i_dsc)._balances user).toNat)
    (hallowance : (w.s_DSCMinted user).toNat ≤
      ((w.token w.i_dsc)._allowances user w.this).toNat) :
    ∃ w', d.Leads w w' ∧ d.Settleable w' ∧ Eases user w w' ∧ w'.s_DSCMinted user = 0 := by
  let a : Action d := .engine user (.burnDsc (w.s_DSCMinted user))
  have ha : Orderly a := orderly_engine huser _
  have hok : burnDsc user (w.s_DSCMinted user) w =
      .ok ((), repaid user user (w.s_DSCMinted user) w) := by
    apply (burnDsc_returns_iff h.sound (h.scorable user) hdebt le_rfl hbalance hallowance).mpr
    rw [Nat.sub_self]
    exact Nat.zero_le _
  have hstep : d.step w a = repaid user user (w.s_DSCMinted user) w := Tx.attempt_of_ok hok
  have hease : Eases user w (d.step w a) := by
    rw [hstep]
    exact {
      market_eq := rfl
      untouched := fun v hv => ⟨rfl, congrArg BitVec.toNat (debt_repaid_of_ne hv)⟩
      collateral_le := fun _ => le_rfl
      debt_le := (debt_repaid_self le_rfl).le.trans (Nat.sub_le _ _) }
  have hzero : (d.step w a).s_DSCMinted user = 0 := by
    rw [hstep]
    apply toNat_eq_zero.mp
    rw [debt_repaid_self le_rfl, Nat.sub_self]
  exact ⟨d.step w a, .single ha, h.ease (h.step ha) hease, hease, hzero⟩

/-- A user can repay its whole debt once everybody has sent it their stablecoins. -/
theorem repay_all (h : d.Settleable w) (user : d.Account) (huser : d.IsUser user) :
    ∃ w', d.Leads w w' ∧ d.Settleable w' ∧ Eases user w w' ∧ w'.s_DSCMinted user = 0 := by
  by_cases hdebt : w.s_DSCMinted user = 0
  · exact ⟨w, .refl w, h, .of_same rfl rfl, hdebt⟩
  obtain ⟨k, hpass, hbalance, hallowance⟩ := fund d.dsc h.sound user huser (h.debt_le user)
  have hlead : d.Leads w (w.setToken d.dsc k) := hpass.mono fun _ => orderly_of_passing
  have hease : Eases user w (w.setToken d.dsc k) :=
    .of_same (market_setToken ..) (book_setToken ..)
  have hfunded := h.ease (hlead.invariant (fun _ _ => Balanced.step) h.toBalanced) hease
  have hdsc : (w.setToken d.dsc k).token (w.setToken d.dsc k).i_dsc = k := by
    rw [show (w.setToken d.dsc k).i_dsc = d.dsc from h.sound.dsc_eq, setToken_token_self]
  have hthis : (w.setToken d.dsc k).this = d.dscEngine := h.sound.this_eq
  obtain ⟨w', hlead', hw', hease', hend⟩ := burn_all hfunded huser hdebt
    (by rw [hdsc]; exact hbalance) (by rw [hdsc, hthis, hallowance]; exact le_rfl)
  exact ⟨w', hlead.trans hlead', hw', hease.trans hease', hend⟩

theorem redeem_all (h : d.Settleable w) {user : d.Account} (huser : d.IsUser user)
    (hdebt : w.s_DSCMinted user = 0) {token : Address}
    (hdeposit : w.s_collateralDeposited user token ≠ 0) :
    ∃ w', d.Leads w w' ∧ d.Settleable w' ∧ Eases user w w' ∧
      ∀ t, w'.s_collateralDeposited user t =
        if t = token then 0 else w.s_collateralDeposited user t := by
  let amount := w.s_collateralDeposited user token
  let a : Action d := .engine user (.redeemCollateral token amount)
  have ha : Orderly a := orderly_engine huser _
  have hpay : w.CanPay token w.this user amount :=
    ⟨h.sound.this_ne_zero, huser.ne_zero, h.collateral_le_holdings user token⟩
  have hbook : (redeemed user user token amount w).book =
      w.book.withdraw user.val token amount.toNat := book_debit le_rfl
  have hease : Eases user w (redeemed user user token amount w) := {
    market_eq := rfl
    untouched := fun v hv => hbook ▸ ⟨Function.update_of_ne hv _ _, rfl⟩
    collateral_le := fun t => hbook ▸ w.book.withdraw_le user.val user token t _
    debt_le := le_rfl }
  have hhealthy : (redeemed user user token amount w).Healthy user := by
    apply (healthy_iff ..).mpr
    have howes : (redeemed user user token amount w).s_DSCMinted user = 0 := hdebt
    rw [howes]
    exact Nat.zero_le _
  have hok : redeemCollateral IERC20.standard user token amount w =
      .ok ((), redeemed user user token amount w) :=
    (redeemCollateral_standard_eq_ok h.sound.status_eq).mpr
      ⟨hdeposit, le_rfl, hpay, hease.scorable h.scorable user, hhealthy, rfl⟩
  have hstep : d.step w a = redeemed user user token amount w := Tx.attempt_of_ok hok
  refine ⟨d.step w a, .single ha, h.ease (h.step ha) (hstep ▸ hease), hstep ▸ hease, fun t => ?_⟩
  rw [hstep]
  by_cases ht : t = token
  · subst ht
    simp [redeemed, debit, pay, amount]
  · simp [redeemed, debit, pay, ht]

theorem withdraw_all (h : d.Settleable w) (user : d.Account) (huser : d.IsUser user)
    (hdebt : w.s_DSCMinted user = 0) :
    ∃ w', d.Leads w w' ∧ d.Settleable w' ∧ Eases user w w' ∧ w'.Vacant user := by
  let I (s : World) : Prop := d.Settleable s ∧ Eases user w s
  let done (s : World) (t : Address) : Prop := s.s_collateralDeposited user t = 0
  have howes : ∀ s, I s → s.s_DSCMinted user = 0 := by
    rintro s ⟨_, hease⟩
    have hle := hease.debt_le
    have hnone : w.book.debt user = 0 := toNat_eq_zero.mpr hdebt
    exact toNat_eq_zero.mp (Nat.le_zero.mp (hnone ▸ hle))
  have hredeem : ∀ s t, I s → ¬done s t → ∃ s', d.Leads s s' ∧ I s' ∧ done s' t ∧
      ∀ j, done s j → done s' j := by
    intro s t hs ht
    obtain ⟨s', hlead, hs', hease', hrow⟩ := redeem_all hs.1 huser (howes s hs) ht
    refine ⟨s', hlead, ⟨hs', hs.2.trans hease'⟩, (hrow t).trans (if_pos rfl), fun j hj => ?_⟩
    by_cases hjt : j = t
    · exact (hrow j).trans (if_pos hjt)
    · exact ((hrow j).trans (if_neg hjt)).trans hj
  obtain ⟨w', hlead, hw', hdone⟩ := Machine.Leads.sweep hredeem ⟨h, .of_same rfl rfl⟩
  exact ⟨w', hlead, hw'.1, hw'.2, howes w' hw', hdone⟩

theorem close_all (h : d.Settleable w) :
    ∃ w', d.Leads w w' ∧ d.Settleable w' ∧ ∀ v, w'.Vacant v := by
  refine Machine.Leads.sweep (I := d.Settleable) (fun s v hs hv => ?_) h
  have huser := hs.isUser hv
  let user : d.Account := ⟨v, huser.ne_engine⟩
  obtain ⟨s₁, hlead₁, hs₁, hease₁, hdebt⟩ := repay_all hs user huser
  obtain ⟨s', hlead', hs', hease', hvacant⟩ := withdraw_all hs₁ user huser hdebt
  exact ⟨s', hlead₁.trans hlead', hs', hvacant, fun _ hj => (hease₁.trans hease').vacant hj⟩

/-- **The users can wind the system down exactly when no stablecoin is stranded.** Where
users have made the calls and every health factor can be computed, they can close all
positions by calls of the engine and of the stablecoin alone if nothing was burned directly
and nothing sent to a contract; and otherwise no calls of theirs close them all. -/
theorem wind_down_iff (d : Deployment) (actions : List (Action d))
    (husers : ∀ a ∈ actions, ByUser a)
    (hscore : ∀ v, ∃ factor, getHealthFactor v (d.run actions) = .ok factor) :
    (∃ more : List (Action d), (∀ a ∈ more, ByUsers a) ∧
      (∀ v t, (d.run (actions ++ more)).s_DSCMinted v = 0 ∧
        (d.run (actions ++ more)).s_collateralDeposited v t = 0) ∧
      (d.run (actions ++ more)).supply = 0) ↔
      d.stranded actions = 0 := by
  constructor
  · rintro ⟨more, hmore, hclosed, _⟩
    have hall : ∀ a ∈ actions ++ more, ByUser a := fun a ha =>
      (List.mem_append.mp ha).elim (husers a) fun ha => (hmore a ha).byUser
    have hle := stranded_le_debts hall
    have hdebts : (d.run (actions ++ more)).debts = 0 := by
      unfold debts
      rw [funext fun v => (hclosed v 0).1, total_zero]
    omega
  · intro hstranded
    obtain ⟨hburned, hsent⟩ := Nat.add_eq_zero_iff.mp hstranded
    have hsettleable : d.Settleable (d.run actions) := {
      reached := ⟨actions, husers, rfl⟩
      debts_eq := by rw [d.debts_run, hburned, Nat.add_zero]
      stuck_eq := (stuck_dsc_run husers).trans hsent
      scorable := fun v => (_healthFactor_eq_ok.mp (hscore v).choose_spec).1 }
    obtain ⟨w', ⟨more, hmore, rfl⟩, hw', hvacant⟩ := close_all hsettleable
    have hrun : Machine.run d.step (d.run actions) more = d.run (actions ++ more) :=
      (Machine.run_append d.genesis actions more).symm
    rw [hrun] at hw' hvacant
    refine ⟨more, fun a ha => (hmore a ha).byUsers,
      fun v t => ⟨(hvacant v).1, (hvacant v).2 t⟩, ?_⟩
    rw [← hw'.debts_eq]
    unfold debts
    rw [funext fun v => (hvacant v).1, total_zero]

theorem scorable_of_vacant {v : Address} (hv : w.Vacant v) (hu : w.market.Scorable w.book u) :
    w.market.Scorable w.book v := by
  have hrow : ∀ t, w.book.collateral v t = 0 := fun t => toNat_eq_zero.mpr (hv.2 t)
  refine ⟨hu.1.mono fun t => (hrow t).trans_le (Nat.zero_le _), fun hdebt => ?_⟩
  exact absurd (toNat_eq_zero.mpr hv.1) hdebt

/-- After a crash that left the user unhealthy everybody can still leave. -/
theorem wind_down_crash :
    ∃ more : List (Action anvil), (∀ a ∈ more, ByUsers a) ∧
      (∀ v t, (anvil.run (crash (1500 * 10 ^ 8) ++ more)).s_DSCMinted v = 0 ∧
        (anvil.run (crash (1500 * 10 ^ 8) ++ more)).s_collateralDeposited v t = 0) ∧
      (anvil.run (crash (1500 * 10 ^ 8) ++ more)).supply = 0 := by
  refine (wind_down_iff anvil (crash (1500 * 10 ^ 8)) (byUser_crash _) fun v => ?_).mpr
    (by decide +kernel)
  have huser : getHealthFactor USER (anvil.run (crash (1500 * 10 ^ 8))) =
      .ok 750000000000000000 := by decide +kernel
  by_cases hv : v = USER
  · exact hv ▸ ⟨_, huser⟩
  by_cases hv' : v = liquidator
  · exact hv' ▸ ⟨1500000000000000000, by decide +kernel⟩
  have hvacant : (anvil.run (crash (1500 * 10 ^ 8))).Vacant v := by
    refine anvil.vacant_run _ fun a ha msgSender c heq => .inl ?_
    subst heq
    have hsender : msgSender = USER ∨ msgSender = liquidator := by
      simp [crash, openPosition, updateAnswer] at ha
      tauto
    rcases hsender with rfl | rfl
    · exact hv
    · exact hv'
  have hscore := scorable_of_vacant hvacant (_healthFactor_eq_ok.mp huser).1
  exact (exists_healthFactor hscore).imp fun _ h => h.1

end Deployment

end DefiStablecoin
