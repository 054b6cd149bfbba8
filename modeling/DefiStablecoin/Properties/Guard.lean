import DefiStablecoin.Properties.Oracle
import DefiStablecoin.System.Surroundings

/-!
# What the guard guards

Nothing is assumed here of the code behind the collateral tokens but that it cannot
write the engine's storage.  While the guard is closed no execution, however deep,
touches the deposits or the registry, and debts can only be burned.  So a call
enters on the collateral ledger what it is asked to enter and nothing else, and the
guard is open again after every call.
-/

namespace DefiStablecoin

open Solidity OpenZeppelin DSCEngine World

namespace DSCEngine

/-! ## What a call that returns has done, over any code of the tokens -/

variable {ierc20 : IERC20} {w w' : World} {msgSender token source recipient user : Address}
  {amount : UInt256}

theorem _redeemCollateral_returns
    (h : _redeemCollateral ierc20 token amount source recipient w = .ok ((), w')) :
    amount.toNat ≤ (w.s_collateralDeposited source token).toNat ∧
      ∃ b, ierc20.transfer token w.this recipient amount (w.debit source token amount) =
        .ok (b, w') := by
  simp only [_redeemCollateral, Tx.bind_eq_ok, Tx.update_eq_ok, Tx.read_eq_ok, Tx.revertIf_eq_ok,
    except_bind_eq_ok, checkedSub_eq_ok, except_pure_eq_ok, Prod.mk.injEq] at h
  obtain ⟨_, _, ⟨_, ⟨hcover, rfl⟩, rfl⟩, _, _, ⟨rfl, rfl⟩, b, _, htransfer, _, rfl⟩ := h
  exact ⟨hcover, b, htransfer⟩

theorem depositCollateral_returns
    (h : depositCollateral ierc20 msgSender token amount w = .ok ((), w')) :
    w._status ≠ _ENTERED ∧ w.s_priceFeeds token ≠ 0 ∧
      (w.s_collateralDeposited msgSender token).toNat + amount.toNat < 2 ^ 256 ∧
      ∃ b w₁, ierc20.transferFrom token w.this msgSender w.this amount
          ((w.setStatus _ENTERED).credit msgSender token amount) = .ok (b, w₁) ∧
        w' = w₁.setStatus _NOT_ENTERED := by
  simp only [depositCollateral, Tx.bind_eq_ok, moreThanZero_eq_ok, isAllowedToken_eq_ok,
    nonReentrant_eq_ok, Tx.update_eq_ok, Tx.read_eq_ok, Tx.revertIf_eq_ok, except_bind_eq_ok,
    checkedAdd_eq_ok, except_pure_eq_ok, Prod.mk.injEq] at h
  obtain ⟨_, _, ⟨_, rfl⟩, _, _, ⟨hallowed, rfl⟩, hstatus, _, ⟨_, _, ⟨_, ⟨hfits, rfl⟩, rfl⟩,
    _, _, ⟨rfl, rfl⟩, b, w₁, htransfer, _, rfl⟩, rfl⟩ := h
  exact ⟨hstatus, hallowed, hfits, b, _, htransfer, rfl⟩

theorem redeemCollateral_returns
    (h : redeemCollateral ierc20 msgSender token amount w = .ok ((), w')) :
    w._status ≠ _ENTERED ∧ amount.toNat ≤ (w.s_collateralDeposited msgSender token).toNat ∧
      ∃ b w₁, ierc20.transfer token w.this msgSender amount
          ((w.setStatus _ENTERED).debit msgSender token amount) = .ok (b, w₁) ∧
        w' = w₁.setStatus _NOT_ENTERED := by
  simp only [redeemCollateral, Tx.bind_eq_ok, moreThanZero_eq_ok, nonReentrant_eq_ok,
    view_check_eq_ok] at h
  obtain ⟨_, _, ⟨_, rfl⟩, hstatus, w₁, ⟨_, _, hredeem, _, _, rfl⟩, rfl⟩ := h
  obtain ⟨hcover, b, htransfer⟩ := _redeemCollateral_returns hredeem
  exact ⟨hstatus, hcover, b, _, htransfer, rfl⟩

theorem liquidate_returns {debtToCover : UInt256}
    (h : liquidate ierc20 msgSender token user debtToCover w = .ok ((), w')) :
    w._status ≠ _ENTERED ∧ ¬w.Healthy user ∧
      ∃ seized : UInt256, seized.toNat = payout (w.market.price token) debtToCover.toNat ∧
        seized.toNat ≤ (w.s_collateralDeposited user token).toNat ∧
        ∃ b w₁, ierc20.transfer token w.this msgSender seized
            ((w.setStatus _ENTERED).debit user token seized) = .ok (b, w₁) ∧
          CanRepay user msgSender debtToCover w₁ ∧
          w' = (repaid user msgSender debtToCover w₁).setStatus _NOT_ENTERED := by
  simp only [liquidate, Tx.bind_eq_ok, moreThanZero_eq_ok, nonReentrant_eq_ok, Tx.view_eq_ok,
    Tx.revertIf_eq_ok, _burnDsc_eq_ok, _healthFactor_eq_ok, _revertIfHealthFactorIsBroken_eq_ok,
    ge_iff_le, BitVec.le_def, Nat.not_le, toNat_MIN_HEALTH_FACTOR] at h
  obtain ⟨_, _, ⟨_, rfl⟩, hstatus, _, ⟨start, _, ⟨⟨_, hstart⟩, rfl⟩, _, _, ⟨hlow, rfl⟩,
    equal, _, ⟨hequal, rfl⟩, scaled, _, ⟨hscaled, rfl⟩, bonus, _, ⟨hbonus, rfl⟩,
    seized, _, ⟨hseized, rfl⟩, _, _, hredeem, _, _, ⟨hrepay, rfl⟩,
    _, _, ⟨_, rfl⟩, _, _, ⟨_, rfl⟩, _, rfl⟩, rfl⟩ := h
  obtain ⟨_, hpayout⟩ := payout_eq_ok.mp ⟨equal, hequal, scaled, hscaled, bonus, hbonus, hseized⟩
  obtain ⟨hcover, b, htransfer⟩ := _redeemCollateral_returns hredeem
  rw [hstart] at hlow
  exact ⟨hstatus, Lending.Terms.scoreOf_lt_threshold.mp hlow, seized, hpayout, hcover, b, _,
    htransfer, hrepay, rfl⟩

end DSCEngine

/-! ## While the guard is closed -/

/-- What executions may do to the engine's storage while the guard is closed. -/
structure Frozen (w w' : World) : Prop where
  status_eq : w'._status = w._status
  collateral_eq : w'.s_collateralDeposited = w.s_collateralDeposited
  debt_le : ∀ v, (w'.s_DSCMinted v).toNat ≤ (w.s_DSCMinted v).toNat
  priceFeeds_eq : w'.s_priceFeeds = w.s_priceFeeds
  collateralTokens_eq : w'.s_collateralTokens = w.s_collateralTokens
  dsc_eq : w'.i_dsc = w.i_dsc

namespace Frozen

variable {w w' w'' : World} {ierc20 : IERC20} {msgSender : Address}

theorem of_storage (h : w'.toDSCEngine = w.toDSCEngine) : Frozen w w' where
  status_eq := congrArg DSCEngine._status h
  collateral_eq := congrArg DSCEngine.s_collateralDeposited h
  debt_le v := (congrArg (fun e => (DSCEngine.s_DSCMinted e v).toNat) h).le
  priceFeeds_eq := congrArg DSCEngine.s_priceFeeds h
  collateralTokens_eq := congrArg DSCEngine.s_collateralTokens h
  dsc_eq := congrArg DSCEngine.i_dsc h

theorem refl (w : World) : Frozen w w := of_storage rfl

theorem trans (h : Frozen w w') (h' : Frozen w' w'') : Frozen w w'' where
  status_eq := h'.status_eq.trans h.status_eq
  collateral_eq := h'.collateral_eq.trans h.collateral_eq
  debt_le v := (h'.debt_le v).trans (h.debt_le v)
  priceFeeds_eq := h'.priceFeeds_eq.trans h.priceFeeds_eq
  collateralTokens_eq := h'.collateralTokens_eq.trans h.collateralTokens_eq
  dsc_eq := h'.dsc_eq.trans h.dsc_eq

theorem repaid {onBehalfOf dscFrom : Address} {amount : UInt256}
    (hrepay : CanRepay onBehalfOf dscFrom amount w) :
    Frozen w (DSCEngine.repaid onBehalfOf dscFrom amount w) where
  status_eq := rfl
  collateral_eq := rfl
  debt_le v := by
    by_cases hv : v = onBehalfOf
    · subst hv
      exact (debt_repaid_self hrepay.1).le.trans (Nat.sub_le _ _)
    · exact (congrArg BitVec.toNat (debt_repaid_of_ne hv)).le
  priceFeeds_eq := rfl
  collateralTokens_eq := rfl
  dsc_eq := rfl

theorem burnDsc {amount : UInt256} (h : DSCEngine.burnDsc msgSender amount w = .ok ((), w')) :
    Frozen w w' := by
  obtain ⟨_, hrepay, _, _, rfl⟩ := burnDsc_eq_ok.mp h
  exact repaid hrepay

/-- While the guard is closed `burnDsc` is the only call that returns. -/
theorem run {c : DSCEngine.Call} (hstatus : w._status = _ENTERED)
    (h : c.run ierc20 msgSender w = .ok ((), w')) : Frozen w w' := by
  cases c with
  | burnDsc x => exact burnDsc h
  | depositCollateral t a => exact absurd hstatus (depositCollateral_returns h).1
  | redeemCollateral t a => exact absurd hstatus (redeemCollateral_returns h).1
  | mintDsc x => exact absurd hstatus (mintDsc_eq_ok.mp h).2.1
  | liquidate t u x => exact absurd hstatus (liquidate_returns h).1
  | depositCollateralAndMintDsc t a x =>
      obtain ⟨_, hdeposit, _⟩ := depositCollateralAndMintDsc_eq_ok.mp h
      exact absurd hstatus (depositCollateral_returns hdeposit).1
  | redeemCollateralForDsc t a x =>
      obtain ⟨w₁, hburn, hredeem⟩ := redeemCollateralForDsc_eq_ok.mp h
      have hstatus₁ : w₁._status = _ENTERED := (burnDsc hburn).status_eq.trans hstatus
      exact absurd hstatus₁ (redeemCollateral_returns hredeem).1

theorem reaches (h : Frozen w w') (hstatus : w._status = _ENTERED) (hreaches : Reaches w' w'') :
    Frozen w w'' := by
  induction hreaches with
  | refl => exact h
  | elsewhere _ hstorage _ ih => exact (ih h).trans (.of_storage hstorage)
  | call _ _ _ hok ih =>
      have hbefore := ih h
      exact hbefore.trans (.run (hbefore.status_eq.trans hstatus) hok)

end Frozen

/-- **While the guard is closed every execution leaves the deposits and the registry as
they are**, and adds to no debt. -/
theorem frozen_of_reaches (w w' : World) (h : Reaches w w') (hstatus : w._status = _ENTERED) :
    Frozen w w' :=
  (Frozen.refl w).reaches hstatus h

def underWay : World :=
  (Deployment.anvil.run
    (Deployment.openPosition Deployment.USER (10 * 10 ^ 18) (10000 * 10 ^ 18))).setStatus _ENTERED

/-- The user burns half of its debt in the middle of that call. -/
theorem frozen_of_reaches_burnDsc :
    Frozen underWay (Tx.attempt (burnDsc Deployment.USER (5000 * 10 ^ 18)) underWay) := by
  have hreturns : Tx.Returns (burnDsc Deployment.USER (5000 * 10 ^ 18)) underWay := by
    decide +kernel
  have hcall : DSCEngine.Call.run IERC20.standard Deployment.USER (.burnDsc (5000 * 10 ^ 18))
      underWay = .ok ((), Tx.attempt (burnDsc Deployment.USER (5000 * 10 ^ 18)) underWay) :=
    hreturns.eq_ok
  exact frozen_of_reaches _ _ (.of_call confined_standard hcall) rfl

/-! ## What a call enters on the ledgers -/

namespace DSCEngine

def enter (user token : Address) (amount : UInt256)
    (deposited : Address → Address → UInt256) : Address → Address → UInt256 :=
  Function.update deposited user (Function.update (deposited user) token amount)

namespace Call

/-- The deposit ledger after a call, by what the call is asked to do alone. -/
def enters (price : Address → ℕ) (msgSender : Address)
    (deposited : Address → Address → UInt256) : Call → Address → Address → UInt256
  | .depositCollateral token amount | .depositCollateralAndMintDsc token amount _ =>
      enter msgSender token (deposited msgSender token + amount) deposited
  | .redeemCollateral token amount | .redeemCollateralForDsc token amount _ =>
      enter msgSender token (deposited msgSender token - amount) deposited
  | .liquidate token user debtToCover =>
      enter user token
        (deposited user token - BitVec.ofNat 256 (payout (price token) debtToCover.toNat)) deposited
  | .mintDsc _ | .burnDsc _ => deposited

/-- What the call adds to the debt of its caller. -/
def borrows : Call → ℕ
  | .mintDsc amount | .depositCollateralAndMintDsc _ _ amount => amount.toNat
  | _ => 0

def Redeems : Call → Prop
  | .redeemCollateral _ _ | .redeemCollateralForDsc _ _ _ => True
  | _ => False

/-- What the engine checks before it enters the call on its deposit ledger. -/
def Allowed (msgSender : Address) (w : World) : Call → Prop
  | .depositCollateral token amount | .depositCollateralAndMintDsc token amount _ =>
      w.s_priceFeeds token ≠ 0 ∧
        (w.s_collateralDeposited msgSender token).toNat + amount.toNat < 2 ^ 256
  | .redeemCollateral token amount | .redeemCollateralForDsc token amount _ =>
      amount.toNat ≤ (w.s_collateralDeposited msgSender token).toNat
  | .liquidate token user debtToCover =>
      ¬w.Healthy user ∧ payout (w.market.price token) debtToCover.toNat ≤
        (w.s_collateralDeposited user token).toNat
  | .mintDsc _ | .burnDsc _ => True

end Call

end DSCEngine

/-- What a call leaves, whatever ran in between: the guard open, the registry as it was,
its own entry on the deposit ledger, and debts that only its caller may have added to. -/
structure Entered (msgSender : Address) (c : DSCEngine.Call) (w w' : World) : Prop where
  allowed : c.Allowed msgSender w
  status_eq : w'._status = _NOT_ENTERED
  collateral_eq : w'.s_collateralDeposited =
    c.enters w.market.price msgSender w.s_collateralDeposited
  debt_le : ∀ v, (w'.s_DSCMinted v).toNat ≤
    (w.s_DSCMinted v).toNat + if v = msgSender then c.borrows else 0
  priceFeeds_eq : w'.s_priceFeeds = w.s_priceFeeds
  collateralTokens_eq : w'.s_collateralTokens = w.s_collateralTokens
  dsc_eq : w'.i_dsc = w.i_dsc

namespace Entered

variable {ierc20 : IERC20} {w w' : World} {msgSender token user : Address} {amount : UInt256}

/-- Whatever follows the entry until the guard opens again leaves the entry alone. -/
theorem of_frozen {c : DSCEngine.Call} {value : UInt256} (hallowed : c.Allowed msgSender w)
    (hentry : DSCEngine.enter user token value w.s_collateralDeposited =
      c.enters w.market.price msgSender w.s_collateralDeposited)
    (h : Frozen ((w.setStatus _ENTERED).setCollateral user token value) w') :
    Entered msgSender c w (w'.setStatus _NOT_ENTERED) where
  allowed := hallowed
  status_eq := rfl
  collateral_eq := h.collateral_eq.trans hentry
  debt_le v := (h.debt_le v).trans (Nat.le_add_right _ _)
  priceFeeds_eq := h.priceFeeds_eq
  collateralTokens_eq := h.collateralTokens_eq
  dsc_eq := h.dsc_eq

theorem depositCollateral (hcode : ierc20.Confined)
    (h : DSCEngine.depositCollateral ierc20 msgSender token amount w = .ok ((), w')) :
    Entered msgSender (.depositCollateral token amount) w w' := by
  obtain ⟨_, hlisted, hfits, b, w₁, htransfer, rfl⟩ := depositCollateral_returns h
  exact of_frozen ⟨hlisted, hfits⟩ rfl
    ((Frozen.refl _).reaches rfl (hcode.transferFrom _ _ _ _ _ _ _ _ htransfer))

theorem redeemCollateral (hcode : ierc20.Confined)
    (h : DSCEngine.redeemCollateral ierc20 msgSender token amount w = .ok ((), w')) :
    Entered msgSender (.redeemCollateral token amount) w w' := by
  obtain ⟨_, hcover, b, w₁, htransfer, rfl⟩ := redeemCollateral_returns h
  exact of_frozen hcover rfl
    ((Frozen.refl _).reaches rfl (hcode.transfer _ _ _ _ _ _ _ htransfer))

theorem mintDsc (h : DSCEngine.mintDsc msgSender amount w = .ok ((), w')) :
    Entered msgSender (.mintDsc amount) w w' := by
  obtain ⟨_, _, hfits, _, _, _, rfl⟩ := mintDsc_eq_ok.mp h
  refine ⟨trivial, rfl, rfl, fun v => ?_, rfl, rfl, rfl⟩
  by_cases hv : v = msgSender
  · subst hv
    rw [if_pos rfl]
    simp [lend, World.issue, BitVec.toNat_add_of_lt hfits, Call.borrows]
  · simp [lend, World.issue, hv]

theorem burnDsc (hstatus : w._status = _NOT_ENTERED)
    (h : DSCEngine.burnDsc msgSender amount w = .ok ((), w')) :
    Entered msgSender (.burnDsc amount) w w' := by
  have hfrozen := Frozen.burnDsc h
  exact ⟨trivial, hfrozen.status_eq.trans hstatus, hfrozen.collateral_eq,
    fun v => (hfrozen.debt_le v).trans (Nat.le_add_right _ _), hfrozen.priceFeeds_eq,
    hfrozen.collateralTokens_eq, hfrozen.dsc_eq⟩

theorem liquidate (hcode : ierc20.Confined)
    (h : DSCEngine.liquidate ierc20 msgSender token user amount w = .ok ((), w')) :
    Entered msgSender (.liquidate token user amount) w w' := by
  obtain ⟨_, hunhealthy, seized, hseized, hcover, b, w₁, htransfer, hrepay, rfl⟩ :=
    liquidate_returns h
  have hword : BitVec.ofNat 256 (payout (w.market.price token) amount.toNat) = seized := by
    rw [← hseized, BitVec.ofNat_toNat, BitVec.setWidth_eq]
  have hfrozen : Frozen ((w.setStatus _ENTERED).setCollateral user token
      (w.s_collateralDeposited user token - seized)) (repaid user msgSender amount w₁) :=
    ((Frozen.refl _).reaches rfl (hcode.transfer _ _ _ _ _ _ _ htransfer)).trans (.repaid hrepay)
  exact of_frozen ⟨hunhealthy, hseized ▸ hcover⟩ (by rw [Call.enters, hword]) hfrozen

/-- **Every call leaves its own entry and nothing else**, whatever code the tokens run. -/
theorem run (hcode : ierc20.Confined) (hstatus : w._status = _NOT_ENTERED) {c : DSCEngine.Call}
    (h : c.run ierc20 msgSender w = .ok ((), w')) : Entered msgSender c w w' := by
  cases c with
  | depositCollateral t a => exact depositCollateral hcode h
  | redeemCollateral t a => exact redeemCollateral hcode h
  | mintDsc x => exact mintDsc h
  | burnDsc x => exact burnDsc hstatus h
  | liquidate t u x => exact liquidate hcode h
  | depositCollateralAndMintDsc t a x =>
      obtain ⟨w₁, hdeposit, hmint⟩ := depositCollateralAndMintDsc_eq_ok.mp h
      have hfirst := depositCollateral hcode hdeposit
      have hsecond := mintDsc hmint
      exact {
        allowed := hfirst.allowed
        status_eq := hsecond.status_eq
        collateral_eq := hsecond.collateral_eq.trans hfirst.collateral_eq
        debt_le := fun v => (hsecond.debt_le v).trans
          (Nat.add_le_add_right ((hfirst.debt_le v).trans (by simp [Call.borrows])) _)
        priceFeeds_eq := hsecond.priceFeeds_eq.trans hfirst.priceFeeds_eq
        collateralTokens_eq := hsecond.collateralTokens_eq.trans hfirst.collateralTokens_eq
        dsc_eq := hsecond.dsc_eq.trans hfirst.dsc_eq }
  | redeemCollateralForDsc t a x =>
      obtain ⟨w₁, hburn, hredeem⟩ := redeemCollateralForDsc_eq_ok.mp h
      have hfirst := Frozen.burnDsc hburn
      have hsecond := redeemCollateral hcode hredeem
      have hallowed := hsecond.allowed
      have hcollateral := hsecond.collateral_eq
      simp only [Call.Allowed, Call.enters, hfirst.collateral_eq] at hallowed hcollateral
      exact {
        allowed := hallowed
        status_eq := hsecond.status_eq
        collateral_eq := hcollateral
        debt_le := fun v => (hsecond.debt_le v).trans
          (Nat.add_le_add (hfirst.debt_le v) (by simp [Call.borrows]))
        priceFeeds_eq := hsecond.priceFeeds_eq.trans hfirst.priceFeeds_eq
        collateralTokens_eq := hsecond.collateralTokens_eq.trans hfirst.collateralTokens_eq
        dsc_eq := hsecond.dsc_eq.trans hfirst.dsc_eq }

end Entered

/-! ## Executions and their outermost calls -/

structure Outermost where
  found : World
  msgSender : Address
  call : DSCEngine.Call

/-- An execution as the sequence of its outermost calls.  What the tokens' code calls in
between is part of `IERC20.Confined` and leaves no trace. -/
inductive Traced : World → List Outermost → World → Prop
  | refl (w : World) : Traced w [] w
  | elsewhere {w w' w'' : World} {calls : List Outermost} (h : Traced w calls w')
      (hstorage : w''.toDSCEngine = w'.toDSCEngine) (hthis : w''.this = w'.this) :
      Traced w calls w''
  | call {w w' w'' : World} {calls : List Outermost} {ierc20 : IERC20} {msgSender : Address}
      {c : DSCEngine.Call} (h : Traced w calls w') (hcode : ierc20.Confined)
      (hok : c.run ierc20 msgSender w' = .ok ((), w'')) :
      Traced w (calls ++ [⟨w', msgSender, c⟩]) w''

theorem Reaches.exists_traced {w w' : World} (h : Reaches w w') :
    ∃ calls, Traced w calls w' := by
  induction h with
  | refl => exact ⟨[], .refl _⟩
  | elsewhere _ hstorage hthis ih =>
      obtain ⟨calls, htraced⟩ := ih
      exact ⟨calls, htraced.elsewhere hstorage hthis⟩
  | call _ htransfer htransferFrom hok ih =>
      obtain ⟨calls, htraced⟩ := ih
      exact ⟨_, htraced.call ⟨htransfer, htransferFrom⟩ hok⟩

namespace Outermost

/-- The deposit ledger after the call. -/
def enters (deposited : Address → Address → UInt256) (e : Outermost) :
    Address → Address → UInt256 :=
  e.call.enters e.found.market.price e.msgSender deposited

/-- What the call adds to the debt of `user`. -/
def borrows (user : Address) (e : Outermost) : ℕ :=
  if user = e.msgSender then e.call.borrows else 0

end Outermost

/-- What an execution leaves of the engine's storage, read off its outermost calls. -/
structure Replays (w : World) (calls : List Outermost) (w' : World) : Prop where
  status_eq : w'._status = _NOT_ENTERED
  priceFeeds_eq : w'.s_priceFeeds = w.s_priceFeeds
  collateralTokens_eq : w'.s_collateralTokens = w.s_collateralTokens
  dsc_eq : w'.i_dsc = w.i_dsc
  collateral_eq : w'.s_collateralDeposited =
    calls.foldl Outermost.enters w.s_collateralDeposited
  debt_le : ∀ v, (w'.s_DSCMinted v).toNat ≤
    (w.s_DSCMinted v).toNat + (calls.map (Outermost.borrows v)).sum
  allowed : ∀ e ∈ calls, e.call.Allowed e.msgSender e.found ∧ e.found.s_priceFeeds = w.s_priceFeeds

namespace Traced

variable {w w' : World} {calls : List Outermost}

theorem status_eq (h : Traced w calls w') (hstatus : w._status = _NOT_ENTERED) :
    w'._status = _NOT_ENTERED := by
  induction h with
  | refl => exact hstatus
  | elsewhere _ hstorage _ ih => exact (Frozen.of_storage hstorage).status_eq.trans ih
  | call _ hcode hok ih => exact (Entered.run hcode ih hok).status_eq

theorem registry_eq (h : Traced w calls w') (hstatus : w._status = _NOT_ENTERED) :
    w'.s_priceFeeds = w.s_priceFeeds ∧ w'.s_collateralTokens = w.s_collateralTokens ∧
      w'.i_dsc = w.i_dsc := by
  induction h with
  | refl => exact ⟨rfl, rfl, rfl⟩
  | elsewhere _ hstorage _ ih =>
      obtain ⟨hfeeds, htokens, hdsc⟩ := ih
      have hsame := Frozen.of_storage hstorage
      exact ⟨hsame.priceFeeds_eq.trans hfeeds, hsame.collateralTokens_eq.trans htokens,
        hsame.dsc_eq.trans hdsc⟩
  | call hbefore hcode hok ih =>
      obtain ⟨hfeeds, htokens, hdsc⟩ := ih
      have hentered := Entered.run hcode (hbefore.status_eq hstatus) hok
      exact ⟨hentered.priceFeeds_eq.trans hfeeds, hentered.collateralTokens_eq.trans htokens,
        hentered.dsc_eq.trans hdsc⟩

theorem collateral_eq (h : Traced w calls w') (hstatus : w._status = _NOT_ENTERED) :
    w'.s_collateralDeposited = calls.foldl Outermost.enters w.s_collateralDeposited := by
  induction h with
  | refl => rfl
  | elsewhere _ hstorage _ ih =>
      exact (Frozen.of_storage hstorage).collateral_eq.trans ih
  | call hbefore hcode hok ih =>
      rw [List.foldl_append, ← ih]
      exact (Entered.run hcode (hbefore.status_eq hstatus) hok).collateral_eq

theorem debt_le (h : Traced w calls w') (hstatus : w._status = _NOT_ENTERED) (v : Address) :
    (w'.s_DSCMinted v).toNat ≤
      (w.s_DSCMinted v).toNat + (calls.map (Outermost.borrows v)).sum := by
  induction h with
  | refl => exact Nat.le_add_right _ _
  | elsewhere _ hstorage _ ih => exact ((Frozen.of_storage hstorage).debt_le v).trans ih
  | call hbefore hcode hok ih =>
      have hcall := (Entered.run hcode (hbefore.status_eq hstatus) hok).debt_le v
      simp only [List.map_append, List.map_cons, List.map_nil, List.sum_append,
        List.sum_singleton, Outermost.borrows]
      omega

theorem allowed (h : Traced w calls w') (hstatus : w._status = _NOT_ENTERED) :
    ∀ e ∈ calls, e.call.Allowed e.msgSender e.found ∧ e.found.s_priceFeeds = w.s_priceFeeds := by
  induction h with
  | refl => exact fun _ he => absurd he List.not_mem_nil
  | elsewhere _ _ _ ih => exact ih
  | call hbefore hcode hok ih =>
      intro e he
      rcases List.mem_append.mp he with he | he
      · exact ih e he
      · cases List.mem_singleton.mp he
        have hopen := hbefore.status_eq hstatus
        exact ⟨(Entered.run hcode hopen hok).allowed, (hbefore.registry_eq hstatus).1⟩

end Traced

/-- **The deposit ledger is the replay of the outermost calls.** In every execution over
any code of the tokens, from a state with the guard open, the calls nested in others
leave no entry; the guard ends open, and the registry never changes. -/
theorem replays_of_traced (w w' : World) (calls : List Outermost) (h : Traced w calls w')
    (hstatus : w._status = _NOT_ENTERED) : Replays w calls w' := by
  obtain ⟨hfeeds, htokens, hdsc⟩ := h.registry_eq hstatus
  exact {
    status_eq := h.status_eq hstatus
    priceFeeds_eq := hfeeds
    collateralTokens_eq := htokens
    dsc_eq := hdsc
    collateral_eq := h.collateral_eq hstatus
    debt_le := h.debt_le hstatus
    allowed := h.allowed hstatus }

section Interrupted

open Deployment

def twoPositions : World :=
  anvil.run (openPosition USER (10 * 10 ^ 18) (10000 * 10 ^ 18) ++
    openPosition liquidator (20 * 10 ^ 18) (5000 * 10 ^ 18))

/-- A token that lets the liquidator burn some of its debt before it moves, and try to
liquidate the user after. -/
def interrupting : IERC20 :=
  .hooked (Tx.attempt (DSCEngine.Call.run IERC20.standard liquidator (.burnDsc (1000 * 10 ^ 18))))
    (Tx.attempt (DSCEngine.Call.run IERC20.standard liquidator (.liquidate weth USER 100)))

theorem confined_interrupting : interrupting.Confined :=
  confined_hooked (.attempt fun _ _ _ h => .of_call confined_standard h)
    (.attempt fun _ _ _ h => .of_call confined_standard h)

def interrupted : DSCEngine.Call := .redeemCollateral weth (5 * 10 ^ 18)

theorem traced_interrupted :
    Traced twoPositions [⟨twoPositions, liquidator, interrupted⟩]
      (Tx.attempt (interrupted.run interrupting liquidator) twoPositions) := by
  have hreturns : Tx.Returns (interrupted.run interrupting liquidator) twoPositions := by
    decide +kernel
  exact (Traced.refl twoPositions).call confined_interrupting hreturns.eq_ok

theorem replays_of_traced_interrupted :
    Replays twoPositions [⟨twoPositions, liquidator, interrupted⟩]
      (Tx.attempt (interrupted.run interrupting liquidator) twoPositions) :=
  replays_of_traced _ _ _ traced_interrupted rfl

end Interrupted

/-! ## What no execution can do -/

namespace Entered

variable {w w' : World} {msgSender user token : Address} {c : DSCEngine.Call}

theorem enter_apply (deposited : Address → Address → UInt256) (v t user token : Address)
    (value : UInt256) :
    DSCEngine.enter user token value deposited v t =
      if v = user ∧ t = token then value else deposited v t := by
  unfold DSCEngine.enter
  by_cases hv : v = user
  · subst hv
    by_cases ht : t = token
    · subst ht
      simp
    · simp [ht]
  · simp [hv]

/-- An entry on the ledger takes nothing from `user` unless it is a redemption of its
own, or a liquidation that found it unhealthy. -/
theorem collateral_le (h : Entered msgSender c w w') (hhealthy : w.Healthy user)
    (hredeem : msgSender = user → ¬c.Redeems) (t : Address) :
    (w.s_collateralDeposited user t).toNat ≤ (w'.s_collateralDeposited user t).toNat := by
  have hallowed := h.allowed
  rw [h.collateral_eq]
  cases c with
  | depositCollateral token a | depositCollateralAndMintDsc token a _ =>
      simp only [Call.enters, enter_apply]
      split
      · next heq =>
          obtain ⟨rfl, rfl⟩ := heq
          rw [BitVec.toNat_add_of_lt hallowed.2]
          exact Nat.le_add_right _ _
      · exact le_rfl
  | redeemCollateral token a | redeemCollateralForDsc token a _ =>
      simp only [Call.enters, enter_apply]
      split
      · next heq => exact absurd trivial (hredeem heq.1.symm)
      · exact le_rfl
  | liquidate token v x =>
      simp only [Call.enters, enter_apply]
      split
      · next heq => exact absurd (heq.1 ▸ hhealthy) hallowed.1
      · exact le_rfl
  | mintDsc | burnDsc => exact le_rfl

theorem unlisted (h : Entered msgSender c w w') (ht : w.s_priceFeeds token = 0)
    (hw : ∀ v, w.s_collateralDeposited v token = 0) (v : Address) :
    w'.s_collateralDeposited v token = 0 := by
  have hallowed := h.allowed
  rw [h.collateral_eq]
  cases c with
  | depositCollateral t a | depositCollateralAndMintDsc t a _ =>
      simp only [Call.enters, enter_apply]
      split
      · next heq => exact absurd (heq.2 ▸ ht) hallowed.1
      · exact hw v
  | redeemCollateral t a | redeemCollateralForDsc t a _ =>
      simp only [Call.enters, enter_apply]
      split
      · next heq =>
          obtain ⟨rfl, rfl⟩ := heq
          simp only [Call.Allowed, hw, toNat_zero, Nat.le_zero, toNat_eq_zero] at hallowed
          rw [hw, hallowed]
          rfl
      · exact hw v
  | liquidate t u x =>
      simp only [Call.enters, enter_apply]
      split
      · next heq =>
          obtain ⟨rfl, rfl⟩ := heq
          have hnone := hallowed.2
          rw [hw, toNat_zero, Nat.le_zero] at hnone
          rw [hw, hnone]
          rfl
      · exact hw v
  | mintDsc | burnDsc => exact hw v

end Entered

/-- **Collateral is safe while its owner stays healthy.** In every execution over any
code of the tokens, the deposits of an account that every outermost call finds healthy,
and that makes no redemption itself, never shrink. -/
theorem collateral_le_of_traced (w w' : World) (calls : List Outermost) (h : Traced w calls w')
    (hstatus : w._status = _NOT_ENTERED) (user : Address)
    (hhealthy : ∀ e ∈ calls, e.found.Healthy user)
    (hredeem : ∀ e ∈ calls, e.msgSender = user → ¬e.call.Redeems) (token : Address) :
    (w.s_collateralDeposited user token).toNat ≤
      (w'.s_collateralDeposited user token).toNat := by
  induction h with
  | refl => exact le_rfl
  | elsewhere _ hstorage _ ih =>
      rw [(Frozen.of_storage hstorage).collateral_eq]
      exact ih hhealthy hredeem
  | @call w₁ w₂ calls ierc20 msgSender c htraced hcode hok ih =>
      have hbefore := ih (fun e he => hhealthy e (List.mem_append_left _ he))
        (fun e he => hredeem e (List.mem_append_left _ he))
      have hopen := htraced.status_eq hstatus
      have hlast : (⟨w₁, msgSender, c⟩ : Outermost) ∈ calls ++ [⟨w₁, msgSender, c⟩] :=
        List.mem_append_right _ (List.mem_singleton.mpr rfl)
      have hentered := Entered.run hcode hopen hok
      exact hbefore.trans (hentered.collateral_le (hhealthy _ hlast) (hredeem _ hlast) token)

theorem collateral_le_of_traced_interrupted :
    (twoPositions.s_collateralDeposited Deployment.USER Deployment.weth).toNat ≤
      ((Tx.attempt (interrupted.run interrupting Deployment.liquidator)
        twoPositions).s_collateralDeposited Deployment.USER Deployment.weth).toNat := by
  refine collateral_le_of_traced _ _ _ traced_interrupted rfl Deployment.USER ?_ ?_ _
  · intro e he
    cases List.mem_singleton.mp he
    decide +kernel
  · intro e he
    cases List.mem_singleton.mp he
    exact fun heq => absurd heq (by decide)

/-- **In every reachable state** over any code of the tokens the guard is open, the
registry is the deployed one, and only registered tokens have been deposited. -/
theorem Deployment.storage_of_reachable (d : Deployment) (w : World) (h : d.Reachable w) :
    w._status = _NOT_ENTERED ∧ w.s_priceFeeds = d.genesis.s_priceFeeds ∧
      w.s_collateralTokens = d.s_tokenAddresses ∧ w.i_dsc = d.dsc ∧
      ∀ t, t ∉ d.s_tokenAddresses → ∀ v, w.s_collateralDeposited v t = 0 := by
  obtain ⟨calls, htraced⟩ := h.exists_traced
  obtain ⟨hfeeds, htokens, hdsc⟩ := htraced.registry_eq rfl
  refine ⟨htraced.status_eq rfl, hfeeds, htokens, hdsc, fun t ht => ?_⟩
  have hfeed : d.genesis.s_priceFeeds t = 0 := d.genesis_priceFeeds_of_not_mem ht
  clear hfeeds htokens hdsc h
  induction htraced with
  | refl => exact fun v => rfl
  | elsewhere _ hstorage _ ih =>
      rw [(Frozen.of_storage hstorage).collateral_eq]
      exact ih
  | call htraced hcode hok ih =>
      have hentered := Entered.run hcode (htraced.status_eq rfl) hok
      exact hentered.unlisted ((congrFun (htraced.registry_eq rfl).1 t).trans hfeed) ih

theorem Deployment.storage_of_reachable_crash :
    let w := anvil.run (crash (1500 * 10 ^ 8))
    w._status = _NOT_ENTERED ∧ w.s_priceFeeds = anvil.genesis.s_priceFeeds ∧
      w.s_collateralTokens = anvil.s_tokenAddresses ∧ w.i_dsc = anvil.dsc ∧
      ∀ t, t ∉ anvil.s_tokenAddresses → ∀ v, w.s_collateralDeposited v t = 0 :=
  storage_of_reachable anvil _ (reachable_run anvil (crash (1500 * 10 ^ 8)))

end DefiStablecoin
