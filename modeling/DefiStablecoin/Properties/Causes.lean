import DefiStablecoin.Proofs.Causes
import DefiStablecoin.Properties.Custody

/-!
# Why the engine reverts

In a reachable state of the deployed system every failure of an engine call says
something true about the operation that it refuses.  The engine is never short of the
collateral that it has to pay out, never fails to mint or to burn what it has checked,
and never finds its own guard closed.
-/

namespace DefiStablecoin

open Solidity OpenZeppelin World Lending

namespace DSCEngine

/-! ## Calls and their parts -/

/-- The single functions that a call runs, one after the other. -/
def Call.parts : Call → List Call
  | .depositCollateralAndMintDsc token amount amountDscToMint =>
      [.depositCollateral token amount, .mintDsc amountDscToMint]
  | .redeemCollateralForDsc token amount amountDscToBurn =>
      [.burnDsc amountDscToBurn, .redeemCollateral token amount]
  | c => [c]

def Call.runAll (ierc20 : IERC20) (msgSender : Address) : List Call → Tx World Revert Unit
  | [] => pure ()
  | c :: rest => do
      c.run ierc20 msgSender
      Call.runAll ierc20 msgSender rest

theorem Call.run_eq_runAll (ierc20 : IERC20) (msgSender : Address) (c : Call) :
    c.run ierc20 msgSender = Call.runAll ierc20 msgSender c.parts := by
  cases c <;>
    simp [Call.run, Call.parts, Call.runAll, DSCEngine.depositCollateralAndMintDsc,
      DSCEngine.redeemCollateralForDsc]

theorem Call.parts_of_mem {c part : Call} (h : part ∈ c.parts) : part.parts = [part] := by
  cases c <;> simp only [Call.parts, List.mem_cons, List.not_mem_nil, or_false] at h
  case depositCollateralAndMintDsc => rcases h with rfl | rfl <;> rfl
  case redeemCollateralForDsc => rcases h with rfl | rfl <;> rfl
  all_goals
    subst h
    rfl

theorem Call.ops_of_parts {c : Call} (h : c.parts = [c]) (m : Market) : ∃ op, c.ops m = [op] := by
  cases c with
  | depositCollateralAndMintDsc => cases h
  | redeemCollateralForDsc => cases h
  | _ => exact ⟨_, rfl⟩

/-- A row of calls fails with the failure of one of them, in the world that those
before it leave. -/
theorem Call.runAll_eq_error {ierc20 : IERC20} {msgSender : Address} {cs : List Call} {w : World}
    {e : Revert} (h : Call.runAll ierc20 msgSender cs w = .error e) :
    ∃ done c rest w', cs = done ++ c :: rest ∧
      Call.runAll ierc20 msgSender done w = .ok ((), w') ∧
      c.run ierc20 msgSender w' = .error e := by
  induction cs generalizing w with
  | nil => cases h
  | cons c rest ih =>
      cases hrun : c.run ierc20 msgSender w with
      | error e' =>
          have hfirst : Call.runAll ierc20 msgSender (c :: rest) w = .error e' := by
            change Except.bind (c.run ierc20 msgSender w) _ = _
            rw [hrun]
            rfl
          rw [hfirst] at h
          cases h
          exact ⟨[], c, rest, w, rfl, rfl, hrun⟩
      | ok r =>
          obtain ⟨_, w₁⟩ := r
          have hrest : Call.runAll ierc20 msgSender rest w₁ = .error e := by
            change Except.bind (c.run ierc20 msgSender w) _ = _ at h
            rw [hrun] at h
            exact h
          obtain ⟨done, c', rest', w', rfl, hdone, herror⟩ := ih hrest
          refine ⟨c :: done, c', rest', w', rfl, ?_, herror⟩
          exact Tx.bind_eq_ok.mpr ⟨(), w₁, hrun, hdone⟩

/-! ## What a failure says -/

def Asks (m : Market) : Op Address Address → Address → Prop
  | .deposit _ _, _ => False
  | .liquidate _ t _ _, t' => t' = t ∨ t' ∈ m.s_collateralTokens
  | _, t' => t' ∈ m.s_collateralTokens

/-- What an operation collects from its caller: of which token, and how much. -/
def collected (w : World) : Op Address Address → Option (Address × ℕ)
  | .deposit t a => some (t, a)
  | .repay x => some (w.i_dsc, x)
  | .liquidate _ _ _ x => some (w.i_dsc, x)
  | _ => none

/-- A number on the way of an operation of `c` does not fit its word, or is less than
what is taken from it. -/
def Overflows (c : Address) (w : World) : Op Address Address → Prop
  | .deposit t a => 2 ^ 256 ≤ w.book.collateral c t + a
  | .withdraw t a =>
      w.book.collateral c t < a ∨ w.market.ScoreOverflows (w.book.withdraw c t a) c
  | .borrow x =>
      2 ^ 256 ≤ w.book.debt c + x ∨ w.market.ScoreOverflows (w.book.borrow c x) c ∨
        2 ^ 256 ≤ w.supply + x
  | .repay x => w.book.debt c < x ∨ w.market.ScoreOverflows (w.book.repay c x) c
  | .liquidate target t seized x =>
      w.market.ScoreOverflows w.book target ∨ w.market.PayoutOverflows t x ∨
        w.book.collateral target t < seized ∨ w.book.debt target < x ∨
        ∃ u, (u = target ∨ u = c) ∧
          w.market.ScoreOverflows ((w.book.withdraw target t seized).repay target x) u

/-- What a failure of an operation of `c` says about the world that it was tried in. -/
def Explains (c : Address) (w : World) (op : Op Address Address) : Revert → Prop
  | .DSCEngine__Need_MoreThan_zero => op.amount = 0
  | .DSCEngine__Not_Allowed_Token => ∃ t a, op = .deposit t a ∧ w.s_priceFeeds t = 0
  | .DSCEngine__Breaks_Health_Factor hf =>
      (∀ t a, op ≠ .deposit t a) ∧ hf.toNat < 10 ^ 18 ∧
        hf.toNat = w.market.terms.scoreOf (op.apply c w.book) c
  | .DSCEngine__Health_Factor_OK => ∃ target, op.target = some target ∧ w.Healthy target
  | .DSCEngine__Health_Factor_Not_Improved =>
      ∃ target, op.target = some target ∧
        w.market.terms.scoreOf (op.apply c w.book) target ≤ w.healthFactorOf target
  | .OracleLib__StalePrice => FeedFailure w.market (Asks w.market op) .OracleLib__StalePrice
  | .noCode => FeedFailure w.market (Asks w.market op) .noCode
  | .panic code =>
      (code = arithmeticPanic ∧ Overflows c w op) ∨
        (code = divisionPanic ∧ ∃ target t seized x, op = .liquidate target t seized x ∧
          w.market.Quoted t ∧ w.market.price t = 0)
  | .error reason =>
      ∃ t a, collected w op = some (t, a) ∧
        ERC20.CollectFailure c w.this a (w.token t) reason
  | .DSCEngine__TokenAddresses_And_PriceFeedAddresses_MustBe_Same_Length => False
  | .DSCEngine__Transfer_Failed => False
  | .DSCEngine__Mint_Failed => False
  | .DecentralizedStableCoin__Amount_MustBe_MoreThan_Zero => False
  | .DecentralizedStableCoin__Burn_Amount_Exceeeds_Balance => False
  | .DecentralizedStableCoin__Mint_Must_NotBe_Zero_Address => False

section Parts

variable {c token user : Address} {w : World} {op : Op Address Address} {e : Revert}
  {amount : UInt256}

theorem explains_feed (h : FeedFailure w.market (Asks w.market op) e) : Explains c w op e := by
  cases h with
  | noCode hasked hfeed => exact .noCode hasked hfeed
  | stale hasked hfeed hold => exact .stale hasked hfeed hold

theorem explains_overflow (h : Overflows c w op) : Explains c w op (.panic arithmeticPanic) :=
  .inl ⟨rfl, h⟩

theorem asks_of_mem {m : Market} {t : Address} (hop : ∀ t a, op ≠ .deposit t a)
    (ht : t ∈ m.s_collateralTokens) : Asks m op t := by
  cases op with
  | deposit t a => exact absurd rfl (hop t a)
  | liquidate => exact .inr ht
  | _ => exact ht

theorem healthFactor_explains {w' : World} (hmarket : w'.market = w.market)
    (hop : ∀ t a, op ≠ .deposit t a)
    (hoverflow : w.market.ScoreOverflows w'.book user → Overflows c w op) :
    Raises (Explains c w op) (_healthFactor user w') := by
  have htokens : w'.s_collateralTokens = w.market.s_collateralTokens :=
    congrArg Market.s_collateralTokens hmarket
  have hfeed : ∀ e, FeedFailure w'.market (Asks w.market op) e → Explains c w op e :=
    fun e h => explains_feed (hmarket ▸ h)
  exact _healthFactor_raises hfeed
    (fun t ht => asks_of_mem hop (htokens ▸ ht))
    fun hscore => explains_overflow (hoverflow (hmarket ▸ hscore))

theorem check_explains {w' : World} (hmarket : w'.market = w.market)
    (hbook : w'.book = op.apply c w.book) (hop : ∀ t a, op ≠ .deposit t a)
    (hoverflow : w.market.ScoreOverflows (op.apply c w.book) c → Overflows c w op) :
    Raises (Explains c w op) (_revertIfHealthFactorIsBroken c w') := by
  refine .bind (healthFactor_explains hmarket hop fun hscore => hoverflow (hbook ▸ hscore))
    fun hf hok => .failIf fun hlow => ⟨hop, BitVec.lt_def.mp hlow, ?_⟩
  rw [(_healthFactor_eq_ok.mp hok).2, World.healthFactorOf, hmarket, hbook]

/-- The stablecoin is not deposited, so a liquidation does not pay it out. -/
theorem token_dsc_seized {seized : UInt256} (hdsc : w.s_collateralDeposited user w.i_dsc = 0)
    (hcover : seized.toNat ≤ (w.s_collateralDeposited user token).toNat) :
    (((w.setStatus _ENTERED).debit user token seized).pay token w.this c seized).token w.i_dsc =
      w.token w.i_dsc := by
  by_cases htoken : token = w.i_dsc
  · subst htoken
    rw [hdsc, toNat_zero, Nat.le_zero, toNat_eq_zero] at hcover
    subst hcover
    exact (setToken_token_self ..).trans (ERC20.move_zero ..)
  · exact Function.update_of_ne (Ne.symm htoken) _ _

variable (hstatus : w._status = _NOT_ENTERED) (hthis : w.this ≠ 0)

include hstatus hthis

theorem depositCollateral_raises :
    Raises (Explains c w (.deposit token amount.toNat))
      (depositCollateral IERC20.standard c token amount w) := by
  refine moreThanZero_raises toNat_eq_zero.mpr fun _ => isAllowedToken_raises
    (fun hnone => ⟨token, _, rfl, hnone⟩) (nonReentrant_raises hstatus ?_)
  refine .update_bind (.bind (.checkedAdd fun hlarge => explains_overflow hlarge) fun _ _ => .ok _)
    fun w₁ hcredit => .read_bind ?_
  obtain ⟨_, _, hcredited⟩ := except_bind_eq_ok.mp hcredit
  cases hcredited
  refine .tx_bind (callToken_raises ?_) fun success w₂ hcollected => .revertIf fun hfalse => ?_
  · exact ERC20.transferFrom_raises hthis fun reason h => ⟨token, _, rfl, h⟩
  · cases (callToken_transferFrom_eq_ok.mp hcollected).2
    cases hfalse

theorem redeemCollateral_raises
    (hheld : (w.s_collateralDeposited c token).toNat ≤ w.holdings token)
    (hnobody : w.s_collateralDeposited 0 token = 0) :
    Raises (Explains c w (.withdraw token amount.toNat))
      (redeemCollateral IERC20.standard c token amount w) := by
  refine moreThanZero_raises toNat_eq_zero.mpr fun hne => nonReentrant_raises hstatus
    (.tx_bind (_redeemCollateral_raises hthis hheld (fun hlow => explains_overflow (.inl hlow)) ?_)
      fun _ w₁ hredeem => ?_)
  · rintro rfl hcover
    have hcover : amount.toNat ≤ (w.s_collateralDeposited 0 token).toNat := hcover
    rw [hnobody, toNat_zero, Nat.le_zero, toNat_eq_zero] at hcover
    exact absurd hcover hne
  · rw [← IERC20.hooked_id, _redeemCollateral_eq_ok] at hredeem
    obtain ⟨hcover, _, rfl⟩ := hredeem
    exact .view (check_explains rfl (book_debit (w := w.setStatus _ENTERED) hcover) nofun .inr)

omit hthis in
theorem mintDsc_raises (howner : w.dscOwner = w.this)
    (hnobody : ∀ t, w.s_collateralDeposited 0 t = 0) :
    Raises (Explains c w (.borrow amount.toNat)) (mintDsc c amount w) := by
  refine moreThanZero_raises toNat_eq_zero.mpr fun hne => nonReentrant_raises hstatus
    (.update_bind (.bind (.checkedAdd fun hlarge => explains_overflow (.inl hlarge))
      fun _ _ => .ok _) fun w₁ hlend => ?_)
  obtain ⟨_, hadd, hlent⟩ := except_bind_eq_ok.mp hlend
  obtain ⟨hfits, rfl⟩ := checkedAdd_eq_ok.mp hadd
  cases hlent
  refine .view_bind (check_explains rfl (book_lend (w := w.setStatus _ENTERED) hfits) nofun
    fun hscore => .inr (.inl hscore)) fun _ hchecked => .read_bind ?_
  obtain ⟨_, hhealthy⟩ := _revertIfHealthFactorIsBroken_eq_ok.mp hchecked
  -- the zero address has deposited nothing, so its debt would not have passed the check
  have haccount : c ≠ 0 := by
    rintro rfl
    have hvalue : w.market.terms.value (w.book.collateral 0) = 0 := by
      simp [World.book, hnobody, Terms.value_zero]
    have hsum : (w.s_DSCMinted 0 + amount).toNat = (w.s_DSCMinted 0).toNat + amount.toNat :=
      BitVec.toNat_add_of_lt hfits
    have hdebt : ((w.lend 0 amount).s_DSCMinted 0).toNat =
        (w.s_DSCMinted 0).toNat + amount.toNat := by
      simp [lend, hsum]
    have howes : 2 * ((w.lend 0 amount).s_DSCMinted 0).toNat ≤ 0 :=
      ((World.healthy_iff _ _).mp hhealthy).trans_eq hvalue
    have hpos := toNat_pos_of_ne_zero hne
    omega
  refine .tx_bind (callDsc_mint_raises howner haccount hne fun hlarge =>
    explains_overflow (.inr (.inr hlarge))) fun success w₂ hminted => .revertIf fun hfalse => ?_
  cases (callDsc_mint_eq_ok.mp hminted).2
  cases hfalse

omit hstatus in
theorem burnDsc_raises (htokens : w.TokensSound) (howner : w.dscOwner = w.this) :
    Raises (Explains c w (.repay amount.toNat)) (burnDsc c amount w) := by
  refine moreThanZero_raises toNat_eq_zero.mpr fun hne => .tx_bind (_burnDsc_raises htokens howner
    hthis hne (fun hlow => explains_overflow (.inl hlow)) fun reason h => ⟨w.i_dsc, _, rfl, h⟩)
      fun _ w₁ hburn => ?_
  obtain ⟨hrepay, rfl⟩ := _burnDsc_eq_ok.mp hburn
  exact .view (check_explains rfl (book_repaid c hrepay.1) nofun .inr)

theorem liquidate_raises (htokens : w.TokensSound) (howner : w.dscOwner = w.this)
    (hheld : (w.s_collateralDeposited user token).toNat ≤ w.holdings token)
    (hdsc : ∀ u, w.s_collateralDeposited u w.i_dsc = 0) :
    Raises (Explains c w (.liquidate user token
        (payout (w.market.price token) amount.toNat) amount.toNat))
      (liquidate IERC20.standard c token user amount w) := by
  have hpanic : w.market.PayoutOverflows token amount.toNat → Explains c w (.liquidate user token
      (payout (w.market.price token) amount.toNat) amount.toNat) (.panic arithmeticPanic) :=
    fun hlarge => explains_overflow (.inr (.inl hlarge))
  refine moreThanZero_raises toNat_eq_zero.mpr fun hne => nonReentrant_raises hstatus ?_
  refine .view_bind (healthFactor_explains rfl nofun fun hscore => .inl hscore) fun start hstart =>
    .revertIf_bind (fun hok => ?_) fun _ => .view_bind (getTokenAmountFromUsd_raises
      (fun e h => explains_feed h) (.inl rfl) hpanic ?_) fun equal hequal =>
        .view_bind (.checkedMul ?_) fun scaled hscaled => .view_bind (.checkedDiv ?_)
          fun bonus hbonus => .view_bind (.checkedAdd ?_) fun seized hseized => ?_
  · have hhealthy : MIN_HEALTH_FACTOR.toNat ≤ start.toNat := BitVec.le_def.mp hok
    rw [(_healthFactor_eq_ok.mp hstart).2] at hhealthy
    exact ⟨user, rfl, Terms.threshold_le_scoreOf.mp hhealthy⟩
  · exact fun hquoted hzero => .inr ⟨rfl, user, token, _, _, rfl, hquoted, hzero⟩
  · obtain ⟨⟨round, hround, hfresh, _⟩, _, _, hworth⟩ := getTokenAmountFromUsd_eq_ok.mp hequal
    rw [hworth]
    exact fun hlarge => hpanic ⟨round, hround, .inr ⟨hfresh, .inr (.inr hlarge)⟩⟩
  · exact fun hzero => absurd hzero (by decide)
  · -- ten times the amount fits, so a tenth more than it does
    intro hlarge
    have htenfold := checkedMul_eq_ok_toNat.mp hscaled
    have htenth := (checkedDiv_eq_ok_toNat.mp hbonus).2
    rw [toNat_LIQUIDATION_BONUS] at htenfold
    rw [toNat_LIQUIDATION_PRECISION] at htenth
    have hfits := scaled.isLt
    omega
  · obtain ⟨_, hseized⟩ :=
      payout_eq_ok.mp ⟨equal, hequal, scaled, hscaled, bonus, hbonus, hseized⟩
    have hpayout : payout (w.market.price token) amount.toNat = seized.toNat := hseized.symm
    rw [hpayout]
    refine .tx_bind (_redeemCollateral_raises hthis hheld
      (fun hlow => explains_overflow (.inr (.inr (.inl hlow))))
      fun hzero _ => ⟨w.i_dsc, _, rfl, .transferToZero hzero⟩) fun _ w₁ hredeem => ?_
    rw [← IERC20.hooked_id, _redeemCollateral_eq_ok] at hredeem
    obtain ⟨hcover, hpay, rfl⟩ := hredeem
    have htokens' := TokensSound.pay (w := (w.setStatus _ENTERED).debit user token seized)
      ⟨htokens.wellFormed, htokens.noAllowance⟩ hpay
    refine .tx_bind (_burnDsc_raises htokens' howner hthis hne
      (fun hlow => explains_overflow (.inr (.inr (.inr (.inl hlow)))))
      fun reason h => ⟨w.i_dsc, _, rfl, ?_⟩) fun _ w₂ hburn => ?_
    · rw [← token_dsc_seized (hdsc user) hcover]
      exact h
    · obtain ⟨hrepay, rfl⟩ := _burnDsc_eq_ok.mp hburn
      have hbook := book_liquidated c hcover hrepay.1
      refine .view_bind (healthFactor_explains rfl nofun fun hscore =>
        .inr (.inr (.inr (.inr ⟨user, .inl rfl, hbook ▸ hscore⟩)))) fun ending hending =>
          .revertIf_bind (fun hnot => ⟨user, rfl, ?_⟩) fun _ => .view (check_explains rfl hbook
            nofun fun hscore => .inr (.inr (.inr (.inr ⟨c, .inr rfl, hscore⟩))))
      have hending := (_healthFactor_eq_ok.mp hending).2.trans
        (congrArg (w.market.terms.scoreOf · user) hbook)
      have hle := BitVec.le_def.mp hnot
      rw [hending, (_healthFactor_eq_ok.mp hstart).2] at hle
      exact hle

end Parts

end DSCEngine

namespace Deployment

open DSCEngine

variable {d : Deployment}

theorem dsc_deposited {w : World} (h : d.Sound w) (user : Address) :
    w.s_collateralDeposited user w.i_dsc = 0 := by
  apply h.unlisted
  rw [h.priceFeeds_eq, h.dsc_eq]
  exact d.genesis_priceFeeds_of_not_mem d.dsc_not_mem

theorem part_raises (actions : List (Action d)) (msgSender : d.Account) {c : DSCEngine.Call}
    (hpart : c.parts = [c]) :
    ∃ op, c.ops (d.run actions).market = [op] ∧
      Raises (Explains msgSender (d.run actions) op)
        (c.run IERC20.standard msgSender (d.run actions)) := by
  have h := d.sound_run actions
  cases c with
  | depositCollateral t a => exact ⟨_, rfl, depositCollateral_raises h.status_eq h.this_ne_zero⟩
  | redeemCollateral t a =>
      exact ⟨_, rfl, redeemCollateral_raises h.status_eq h.this_ne_zero
        (d.holdings_ge actions msgSender t) (d.zero_deposited_run actions t)⟩
  | mintDsc x =>
      exact ⟨_, rfl, mintDsc_raises h.status_eq h.owner_this (d.zero_deposited_run actions)⟩
  | burnDsc x => exact ⟨_, rfl, burnDsc_raises h.this_ne_zero h.tokens h.owner_this⟩
  | liquidate t user x =>
      exact ⟨_, rfl, liquidate_raises h.status_eq h.this_ne_zero h.tokens h.owner_this
        (d.holdings_ge actions user t) (dsc_deposited h)⟩
  | depositCollateralAndMintDsc t a x => cases hpart
  | redeemCollateralForDsc t a x => cases hpart

theorem runAll_eq_run {msgSender : d.Account} {cs : List DSCEngine.Call} {w : World}
    (actions : List (Action d))
    (h : Call.runAll IERC20.standard msgSender cs (d.run actions) = .ok ((), w)) :
    w = d.run (actions ++ cs.map (Action.engine msgSender)) := by
  induction cs generalizing actions with
  | nil =>
      cases h
      rw [List.map_nil, List.append_nil]
  | cons c rest ih =>
      obtain ⟨_, w₁, hfirst, hrest⟩ := Tx.bind_eq_ok.mp h
      have hstep : d.run (actions ++ [.engine msgSender c]) = w₁ :=
        (Machine.run_append _ _ _).trans (Tx.attempt_of_ok hfirst)
      rw [← hstep] at hrest
      have hrun := ih _ hrest
      rwa [List.append_assoc] at hrun

/-- **Every failure of an engine call is explained** by the function of it that failed
and the world that this function found. -/
theorem failure_explained (d : Deployment) (actions : List (Action d)) (msgSender : d.Account)
    (c : DSCEngine.Call) (e : Revert)
    (h : c.run IERC20.standard msgSender (d.run actions) = .error e) :
    ∃ done part rest op w, c.parts = done ++ part :: rest ∧
      Call.runAll IERC20.standard msgSender done (d.run actions) = .ok ((), w) ∧
      part.run IERC20.standard msgSender w = .error e ∧ part.ops w.market = [op] ∧
      Explains msgSender w op e := by
  rw [Call.run_eq_runAll] at h
  obtain ⟨done, part, rest, w, hparts, hdone, hpart⟩ := Call.runAll_eq_error h
  have hsingle : part.parts = [part] :=
    Call.parts_of_mem (hparts ▸ List.mem_append_right done (List.mem_cons_self ..))
  have hreached := runAll_eq_run actions hdone
  obtain ⟨op, hop, hraises⟩ := part_raises (actions ++ done.map (.engine msgSender)) msgSender
    hsingle
  rw [← hreached] at hop hraises
  exact ⟨done, part, rest, op, w, hparts, hdone, hpart, hop, hraises e hpart⟩

/-- After half of the debt is repaid, not all of the collateral can be redeemed. -/
theorem failure_explained_anvil :
    let c := Call.redeemCollateralForDsc weth (10 * 10 ^ 18) (5000 * 10 ^ 18)
    ∃ done part rest op w, c.parts = done ++ part :: rest ∧
      Call.runAll IERC20.standard USER done
        (anvil.run (openPosition USER (10 * 10 ^ 18) (10000 * 10 ^ 18))) = .ok ((), w) ∧
      part.run IERC20.standard USER w = .error (.DSCEngine__Breaks_Health_Factor 0) ∧
      part.ops w.market = [op] ∧ Explains USER w op (.DSCEngine__Breaks_Health_Factor 0) :=
  failure_explained anvil (openPosition USER (10 * 10 ^ 18) (10000 * 10 ^ 18)) USER
    (.redeemCollateralForDsc weth (10 * 10 ^ 18) (5000 * 10 ^ 18))
    (.DSCEngine__Breaks_Health_Factor 0) (eq_error_of_failure (by decide +kernel))

end Deployment

end DefiStablecoin
