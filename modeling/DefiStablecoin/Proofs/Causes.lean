import DefiStablecoin.Proofs.Accounting
import DefiStablecoin.Proofs.Refinement
import DefiStablecoin.Solidity.Raises

/-!
# What the engine's parts fail with

Each lemma takes one function apart, for any set `S` of failures that has what the
function can raise: the views that ask feeds, the modifiers, and the transfers of
standard tokens.
-/

namespace DefiStablecoin

open Solidity OpenZeppelin World OracleLib

/-! ## Transfers -/

namespace OpenZeppelin.ERC20

inductive CollectFailure (source spender : Address) (amount : ℕ) (k : ERC20) : String → Prop
  | allowance (h : (k._allowances source spender).toNat < amount) :
      CollectFailure source spender amount k "ERC20: insufficient allowance"
  | balance (h : (k._balances source).toNat < amount) :
      CollectFailure source spender amount k "ERC20: transfer amount exceeds balance"
  | approveFromZero (h : source = 0) :
      CollectFailure source spender amount k "ERC20: approve from the zero address"
  | transferFromZero (h : source = 0) :
      CollectFailure source spender amount k "ERC20: transfer from the zero address"
  | transferToZero (h : source = 0) :
      CollectFailure source spender amount k "ERC20: transfer to the zero address"

variable {ε : Type} [SolidityError ε] {S : ε → Prop} {k : ERC20}
  {source recipient spender : Address} {amount : UInt256}

theorem move_zero (source recipient : Address) (k : ERC20) : k.move source recipient 0 = k := by
  simp [move, shift]

theorem CanSpend.le_allowance (h : CanSpend source spender amount k) :
    amount.toNat ≤ (k._allowances source spender).toNat := by
  rcases h with hmax | ⟨hle, _⟩
  · rw [hmax, toNat_maxUInt256]
    exact Nat.le_pred_of_lt amount.isLt
  · exact hle

theorem require_raises {p : Prop} [Decidable p] {reason : String}
    (h : ¬p → S (SolidityError.error reason)) : Raises S (require p reason) := by
  unfold require
  split
  · exact .ok _
  · exact .error (h ‹¬p›)

theorem transfer_raises (hne : source ≠ 0) (hcover : amount.toNat ≤ (k._balances source).toNat)
    (hzero : recipient = 0 → S (SolidityError.error "ERC20: transfer to the zero address")) :
    Raises S (transfer source recipient amount k) := by
  unfold transfer _transfer
  refine .bind (.bind (require_raises fun h => absurd hne h) fun _ _ =>
    .bind (require_raises fun h => hzero (not_not.mp h)) fun _ _ =>
      .bind (require_raises fun h => ?_) fun _ _ => .ok _) fun _ _ => .ok _
  exact absurd (BitVec.le_def.mpr hcover) h

theorem transferFrom_raises (hne : spender ≠ 0)
    (hS : ∀ reason, CollectFailure source spender amount.toNat k reason →
      S (SolidityError.error reason)) :
    Raises S (transferFrom spender source spender amount k) := by
  unfold transferFrom _transfer
  refine .bind ?_ fun k' hspent => .bind (.bind (require_raises fun h => ?_) fun _ _ =>
    .bind (require_raises fun h => absurd hne h) fun _ _ =>
      .bind (require_raises fun h => ?_) fun _ _ => .ok _) fun _ _ => .ok _
  · unfold _spendAllowance _approve
    dsimp only
    split
    · refine .bind (require_raises fun h => ?_) fun _ _ =>
        .bind (require_raises fun h => ?_) fun _ _ =>
          .bind (require_raises fun h => absurd hne h) fun _ _ => .ok _
      · exact hS _ (.allowance (BitVec.lt_def.mp (BitVec.not_le.mp h)))
      · exact hS _ (.approveFromZero (not_not.mp h))
    · exact .ok _
  · exact hS _ (.transferFromZero (not_not.mp h))
  · obtain ⟨_, rfl⟩ := _spendAllowance_eq_ok.mp hspent
    rw [spend_balances] at h
    exact hS _ (.balance (BitVec.lt_def.mp (BitVec.not_le.mp h)))

end OpenZeppelin.ERC20

theorem callToken_raises {S : Revert → Prop} {w : World} {token : Address}
    {f : ERC20 → Except Revert (Bool × ERC20)} (h : Raises S (f (w.token token))) :
    Raises S (callToken token f w) := by
  intro e he
  apply h e
  unfold callToken at he
  cases hf : f (w.token token) with
  | ok r => simp [hf] at he
  | error e' =>
      rw [hf] at he
      cases he
      rfl

/-- To an account, the owner of the stablecoin can mint whatever the supply has room for. -/
theorem callDsc_mint_raises {S : Revert → Prop} {w : World} {recipient : Address}
    {amount : UInt256} (howner : w.dscOwner = w.this) (hne : recipient ≠ 0) (hpos : amount ≠ 0)
    (hlarge : 2 ^ 256 ≤ w.supply + amount.toNat → S (.panic arithmeticPanic)) :
    Raises S (callDscReturning (DecentralizedStableCoin.mint w.this recipient amount) w) := by
  by_cases hfits : w.supply + amount.toNat < 2 ^ 256
  · exact .of_ok (callDsc_mint_eq_ok.mpr ⟨⟨howner, hne, hpos, hfits⟩, rfl⟩)
  · intro e he
    have hpanic : DecentralizedStableCoin.mint w.this recipient amount w.dsc =
        .error (.panic arithmeticPanic) := by
      have howner' : w.dsc._owner = w.this := howner
      have hfits' : ¬(w.dsc._totalSupply.toNat + amount.toNat < 2 ^ 256) := hfits
      have hle : ¬amount ≤ 0 := not_le_zero_iff.mpr hpos
      simp only [DecentralizedStableCoin.mint, DecentralizedStableCoin.onlyOwner, ERC20.require,
        ERC20._mint, failIf, checkedAdd, howner', hne, hle, hfits', if_true, if_false, ne_eq,
        not_false_eq_true]
      rfl
    unfold callDscReturning at he
    rw [hpanic] at he
    cases he
    exact hlarge (not_lt.mp hfits)

/-! ## Views -/

inductive FeedFailure (m : Market) (asked : Address → Prop) : Revert → Prop
  | noCode {token : Address} (hasked : asked token)
      (hfeed : m.feed (m.s_priceFeeds token) = none) : FeedFailure m asked .noCode
  | stale {token : Address} {round : RoundData} (hasked : asked token)
      (hfeed : m.feed (m.s_priceFeeds token) = some round)
      (hold : round.updatedAt.toNat + TIMEOUT.toNat < m.timestamp.toNat) :
      FeedFailure m asked .OracleLib__StalePrice

namespace Market

variable (m : Market)

/-- The feed of the token answers in time for an overflow: its round is dated after the
present, or it is fresh and its price cannot be scaled or something else is `large`. -/
def Overflows (token : Address) (large : Prop) : Prop :=
  ∃ round, m.feed (m.s_priceFeeds token) = some round ∧
    (m.timestamp.toNat < round.updatedAt.toNat ∨
      Fresh m.timestamp round ∧ (2 ^ 256 ≤ m.price token * 10 ^ 10 ∨ large))

/-- The valuation of a row of deposits overflows at some token, where all before it are quoted. -/
def ValueOverflows (deposited : Address → ℕ) : Prop :=
  ∃ done token rest, m.s_collateralTokens = done ++ token :: rest ∧ (∀ t ∈ done, m.Quoted t) ∧
    m.Overflows token (2 ^ 256 ≤ m.price token * 10 ^ 10 * deposited token ∨
      2 ^ 256 ≤ ((done ++ [token]).map fun t => usdValue (m.price t) (deposited t)).sum)

def ScoreOverflows (b : Lending.Book Address Address) (user : Address) : Prop :=
  m.ValueOverflows (b.collateral user) ∨
    m.Valued (b.collateral user) ∧ b.debt user ≠ 0 ∧
      (2 ^ 256 ≤ m.terms.value (b.collateral user) * 50 ∨
        2 ^ 256 ≤ m.terms.value (b.collateral user) / 2 * 10 ^ 18)

def PayoutOverflows (token : Address) (debtToCover : ℕ) : Prop :=
  m.Overflows token (2 ^ 256 ≤ debtToCover * 10 ^ 18 ∨
    2 ^ 256 ≤ tokenAmount (m.price token) debtToCover * 10)

end Market

namespace DSCEngine

variable {w : World} {asked : Address → Prop} {S : Revert → Prop} {token user : Address}
  {amount : UInt256}

theorem _calculateHealthFactor_raises {totalDscMinted value : UInt256}
    (hoverflow : totalDscMinted.toNat ≠ 0 →
      2 ^ 256 ≤ value.toNat * 50 ∨ 2 ^ 256 ≤ value.toNat / 2 * 10 ^ 18 →
        S (.panic arithmeticPanic)) :
    Raises S (_calculateHealthFactor totalDscMinted value) := by
  unfold _calculateHealthFactor
  split
  · exact .ok _
  · next hdebt =>
      have hpos : totalDscMinted.toNat ≠ 0 := fun hzero => hdebt (toNat_eq_zero.mp hzero)
      refine .bind (.checkedMul fun hlarge => hoverflow hpos (.inl hlarge))
        fun weighted hweighted => .bind (.checkedDiv fun hzero => absurd hzero (by decide))
          fun half hhalf => .bind (.checkedMul fun hlarge => hoverflow hpos (.inr ?_)) fun _ _ =>
            .checkedDiv fun hzero => absurd hzero hpos
      rw [checkedMul_eq_ok_toNat, toNat_LIQUIDATION_THRESHOLD] at hweighted
      rw [checkedDiv_eq_ok_toNat, hweighted, toNat_LIQUIDATION_PRECISION, half_eq] at hhalf
      rw [hhalf.2] at hlarge
      exact hlarge

theorem overflows_of_round {round : RoundData} {large : Prop}
    (hround : staleCheckLatestRoundData (w.s_priceFeeds token) w = .ok round)
    (h : 2 ^ 256 ≤ round.answer.toNat * 10 ^ 10 ∨ large) : w.market.Overflows token large := by
  obtain ⟨hsome, hfresh⟩ := staleCheckLatestRoundData_eq_ok.mp hround
  exact ⟨round, hsome, .inr ⟨hfresh, (price_of_round hround).symm ▸ h⟩⟩

section Views

variable (hfeed : ∀ e, FeedFailure w.market asked e → S e)

include hfeed

theorem staleCheck_raises (hasked : asked token)
    (hfuture : ∀ round, w.market.feed (w.market.s_priceFeeds token) = some round →
      w.market.timestamp.toNat < round.updatedAt.toNat → S (.panic arithmeticPanic)) :
    Raises S (staleCheckLatestRoundData (w.s_priceFeeds token) w) := by
  unfold staleCheckLatestRoundData
  have hlatest : ∀ {round}, latestRoundData (w.s_priceFeeds token) w = .ok round →
      w.feed (w.s_priceFeeds token) = some round := by
    intro round hround
    unfold latestRoundData at hround
    split at hround
    · next hsome =>
        cases hround
        exact hsome
    · cases hround
  refine .bind ?_ fun round hround => .bind (.checkedSub fun hlate =>
    hfuture round (hlatest hround) hlate) fun since hsince => .bind (.failIf fun hold => ?_)
      fun _ _ => .ok _
  · unfold latestRoundData
    split
    · exact .ok _
    · next hnone => exact .error (hfeed _ (.noCode hasked hnone))
  · obtain ⟨hle, rfl⟩ := checkedSub_eq_ok.mp hsince
    apply hfeed
    refine .stale hasked (hlatest hround) ?_
    have hlate := BitVec.lt_def.mp hold
    rw [BitVec.toNat_sub_of_le (BitVec.le_def.mpr hle)] at hlate
    exact Nat.add_lt_of_lt_sub' hlate

theorem getUsdValue_raises (hasked : asked token)
    (hoverflow : w.market.Overflows token
      (2 ^ 256 ≤ w.market.price token * 10 ^ 10 * amount.toNat) → S (.panic arithmeticPanic)) :
    Raises S (getUsdValue token amount w) := by
  unfold getUsdValue
  refine .bind (staleCheck_raises hfeed hasked fun round hsome hlate =>
    hoverflow ⟨round, hsome, .inl hlate⟩) fun round hround =>
      .bind (.checkedMul fun hlarge => hoverflow (overflows_of_round hround (.inl hlarge)))
        fun price hprice => .bind (.checkedMul fun hlarge => ?_) fun _ _ =>
          .checkedDiv fun hzero => absurd hzero (by decide)
  apply hoverflow
  refine overflows_of_round hround (.inr ?_)
  rw [checkedMul_eq_ok_toNat, toNat_ADDITIONAL_FEED_PRECISION, ← price_of_round hround] at hprice
  rwa [hprice] at hlarge

/-- The loop of `getAccountCollateralValue` after the tokens that are `done`. -/
theorem addCollateralValues_raises {done tokens : List Address} {acc : UInt256}
    (htokens : w.s_collateralTokens = done ++ tokens) (hdone : ∀ t ∈ done, w.market.Quoted t)
    (hacc : acc.toNat =
      (done.map fun t => usdValue (w.market.price t) (w.book.collateral user t)).sum)
    (hasked : ∀ t ∈ tokens, asked t)
    (hoverflow : w.market.ValueOverflows (w.book.collateral user) → S (.panic arithmeticPanic)) :
    Raises S (addCollateralValues user w tokens acc) := by
  induction tokens generalizing done acc with
  | nil => exact .ok _
  | cons t rest ih =>
      unfold addCollateralValues
      have hhere : ∀ {large : Prop}, w.market.Overflows t large →
          (large → 2 ^ 256 ≤ w.market.price t * 10 ^ 10 * w.book.collateral user t ∨
            2 ^ 256 ≤ ((done ++ [t]).map fun t =>
              usdValue (w.market.price t) (w.book.collateral user t)).sum) →
          S (.panic arithmeticPanic) := by
        rintro large ⟨round, hsome, hcause⟩ hlarge
        exact hoverflow ⟨done, t, rest, htokens, hdone, round, hsome,
          hcause.imp_right fun h => ⟨h.1, h.2.imp_right hlarge⟩⟩
      refine .bind (getUsdValue_raises hfeed (hasked t (List.mem_cons_self ..))
        fun h => hhere h .inl) fun value hvalue => ?_
      obtain ⟨hquoted, _, hworth⟩ := getUsdValue_eq_ok.mp hvalue
      have hsum : ((done ++ [t]).map fun t =>
          usdValue (w.market.price t) (w.book.collateral user t)).sum =
            acc.toNat + value.toNat := by
        rw [List.map_append, List.sum_append, ← hacc, hworth, List.map_singleton,
          List.sum_singleton]
        rfl
      refine .bind (.checkedAdd fun hlarge => ?_) fun total htotal => ?_
      · obtain ⟨round, hsome, hfresh, _⟩ := hquoted
        exact hhere ⟨round, hsome, .inr ⟨hfresh, .inr (hsum ▸ hlarge)⟩⟩ .inr
      · have hsplit : w.s_collateralTokens = (done ++ [t]) ++ rest := by
          rw [htokens, List.append_assoc]
          rfl
        refine ih hsplit ?_ ?_ fun t' ht' => hasked t' (List.mem_cons_of_mem _ ht')
        · intro t' ht'
          rcases List.mem_append.mp ht' with hmem | hmem
          · exact hdone t' hmem
          · exact List.mem_singleton.mp hmem ▸ hquoted
        · rw [hsum]
          exact checkedAdd_eq_ok_toNat.mp htotal

theorem getTokenAmountFromUsd_raises (hasked : asked token)
    (hoverflow : w.market.PayoutOverflows token amount.toNat → S (.panic arithmeticPanic))
    (hzero : w.market.Quoted token → w.market.price token = 0 → S (.panic divisionPanic)) :
    Raises S (getTokenAmountFromUsd token amount w) := by
  refine .bind (staleCheck_raises hfeed hasked fun round hsome hlate =>
    hoverflow ⟨round, hsome, .inl hlate⟩) fun round hround =>
      .bind (.checkedMul fun hlarge => hoverflow (overflows_of_round hround (.inr (.inl hlarge))))
        fun _ _ => .bind (.checkedMul fun hlarge =>
          hoverflow (overflows_of_round hround (.inl hlarge))) fun price hprice =>
            .checkedDiv fun hnothing => hzero ?_ ?_
  all_goals rw [checkedMul_eq_ok_toNat, toNat_ADDITIONAL_FEED_PRECISION] at hprice
  · exact quoted_iff.mpr ⟨round, hround, hprice ▸ price.isLt⟩
  · rw [price_of_round hround]
    omega

theorem _healthFactor_raises (hasked : ∀ t ∈ w.s_collateralTokens, asked t)
    (hoverflow : w.market.ScoreOverflows w.book user → S (.panic arithmeticPanic)) :
    Raises S (_healthFactor user w) := by
  unfold _healthFactor _getAccountInformation
  refine .bind (.bind (addCollateralValues_raises hfeed (List.nil_append _).symm
    (fun _ ht => absurd ht List.not_mem_nil) rfl hasked fun h => hoverflow (.inl h))
      fun _ _ => .ok _) fun information hinformation => ?_
  obtain ⟨value, hvalue, hpair⟩ := except_bind_eq_ok.mp hinformation
  cases hpair
  obtain ⟨hvalued, hworth⟩ := getAccountCollateralValue_eq_ok.mp hvalue
  refine _calculateHealthFactor_raises fun hdebt hlarge => hoverflow (.inr ⟨hvalued, hdebt, ?_⟩)
  rwa [hworth] at hlarge

end Views

/-! ## Modifiers -/

section Modifiers

variable {body : Tx World Revert Unit}

theorem moreThanZero_raises (hzero : amount = 0 → S .DSCEngine__Need_MoreThan_zero)
    (hbody : amount ≠ 0 → Raises S (body w)) :
    Raises S ((moreThanZero amount >>= fun _ => body) w) := .revertIf_bind hzero hbody

theorem isAllowedToken_raises (hnone : w.s_priceFeeds token = 0 → S .DSCEngine__Not_Allowed_Token)
    (hbody : Raises S (body w)) : Raises S ((isAllowedToken token >>= fun _ => body) w) := by
  refine .tx_bind (.read_bind (.revertIf hnone)) fun _ w' hallowed => ?_
  cases (isAllowedToken_eq_ok.mp hallowed).2
  exact hbody

/-- Between transactions the guard refuses nothing. -/
theorem nonReentrant_raises (hstatus : w._status = _NOT_ENTERED)
    (h : Raises S (body (w.setStatus _ENTERED))) : Raises S (nonReentrant body w) := by
  refine .tx_bind (.read_bind (.revertIf_bind (fun hentered => absurd hentered
    (open_of_status hstatus)) fun _ => .store)) fun _ w' hbefore => .tx_bind ?_ fun _ _ _ => .store
  simp only [_nonReentrantBefore, Tx.bind_eq_ok, Tx.read_eq_ok, Tx.revertIf_eq_ok,
    Tx.store_eq_ok, Prod.mk.injEq] at hbefore
  obtain ⟨_, _, ⟨rfl, rfl⟩, _, _, ⟨_, rfl⟩, rfl⟩ := hbefore
  exact h

end Modifiers

/-! ## Internal transactions -/

/-- What the engine has deposited it can pay out, to anyone but the zero address. -/
theorem _redeemCollateral_raises {source recipient : Address} (hthis : w.this ≠ 0)
    (hheld : (w.s_collateralDeposited source token).toNat ≤ w.holdings token)
    (hcover : (w.s_collateralDeposited source token).toNat < amount.toNat →
      S (.panic arithmeticPanic))
    (hzero : recipient = 0 → amount.toNat ≤ (w.s_collateralDeposited source token).toNat →
      S (.error "ERC20: transfer to the zero address")) :
    Raises S (_redeemCollateral IERC20.standard token amount source recipient w) := by
  refine .update_bind (.bind (.checkedSub hcover) fun _ _ => .ok _) fun w₁ hdebit => .read_bind ?_
  obtain ⟨_, hleft, hdebited⟩ := except_bind_eq_ok.mp hdebit
  obtain ⟨hle, rfl⟩ := checkedSub_eq_ok.mp hleft
  cases hdebited
  refine .tx_bind (callToken_raises ?_) fun success w₂ hpaid => .revertIf fun hfalse => ?_
  · exact ERC20.transfer_raises hthis (hle.trans hheld) fun h => hzero h hle
  · cases (transfer_eq_ok.mp hpaid).2
    cases hfalse

theorem _burnDsc_raises {onBehalfOf dscFrom : Address} (htokens : w.TokensSound)
    (howner : w.dscOwner = w.this) (hthis : w.this ≠ 0) (hpos : amount ≠ 0)
    (howed : (w.s_DSCMinted onBehalfOf).toNat < amount.toNat → S (.panic arithmeticPanic))
    (hcollect : ∀ reason, ERC20.CollectFailure dscFrom w.this amount.toNat (w.token w.i_dsc)
      reason → S (.error reason)) :
    Raises S (_burnDsc amount onBehalfOf dscFrom w) := by
  refine .update_bind (.bind (.checkedSub howed) fun _ _ => .ok _) fun w₁ hforgive =>
    .read_bind (.read_bind ?_)
  obtain ⟨_, hleft, hforgiven⟩ := except_bind_eq_ok.mp hforgive
  obtain ⟨hle, rfl⟩ := checkedSub_eq_ok.mp hleft
  cases hforgiven
  refine .tx_bind (callToken_raises (ERC20.transferFrom_raises hthis hcollect))
    fun success w₂ hcollected => .revertIf_bind (fun hfalse => ?_) fun _ => ?_
  all_goals
    obtain ⟨⟨hspend, hmove⟩, heq⟩ := callToken_transferFrom_eq_ok.mp hcollected
    cases heq
  · cases hfalse
  · have hrepay := htokens.canRepay howner hthis hpos hle hmove.2.2 hspend.le_allowance
    exact .of_ok ((callDsc_burn_eq_ok (r := ((), _))).mpr ⟨hrepay.2.2, rfl⟩)

end DSCEngine

end DefiStablecoin
