import DefiStablecoin.Fuzz.Campaign

/-!
# What the invariant tests exercise

As long as the issued collateral leaves room in a word, the handler never makes a
call that reverts, and the invariant holds after every campaign.  But no campaign
ever takes collateral out: the handler's redemptions do nothing.
-/

namespace DefiStablecoin.Fuzz.Bench

open Solidity OpenZeppelin ForgeStd World DSCEngine Deployment

variable {b : Bench} {n : ℕ} {s s' : Campaign} {seed amount : UInt256} {t sender : Address}

/-- The most that can exist of a collateral token after `n` calls of the handler. -/
def ceiling (b : Bench) (n : ℕ) (t : Address) : ℕ :=
  (b.token t)._totalSupply.toNat + n * Handler.MAX_DEPOSITE_SIZE.toNat

theorem ceiling_succ (b : Bench) (n : ℕ) (t : Address) :
    b.ceiling (n + 1) t = b.ceiling n t + Handler.MAX_DEPOSITE_SIZE.toNat := by
  unfold ceiling
  rw [Nat.succ_mul, Nat.add_assoc]

theorem le_ceiling (b : Bench) (n : ℕ) (t : Address) : n ≤ b.ceiling n t :=
  (Nat.le_mul_of_pos_right n (by decide)).trans (Nat.le_add_left ..)

/-- After `n` calls neither the supply of a collateral token nor its scaled value
can have left the words that the engine computes with. -/
structure Roomy (b : Bench) (n : ℕ) : Prop where
  supply_lt : ∀ t ∈ b.s_tokenAddresses, b.ceiling n t < 2 ^ 256
  value_lt : ∀ t ∈ b.s_tokenAddresses,
    b.genesis.market.price t * 10 ^ 10 * b.ceiling n t < 2 ^ 255

theorem Roomy.of_le {m : ℕ} (h : b.Roomy n) (hle : m ≤ n) : b.Roomy m := by
  have hceiling : ∀ t, b.ceiling m t ≤ b.ceiling n t := fun t =>
    Nat.add_le_add_left (Nat.mul_le_mul_right _ hle) _
  exact {
    supply_lt := fun t ht => (hceiling t).trans_lt (h.supply_lt t ht)
    value_lt := fun t ht => (Nat.mul_le_mul_left _ (hceiling t)).trans_lt (h.value_lt t ht) }

/-- Half of a value less a debt within it is the same signed and unsigned. -/
theorem checkedSubInt_half {value debt : UInt256} (hvalue : value.toNat < 2 ^ 255)
    (hdebt : debt.toNat ≤ value.toNat / 2) :
    ∃ left : Int256, checkedSubInt (value.sdiv 2) debt = .ok left ∧ ¬left.toInt < 0 ∧
      left.toNat = value.toNat / 2 - debt.toNat := by
  have hhalf : value.sdiv 2 = value / 2 := by
    have hmsb : value.msb = false := BitVec.msb_eq_false_iff_two_mul_lt.mpr (by omega)
    have hpositive : (2 : UInt256).msb = false := by decide
    simp only [BitVec.sdiv_eq, hmsb, hpositive, BitVec.udiv_eq]
  have htwo : (2 : UInt256).toNat = 2 := rfl
  have hquotient : (value / 2).toNat = value.toNat / 2 := by rw [BitVec.toNat_udiv, htwo]
  have hleft : (value / 2 - debt).toNat = value.toNat / 2 - debt.toNat := by
    rw [BitVec.toNat_sub_of_le (BitVec.le_def.mpr (by omega)), hquotient]
  have hsigned : ∀ x : Int256, 2 * x.toNat < 2 ^ 256 → x.toInt = x.toNat := fun _ =>
    BitVec.toInt_eq_toNat_of_lt
  have hfirst := hsigned (value / 2) (by omega)
  have hsecond := hsigned debt (by omega)
  have hthird := hsigned (value / 2 - debt) (by omega)
  rw [hhalf]
  refine ⟨value / 2 - debt, if_pos ?_, ?_, hleft⟩
  · omega
  · omega

theorem weth_mem (b : Bench) : b.weth ∈ b.s_tokenAddresses := by
  rw [b.tokens_eq]
  exact List.mem_cons_self ..

theorem wbtc_mem (b : Bench) : b.wbtc ∈ b.s_tokenAddresses := by
  rw [b.tokens_eq]
  exact List.mem_cons_of_mem _ (List.mem_singleton.mpr rfl)

theorem value_eq (b : Bench) (f : Address → ℕ) :
    b.genesis.market.terms.value f =
      usdValue (b.genesis.market.price b.weth) (f b.weth) +
        usdValue (b.genesis.market.price b.wbtc) (f b.wbtc) := by
  have htokens : b.genesis.market.terms.tokens = [b.weth, b.wbtc] := b.tokens_eq
  unfold Lending.Terms.value
  rw [htokens, List.map_cons, List.map_cons, List.map_nil, List.sum_cons, List.sum_cons,
    List.sum_nil, Nat.add_zero]
  rfl

namespace Reached

variable (h : b.Reached n s)

include h

theorem market_eq : s.world.market = b.genesis.market := by
  have hsound := h.sound
  unfold market
  rw [hsound.priceFeeds_eq, hsound.collateralTokens_eq, h.feed_eq, h.timestamp_eq]
  rfl

theorem supply_le_ceiling (ht : t ∈ b.s_tokenAddresses) :
    (s.world.token t)._totalSupply.toNat ≤ b.ceiling n t := h.supply_le t ht

/-- Amounts of the two tokens that can exist at once have a value that fits a word
even when it is scaled. -/
theorem value_lt (hroom : b.Roomy n) {f : Address → ℕ}
    (hf : ∀ t ∈ b.s_tokenAddresses, f t ≤ (s.world.token t)._totalSupply.toNat) :
    (∀ t ∈ b.s_tokenAddresses, b.genesis.market.price t * 10 ^ 10 * f t < 2 ^ 255) ∧
      b.genesis.market.terms.value f * 10 ^ 18 < 2 ^ 256 := by
  have heach : ∀ t ∈ b.s_tokenAddresses,
      b.genesis.market.price t * 10 ^ 10 * f t < 2 ^ 255 := fun t ht =>
    (Nat.mul_le_mul_left _ ((hf t ht).trans (h.supply_le_ceiling ht))).trans_lt
      (hroom.value_lt t ht)
  refine ⟨heach, ?_⟩
  have hweth := heach b.weth b.weth_mem
  have hwbtc := heach b.wbtc b.wbtc_mem
  have hfloor : ∀ p a, usdValue p a * 10 ^ 18 ≤ p * 10 ^ 10 * a := fun _ _ => Nat.div_mul_le_self ..
  have hwethFloor := hfloor (b.genesis.market.price b.weth) (f b.weth)
  have hwbtcFloor := hfloor (b.genesis.market.price b.wbtc) (f b.wbtc)
  rw [b.value_eq, Nat.add_mul]
  calc _ ≤ _ := Nat.add_le_add hwethFloor hwbtcFloor
    _ < 2 ^ 255 + 2 ^ 255 := Nat.add_lt_add hweth hwbtc
    _ = 2 ^ 256 := by norm_num

theorem holdings_lt (hroom : b.Roomy n) :
    (∀ t ∈ b.s_tokenAddresses,
      b.genesis.market.price t * 10 ^ 10 * s.world.holdings t < 2 ^ 255) ∧
      b.genesis.market.terms.value s.world.holdings * 10 ^ 18 < 2 ^ 256 :=
  h.value_lt hroom fun t _ =>
    (h.sound.tokens.wellFormed t).balance_le_supply s.world.this

/-- What the debts are backed by is far from overflowing, and so are the debts. -/
theorem supply_lt (hroom : b.Roomy n) : s.world.supply < 2 ^ 196 := by
  have hsolvent := h.played.solvent
  have hvalue := (h.holdings_lt hroom).2
  omega

theorem times_lt (hroom : b.Roomy (n + 1)) :
    s.handler.timesMintIsCalled.toNat + 1 < 2 ^ 256 := by
  have hle := h.times_le
  have hcalls := b.le_ceiling (n + 1) b.weth
  have hlt := hroom.supply_lt b.weth b.weth_mem
  omega

/-! ## No call reverts -/

section Progress

variable (hroom : b.Roomy (n + 1))

include hroom

theorem depositCollateral_returns (hsender : b.IsSender sender) :
    Tx.Returns (Handler.depositCollateral sender seed amount) s := by
  obtain ⟨a, hbound, hwraps, _⟩ := _bound_returns (ε := Revert) (x := amount)
    Handler.one_le_MAX_DEPOSITE_SIZE
  have hmem := h.collateral_mem seed
  have hle := h.supply_le_ceiling hmem
  have hlt := hroom.supply_lt _ hmem
  have hmax := hwraps.le_max
  rw [ceiling_succ] at hlt
  exact ⟨_, (h.depositCollateral_eq_ok hsender).mpr ⟨a, hbound, by omega, rfl⟩⟩

theorem mintFor_returns (hsender : b.IsSender sender) :
    Tx.Returns (Handler.mintFor sender amount) s := by
  have hsound := h.sound
  have hmarket := h.market_eq
  -- what the account can mint
  obtain ⟨hscaled, hvalue⟩ := h.value_lt (hroom.of_le (Nat.le_succ n))
    (f := s.world.book.collateral sender) fun t _ => h.deposited_le sender t
  have hworth : s.world.collateralValue sender * 10 ^ 18 < 2 ^ 256 := by
    unfold collateralValue
    rwa [hmarket]
  have hvalued : s.world.market.Valued (s.world.book.collateral sender) := by
    rw [hmarket]
    refine ⟨fun t ht => ?_, by omega⟩
    have hmem : t ∈ b.s_tokenAddresses := ht
    exact ⟨b.quoted t hmem, (hscaled t hmem).trans (by decide)⟩
  obtain ⟨value, hvalueOk, hvalueEq⟩ := exists_collateralValue hvalued
  have hhealthy := (healthy_iff _ _).mp (h.played.covered.healthy sender)
  have hdebt : (s.world.s_DSCMinted sender).toNat ≤ value.toNat / 2 := by omega
  obtain ⟨left, hleftOk, hnonneg, hleft⟩ := checkedSubInt_half (by omega) hdebt
  obtain ⟨a, hbound, hwraps, _⟩ := _bound_returns (ε := Revert) (x := amount)
    (show (0 : UInt256) ≤ left from BitVec.le_def.mpr (Nat.zero_le _))
  have hmost := hwraps.le_max
  have hinfo : getAccountInformation sender s.world =
      .ok (s.world.s_DSCMinted sender, value) := by
    simp only [getAccountInformation, _getAccountInformation, except_bind_eq_ok]
    exact ⟨value, hvalueOk, rfl⟩
  -- for every outcome of the choice of the amount there is a state that the call leaves
  suffices hrest : ∃ s', (a = 0 ∧ s' = s) ∨ (a ≠ 0 ∧ ∃ w',
      DSCEngine.mintDsc sender a s.world = .ok ((), w') ∧
      s.handler.timesMintIsCalled.toNat + 1 < 2 ^ 256 ∧
      s' = ⟨w', { s.handler with timesMintIsCalled := s.handler.timesMintIsCalled + 1 }⟩) by
    obtain ⟨s', hrest⟩ := hrest
    exact ⟨((), s'), Handler.mintFor_eq_ok.mpr
      ⟨_, _, hinfo, left, hleftOk, .inr ⟨hnonneg, a, hbound, hrest⟩⟩⟩
  by_cases hzero : a = 0
  · exact ⟨s, .inl ⟨hzero, rfl⟩⟩
  -- a mint within the limit returns, and so does the count
  have hsupply := h.supply_lt (hroom.of_le (Nat.le_succ n))
  have hhalf : s.world.collateralValue sender / 2 * 10 ^ 18 < 2 ^ 256 :=
    (Nat.mul_le_mul_right _ (Nat.div_le_self _ _)).trans_lt hworth
  have hcan : CanMint sender s.world :=
    ⟨hvalued, hhalf, fun h0 => absurd h0 hsender.ne_zero⟩
  have hmint : DSCEngine.mintDsc sender a s.world = .ok ((), minted sender a s.world) :=
    (mintDsc_returns_iff hsound hcan (by omega)).mpr
      ⟨toNat_pos_of_ne_zero hzero, by omega, rfl⟩
  have hcount := h.times_lt hroom
  exact ⟨_, .inr ⟨hzero, _, hmint, hcount, rfl⟩⟩

theorem mintDsc_returns : Tx.Returns (Handler.mintDsc amount seed) s := by
  cases husers : s.handler.userWithCollateralDeposited with
  | nil => exact ⟨((), s), (Handler.mintDsc_nil husers).mpr rfl⟩
  | cons user users =>
      have hpicked := h.pickUser_isSender husers seed
      have hreturns : Tx.Returns (Handler.mintFor (Handler.pickUser seed user users) amount) s :=
        h.mintFor_returns hroom hpicked
      obtain ⟨⟨_, s'⟩, hok⟩ := hreturns
      exact ⟨((), s'), (Handler.mintDsc_cons husers).mpr hok⟩

theorem call_returns (sender : b.Sender) (c : Handler.Call) : Tx.Returns (c.run sender) s := by
  cases c with
  | mintDsc amount seed => exact h.mintDsc_returns hroom
  | depositCollateral seed amount => exact h.depositCollateral_returns hroom sender.property
  | redeemCollateral seed amount => exact ⟨((), s), h.redeemCollateral_eq_ok.mpr rfl⟩

end Progress

/-! ## The invariant holds -/

theorem exists_usdValue (hroom : b.Roomy n) (ht : t ∈ b.s_tokenAddresses) :
    ∃ value : UInt256,
      getUsdValue t ((s.world.token t)._balances s.world.this) s.world = .ok value ∧
        value.toNat = usdValue (b.genesis.market.price t) (s.world.holdings t) := by
  have hscaled : b.genesis.market.price t * 10 ^ 10 * s.world.holdings t < 2 ^ 256 :=
    ((h.holdings_lt hroom).1 t ht).trans (by decide)
  have hfits : usdValue (b.genesis.market.price t) (s.world.holdings t) < 2 ^ 256 :=
    (Nat.div_le_self _ _).trans_lt hscaled
  refine ⟨BitVec.ofNatLT _ hfits, getUsdValue_eq_ok.mpr ?_, rfl⟩
  rw [h.market_eq]
  exact ⟨b.quoted t ht, hscaled, rfl⟩

theorem invariant_holds (hroom : b.Roomy n) :
    invariant_protocolMustHaveMoreValueThanTotalSupply b.weth b.wbtc s.world = .ok () := by
  have hsolvent := h.played.solvent
  obtain ⟨hscaled, hvalue⟩ := h.holdings_lt hroom
  rw [b.value_eq] at hsolvent hvalue
  obtain ⟨wethValue, hwethOk, hweth⟩ := h.exists_usdValue hroom b.weth_mem
  obtain ⟨wbtcValue, hwbtcOk, hwbtc⟩ := h.exists_usdValue hroom b.wbtc_mem
  have hfits : wethValue.toNat + wbtcValue.toNat < 2 ^ 256 := by omega
  have hsum := BitVec.toNat_add_of_lt hfits
  simp only [invariant_protocolMustHaveMoreValueThanTotalSupply, except_bind_eq_ok, assert,
    failIf_eq_ok, checkedAdd_eq_ok]
  refine ⟨wethValue, hwethOk, wbtcValue, hwbtcOk, _, ⟨hfits, rfl⟩, not_not.mpr ?_⟩
  have hcovered : s.world.supply ≤ (wethValue + wbtcValue).toNat := by omega
  exact BitVec.le_def.mpr hcovered

end Reached

theorem along_returns (h : b.Reached n s) (calls : List (b.Sender × Handler.Call))
    (hroom : b.Roomy (n + calls.length)) :
    Machine.Along b.step (fun s c => Tx.Returns (c.2.run c.1) s) s calls := by
  induction calls generalizing n s with
  | nil => trivial
  | cons c calls ih =>
      have hlength : n + (c :: calls).length = n + 1 + calls.length := by
        rw [List.length_cons]
        omega
      rw [hlength] at hroom
      exact ⟨h.call_returns (hroom.of_le (by omega)) c.1 c.2, ih (h.step c) hroom⟩

/-- **The invariant tests cannot fail.** As long as there is room, no call that the
fuzzer makes through the handler reverts, and the invariant holds at the end. -/
theorem campaign_returns (b : Bench) (calls : List (b.Sender × Handler.Call))
    (hroom : b.Roomy calls.length) :
    ∃ s, setUp b.toDeployment b.handler = .ok s ∧
      Machine.Along b.step (fun s c => Tx.Returns (c.2.run c.1) s) s calls ∧
      invariant_protocolMustHaveMoreValueThanTotalSupply b.weth b.wbtc
        (Machine.run b.step s calls).world = .ok () := by
  refine ⟨b.start, b.setUp_eq_ok, ?_, (reached_play calls).invariant_holds hroom⟩
  apply along_returns reached_start
  rwa [Nat.zero_add]

def anvilBench : Bench where
  toDeployment := anvil
  handler := ⟨40, by decide⟩
  weth := Deployment.weth
  wbtc := Deployment.wbtc
  tokens_eq := rfl
  feed_ne_zero := forall_mem_anvil (by decide) (by decide)
  quoted := forall_mem_anvil ⟨mockRound (2000 * 10 ^ 8), rfl, by decide, by decide +kernel⟩
    ⟨mockRound (1000 * 10 ^ 8), rfl, by decide, by decide +kernel⟩

def fuzzer : anvilBench.Sender := ⟨77, ⟨by decide, by decide, by decide⟩⟩

theorem campaign_returns_anvil :
    let calls : List (anvilBench.Sender × Handler.Call) :=
      [(fuzzer, .depositCollateral 0 (5 * 10 ^ 18)), (fuzzer, .mintDsc (10 ^ 30) 3),
        (fuzzer, .redeemCollateral 0 (5 * 10 ^ 18))]
    ∃ s, setUp anvilBench.toDeployment anvilBench.handler = .ok s ∧
      Machine.Along anvilBench.step (fun s c => Tx.Returns (c.2.run c.1) s) s calls ∧
      invariant_protocolMustHaveMoreValueThanTotalSupply anvilBench.weth anvilBench.wbtc
        (Machine.run anvilBench.step s calls).world = .ok () := by
  intro calls
  exact campaign_returns anvilBench calls
    ⟨forall_mem_anvil (by decide +kernel) (by decide +kernel),
      forall_mem_anvil (by decide +kernel) (by decide +kernel)⟩

/-! ## Positions only grow -/

namespace Reached

variable (h : b.Reached n s)

include h

theorem step_grows (c : b.Sender × Handler.Call) (u t : Address) :
    s.world.book.collateral u t ≤ (b.step s c).world.book.collateral u t ∧
      s.world.book.debt u ≤ (b.step s c).world.book.debt u := by
  have heffect := (h.step_effect c).2
  generalize b.step s c = s' at heffect
  cases heffect with
  | idle => exact ⟨le_rfl, le_rfl⟩
  | @deposit sender collateral amount hsender hmem hmax hfits =>
      have hle := h.deposited_le sender collateral
      rw [book_funded (by omega)]
      exact ⟨s.world.book.le_deposit .., le_rfl⟩
  | @mint user amount hpos hdebt hsupply hcount =>
      have hbook : (minted user amount s.world).book = s.world.book.borrow user amount.toNat :=
        book_lend hdebt
      rw [hbook]
      exact ⟨le_rfl, s.world.book.le_borrow ..⟩

theorem run_grows (calls : List (b.Sender × Handler.Call)) (u t : Address) :
    s.world.book.collateral u t ≤ (Machine.run b.step s calls).world.book.collateral u t ∧
      s.world.book.debt u ≤ (Machine.run b.step s calls).world.book.debt u := by
  induction calls generalizing n s with
  | nil => exact ⟨le_rfl, le_rfl⟩
  | cons c calls ih =>
      have hstep := h.step_grows c u t
      have hrest := ih (h.step c)
      exact ⟨hstep.1.trans hrest.1, hstep.2.trans hrest.2⟩

end Reached

/-- **Redemption is never exercised.** After any campaign the handler's
`redeemCollateral` returns without having done anything, whoever calls it, and however
the campaign goes on, no deposit and no debt ever falls. -/
theorem redeemCollateral_idle (b : Bench) (calls more : List (b.Sender × Handler.Call)) :
    (∀ msgSender seed amount,
      Handler.redeemCollateral msgSender seed amount (b.play calls) =
        .ok ((), b.play calls)) ∧
      ∀ u t,
        (b.play calls).world.s_collateralDeposited u t ≤
            (b.play (calls ++ more)).world.s_collateralDeposited u t ∧
          (b.play calls).world.s_DSCMinted u ≤ (b.play (calls ++ more)).world.s_DSCMinted u := by
  have hreached := reached_play calls
  refine ⟨fun _ _ _ => hreached.redeemCollateral_eq_ok.mpr rfl, fun u t => ?_⟩
  have hgrows := hreached.run_grows more u t
  unfold play at hgrows ⊢
  rw [Machine.run_append]
  exact ⟨BitVec.le_def.mpr hgrows.1, BitVec.le_def.mpr hgrows.2⟩

/-! ## What the invariant reads -/

namespace Reached

variable (h : b.Reached n s)

include h

theorem step_counts (c : b.Sender × Handler.Call) :
    (b.step s c).handler.timesMintIsCalled.toNat =
      s.handler.timesMintIsCalled.toNat +
        if (b.step s c).world.supply = s.world.supply then 0 else 1 := by
  have heffect := (h.step_effect c).2
  generalize b.step s c = s' at heffect
  cases heffect with
  | idle => simp
  | @deposit sender collateral amount hsender hmem hmax hfits =>
      have hne : s.world.i_dsc ≠ collateral := h.sound.dsc_eq ▸ (ne_dsc_of_mem hmem).symm
      have hsame : (funded sender collateral amount s.world).supply = s.world.supply :=
        congrArg (fun k => k._totalSupply.toNat) (funded_token_of_ne hne)
      rw [if_pos hsame]
      rfl
  | @mint user amount hpos hdebt hsupply hcount =>
      have hraised := supply_minted user hsupply
      have hamount := toNat_pos_of_ne_zero hpos
      have hone : (1 : UInt256).toNat = 1 := rfl
      have hchanged : (minted user amount s.world).supply ≠ s.world.supply := by omega
      rw [if_neg hchanged, BitVec.toNat_add_of_lt (by omega), hone]

end Reached

/-- **What the invariant reads.** After any campaign the engine's balance of a token is
what was deposited of it beside what it held before, the total supply is what the
accounts owe, and `timesMintIsCalled` counts the calls that changed the supply. -/
theorem readings_play (b : Bench) (calls : List (b.Sender × Handler.Call)) :
    (∀ t, (b.play calls).world.holdings t =
        (b.play calls).world.deposits t + b.genesis.holdings t) ∧
      (b.play calls).world.supply = (b.play calls).world.debts ∧
      (b.play calls).handler.timesMintIsCalled.toNat =
        Machine.charge b.step
          (fun s c => if (b.step s c).world.supply = s.world.supply then 0 else 1) b.start
          calls := by
  have hreached := reached_play calls
  refine ⟨hreached.played.holdings_eq, hreached.played.debts_eq.symm, ?_⟩
  have hcount := Machine.run_balance (I := fun s => ∃ n, b.Reached n s)
    (fun s => s.handler.timesMintIsCalled.toNat) (fun _ => 0)
    (fun _ c ⟨n, h⟩ => ⟨n + 1, h.step c⟩) (fun _ c ⟨_, h⟩ => h.step_counts c)
    ⟨0, reached_start⟩ calls
  have hstart : b.start.handler.timesMintIsCalled.toNat = 0 := rfl
  rw [hstart, Nat.zero_add, Nat.add_zero] at hcount
  exact hcount

end DefiStablecoin.Fuzz.Bench
