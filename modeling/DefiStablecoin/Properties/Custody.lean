import DefiStablecoin.System.Invariants

/-!
# Custody of the collateral

The engine holds what its users have deposited, token by token, and whatever
others have sent to it besides.  A recorded deposit can therefore always be paid
out, and of a token without a price feed there is nothing to pay out.
-/

namespace DefiStablecoin.Deployment

open Solidity OpenZeppelin DSCEngine World

variable {d : Deployment} {w w' : World} {user token msgSender : Address}
  {amount debtToCover : UInt256}

theorem holdings_ge (d : Deployment) (actions : List (Action d)) (user token : Address) :
    ((d.run actions).s_collateralDeposited user token).toNat ≤
      (d.run actions).holdings token := by
  rw [d.holdings_run actions token]
  have hone := (d.run actions).collateral_le_deposits user token
  omega

theorem redeemCollateral_unlisted (h : d.Sound w) (htoken : w.s_priceFeeds token = 0)
    (r : Unit × World) :
    redeemCollateral IERC20.standard msgSender token amount w ≠ .ok r := by
  intro hok
  rw [← IERC20.hooked_id, redeemCollateral_eq_ok] at hok
  obtain ⟨hpos, _, hcover, _⟩ := hok
  rw [h.unlisted token htoken, toNat_zero, Nat.le_zero, toNat_eq_zero] at hcover
  exact hpos hcover

theorem holdings_liquidate_unlisted (h : d.Sound w) (htoken : w.s_priceFeeds token = 0)
    {msgSender : d.Account}
    (hok : liquidate IERC20.standard msgSender token user debtToCover w = .ok ((), w')) :
    w'.holdings token = w.holdings token := by
  have hmoves := liquidate_moves h.status_eq hok
  have hbalance := hmoves.holdings_balance h.tokens (h.ne_this msgSender) token
  have hnone : ∀ v : World, v.s_priceFeeds token = 0 → d.Sound v → v.deposits token = 0 := by
    intro v hv hsound
    unfold deposits
    rw [funext (hsound.unlisted token hv)]
    exact total_zero
  have hsound := h.moves hmoves
  have htoken' : w'.s_priceFeeds token = 0 := by
    rw [hsound.priceFeeds_eq, ← h.priceFeeds_eq, htoken]
  rw [hnone w htoken h, hnone w' htoken' hsound] at hbalance
  omega

/-- **Custody.** In every reachable state the engine holds of each token what its
users have deposited and what was sent to it directly; only tokens with a price
feed are deposited; a recorded deposit can be transferred out to anybody; and of
a token without a feed nothing leaves the engine. -/
theorem custody (d : Deployment) (actions : List (Action d)) (token : Address) :
    (d.run actions).holdings token =
        (d.run actions).deposits token + d.sentDirectly token actions ∧
    (∀ user, 0 < ((d.run actions).s_collateralDeposited user token).toNat →
        (d.run actions).s_priceFeeds token ≠ 0) ∧
    (∀ (user recipient : Address) (amount : UInt256),
        amount.toNat ≤ ((d.run actions).s_collateralDeposited user token).toNat →
        recipient ≠ 0 →
        ∃ w', IERC20.standard.transfer token d.dscEngine recipient amount
          ((d.run actions).debit user token amount) = .ok (true, w')) ∧
    ((d.run actions).s_priceFeeds token = 0 →
      (∀ (msgSender : d.Account) (amount : UInt256) (r : Unit × World),
        redeemCollateral IERC20.standard msgSender token amount (d.run actions) ≠ .ok r) ∧
      (∀ (msgSender : d.Account) (user : Address) (debtToCover : UInt256) (w' : World),
        liquidate IERC20.standard msgSender token user debtToCover (d.run actions) =
          .ok ((), w') → w'.holdings token = (d.run actions).holdings token)) := by
  have hsound := d.sound_run actions
  refine ⟨d.holdings_run actions token, ?_, ?_, ?_⟩
  · intro user hpos hzero
    rw [hsound.unlisted token hzero user] at hpos
    exact absurd hpos (by decide)
  · intro user recipient amount hcover hne
    have hheld := hcover.trans (d.holdings_ge actions user token)
    have hthis : d.dscEngine ≠ 0 := d.dscEngine_ne_zero
    rw [← hsound.this_eq] at hthis ⊢
    exact ⟨_, transfer_eq_ok.mpr ⟨⟨hthis, hne, hheld⟩, rfl⟩⟩
  · intro htoken
    exact ⟨fun _ _ r => redeemCollateral_unlisted hsound htoken r,
      fun _ _ _ _ hok => holdings_liquidate_unlisted hsound htoken hok⟩

/-- Half of a deposit can be sent to the liquidator. -/
theorem custody_openPosition :
    ∃ w', IERC20.standard.transfer weth anvil.dscEngine liquidator (5 * 10 ^ 18)
      ((anvil.run (openPosition USER (10 * 10 ^ 18) (100 * 10 ^ 18))).debit USER weth
        (5 * 10 ^ 18)) = .ok (true, w') :=
  (custody anvil (openPosition USER (10 * 10 ^ 18) (100 * 10 ^ 18)) weth).2.2.1
    USER liquidator (5 * 10 ^ 18) (by decide) (by decide)

end DefiStablecoin.Deployment
