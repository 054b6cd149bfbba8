import DefiStablecoin.System.Invariants

/-!
# Paying debt back

The health check at the end of `burnDsc` compares with an absolute bound.  A user
whom a price move has left below it can pay back enough to end healthy, but not
less: a smaller repayment reverts although it would improve the position.
-/

namespace DefiStablecoin.Deployment

open Solidity OpenZeppelin DSCEngine World

variable {d : Deployment} {w : World} {user : Address} {amount : UInt256}

theorem burnDsc_returns_iff (h : d.Sound w) (hscore : w.market.Scorable w.book user)
    (hpos : amount ≠ 0) (howed : amount.toNat ≤ (w.s_DSCMinted user).toNat)
    (hbalance : amount.toNat ≤ ((w.token w.i_dsc)._balances user).toNat)
    (hallowance : amount.toNat ≤ ((w.token w.i_dsc)._allowances user w.this).toNat) :
    burnDsc user amount w = .ok ((), repaid user user amount w) ↔
      2 * ((w.s_DSCMinted user).toNat - amount.toNat) ≤ w.collateralValue user := by
  have hrepay := h.tokens.canRepay h.owner_this h.this_ne_zero hpos howed hbalance hallowance
  have howes : ((w.forgive user amount).s_DSCMinted user).toNat =
      (w.s_DSCMinted user).toNat - amount.toNat := debt_forgive_self howed
  have hscore' : w.market.Scorable (w.forgive user amount).book user :=
    hscore.mono (fun _ => le_rfl) (howes.trans_le (Nat.sub_le _ _))
  have hhealthy : (w.forgive user amount).Healthy user ↔
      2 * ((w.s_DSCMinted user).toNat - amount.toNat) ≤ w.collateralValue user := by
    rw [healthy_iff, howes]
    exact Iff.rfl
  rw [burnDsc_eq_ok, ← hhealthy]
  exact ⟨fun hok => hok.2.2.2.1, fun hok => ⟨hpos, hrepay, hscore', hok, rfl⟩⟩

/-- **A holder can pay debt back exactly as far as that leaves it healthy.** -/
theorem burnDsc_reduces_debt_iff (d : Deployment) (actions : List (Action d))
    (user : Address) (amount healthFactor : UInt256)
    (hreturns : getHealthFactor user (d.run actions) = .ok healthFactor)
    (hpos : 0 < amount.toNat)
    (howed : amount.toNat ≤ ((d.run actions).s_DSCMinted user).toNat)
    (hbalance : amount.toNat ≤ (((d.run actions).token d.dsc)._balances user).toNat)
    (hallowance : amount.toNat ≤
      (((d.run actions).token d.dsc)._allowances user d.dscEngine).toNat) :
    (∃ w', burnDsc user amount (d.run actions) = .ok ((), w') ∧
      (w'.s_DSCMinted user).toNat + amount.toNat = ((d.run actions).s_DSCMinted user).toNat) ↔
      2 * (((d.run actions).s_DSCMinted user).toNat - amount.toNat) ≤
        (d.run actions).collateralValue user := by
  have hsound := d.sound_run actions
  have hne : amount ≠ 0 := fun h => hpos.ne' (toNat_eq_zero.mpr h)
  rw [← hsound.dsc_eq] at hbalance hallowance
  rw [← hsound.this_eq] at hallowance
  have hiff := burnDsc_returns_iff hsound (_healthFactor_eq_ok.mp hreturns).1 hne howed
    hbalance hallowance
  rw [← hiff]
  constructor
  · rintro ⟨w', hok, _⟩
    obtain ⟨_, _, _, _, rfl⟩ := burnDsc_eq_ok.mp hok
    exact hok
  · intro hok
    refine ⟨_, hok, ?_⟩
    rw [debt_repaid_self howed]
    omega

/-- At $1500 the user owes $10000 against $15000, and can pay $2500 back. -/
theorem burnDsc_reduces_debt_crash :
    let w := anvil.run (crash (1500 * 10 ^ 8))
    ∃ w', burnDsc USER (2500 * 10 ^ 18) w = .ok ((), w') ∧
      (w'.s_DSCMinted USER).toNat + 2500 * 10 ^ 18 = (w.s_DSCMinted USER).toNat :=
  (burnDsc_reduces_debt_iff anvil (crash (1500 * 10 ^ 8)) USER (2500 * 10 ^ 18)
    750000000000000000 (by decide +kernel) (by decide) (by decide +kernel)
    (by decide +kernel) (by decide +kernel)).mpr (by decide +kernel)

/-- In the same state, with every feed fresh and positive and everything covered, a
repayment of $1000 reverts. -/
theorem burnDsc_reverts_crash :
    let w := anvil.run (crash (1500 * 10 ^ 8))
    let amount : UInt256 := 1000 * 10 ^ 18
    (∀ t ∈ w.s_collateralTokens, ∃ round, w.feed (w.s_priceFeeds t) = some round ∧
      OracleLib.Fresh w.timestamp round ∧ 0 < round.answer.toInt) ∧
    getHealthFactor USER w = .ok 750000000000000000 ∧
    0 < amount.toNat ∧ amount.toNat ≤ (w.s_DSCMinted USER).toNat ∧
    amount.toNat ≤ ((w.token anvil.dsc)._balances USER).toNat ∧
    amount.toNat ≤ ((w.token anvil.dsc)._allowances USER anvil.dscEngine).toNat ∧
    ¬Tx.Returns (burnDsc USER amount) w := by
  intro w amount
  refine ⟨?_, by decide +kernel⟩
  rw [(anvil.sound_run (crash (1500 * 10 ^ 8))).collateralTokens_eq]
  exact forall_mem_anvil ⟨mockRound (1500 * 10 ^ 8), rfl, by decide, by decide⟩
    ⟨mockRound (1000 * 10 ^ 8), rfl, by decide, by decide⟩

end DefiStablecoin.Deployment
