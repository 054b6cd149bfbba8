import DefiStablecoin.Proofs.Accounting

/-!
# What other accounts can do to the token contracts

Accounts other than the engine call the tokens directly.  Such calls can add to
what the engine holds but never take from it, and the only one that changes the
supply of the stablecoin is its inherited `burnFrom`.
-/

namespace DefiStablecoin.World

open Solidity OpenZeppelin

variable {w w' : World} {token account msgSender : Address} {amount : UInt256} {k : ERC20}
  {c : ERC20Call} {b : Bool}

/-! ## The calls of `ERC20.sol` -/

theorem TokensSound.call (hw : w.TokensSound) (hne : msgSender ≠ w.this)
    (h : c.run (ε := Revert) msgSender (w.token token) = .ok (b, k)) :
    (w.setToken token k).TokensSound :=
  hw.setToken (ERC20Call.run_wellFormed (hw.wellFormed token) h)
    (ERC20Call.run_noAllowance (hw.noAllowance token) hne h)

/-- Of the calls of others, the engine only notices what they send to it. -/
theorem holdings_call (hw : w.TokensSound) (hne : msgSender ≠ w.this)
    (h : c.run (ε := Revert) msgSender (w.token token) = .ok (b, k)) (t : Address) :
    (w.setToken token k).holdings t =
      w.holdings t + (if t = token then c.sentTo w.this else 0) := by
  rw [holdings_setToken]
  by_cases ht : t = token
  · subst ht
    simp only [if_true]
    exact ERC20Call.run_balance (hw.wellFormed t) (hw.noAllowance t) hne h
  · simp [ht]

theorem supply_call (h : c.run (ε := Revert) msgSender (w.token token) = .ok (b, k)) :
    (w.setToken token k).supply = w.supply :=
  supply_setToken_of_eq (ERC20Call.run_totalSupply h)

/-! ## Issuing a collateral token -/

theorem issueToken_eq_ok {r : Bool × World} :
    issueToken token account amount w = .ok r ↔
      account ≠ 0 ∧ (w.token token)._totalSupply.toNat + amount.toNat < 2 ^ 256 ∧
        r = (true, w.setToken token ((w.token token).issue account amount)) := by
  obtain ⟨b, w'⟩ := r
  simp only [issueToken, callToken_eq_ok, except_bind_eq_ok, ERC20._mint_eq_ok,
    except_pure_eq_ok, Prod.mk.injEq]
  constructor
  · rintro ⟨k, ⟨_, ⟨hne, hfits, rfl⟩, rfl, rfl⟩, rfl⟩
    exact ⟨hne, hfits, rfl, rfl⟩
  · rintro ⟨hne, hfits, rfl, rfl⟩
    exact ⟨_, ⟨_, ⟨hne, hfits, rfl⟩, rfl, rfl⟩, rfl⟩

theorem TokensSound.issueToken (hw : w.TokensSound) (hne : account ≠ 0)
    (hfits : (w.token token)._totalSupply.toNat + amount.toNat < 2 ^ 256) :
    (w.setToken token ((w.token token).issue account amount)).TokensSound :=
  hw.setToken ((hw.wellFormed token).issue hne hfits) (hw.noAllowance token)

theorem holdings_issueToken (hw : w.TokensSound)
    (hfits : (w.token token)._totalSupply.toNat + amount.toNat < 2 ^ 256) (account t : Address) :
    (w.setToken token ((w.token token).issue account amount)).holdings t =
      w.holdings t + (if t = token then if account = w.this then amount.toNat else 0 else 0) := by
  rw [holdings_setToken]
  by_cases ht : t = token
  · subst ht
    have hle := (hw.wellFormed t).balance_le_supply w.this
    by_cases hthis : account = w.this
    · subst hthis
      have hadd := BitVec.toNat_add_of_lt
        (x := (w.token t)._balances w.this) (y := amount) (by omega)
      simpa [ERC20.issue, holdings] using hadd
    · simp [ERC20.issue, holdings, hthis, Ne.symm hthis]
  · simp [ht]

/-! ## Calls on the stablecoin -/

/-- An account that does not own the stablecoin can call the functions of
`ERC20.sol` and the inherited `burnFrom`; the other functions reject it. -/
theorem callDsc_cases {c : DecentralizedStableCoin.Call} {u : Unit}
    (howner : w.dscOwner ≠ msgSender) (h : callDsc (c.run msgSender) w = .ok (u, w')) :
    (∃ call b k, c = .erc20 call ∧
      call.run (ε := Revert) msgSender (w.token w.i_dsc) = .ok (b, k) ∧
      w' = w.setToken w.i_dsc k) ∨
    (∃ account amount, c = .burnFrom account amount ∧
      ERC20.CanSpend account msgSender amount (w.token w.i_dsc) ∧ account ≠ 0 ∧
      amount.toNat ≤ ((w.token w.i_dsc)._balances account).toNat ∧
      w' = w.setToken w.i_dsc
        (((w.token w.i_dsc).spend account msgSender amount).destroy account amount)) := by
  obtain ⟨d, hrun, rfl⟩ := callDsc_eq_ok.mp h
  cases c with
  | erc20 call =>
      obtain ⟨⟨b, k⟩, hcall, heq⟩ := except_bind_eq_ok.mp hrun
      cases heq
      exact .inl ⟨call, b, k, rfl, hcall, rfl⟩
  | burnFrom account amount =>
      obtain ⟨k, hburn, heq⟩ := except_bind_eq_ok.mp hrun
      obtain ⟨hspend, hne, hcover, rfl⟩ := ERC20.burnFrom_eq_ok.mp hburn
      cases heq
      exact .inr ⟨account, amount, rfl, hspend, hne, hcover, rfl⟩
  | burn amount => exact absurd (DecentralizedStableCoin.burn_eq_ok.mp hrun).1 howner
  | mint account amount =>
      obtain ⟨r, hmint, _⟩ := except_bind_eq_ok.mp hrun
      exact absurd (DecentralizedStableCoin.mint_eq_ok.mp hmint).1 howner
  | transferOwnership newOwner =>
      obtain ⟨_, hguard, _⟩ := except_bind_eq_ok.mp hrun
      exact absurd (ERC20.require_eq_ok.mp hguard) howner
  | renounceOwnership =>
      obtain ⟨_, hguard, _⟩ := except_bind_eq_ok.mp hrun
      exact absurd (ERC20.require_eq_ok.mp hguard) howner

theorem TokensSound.burnFrom (hw : w.TokensSound) (hne : account ≠ 0)
    (hspend : ERC20.CanSpend account msgSender amount (w.token w.i_dsc))
    (hcover : amount.toNat ≤ ((w.token w.i_dsc)._balances account).toNat) :
    (w.setToken w.i_dsc
      (((w.token w.i_dsc).spend account msgSender amount).destroy account amount)).TokensSound :=
  hw.setToken (((hw.wellFormed _).spend _ _ _).destroy hne (by simpa using hcover))
    ((hw.noAllowance _).spend hspend)

theorem holdings_burnFrom (hw : w.TokensSound)
    (hspend : ERC20.CanSpend account msgSender amount (w.token w.i_dsc)) (t : Address) :
    (w.setToken w.i_dsc
      (((w.token w.i_dsc).spend account msgSender amount).destroy account amount)).holdings t =
      w.holdings t := by
  rw [holdings_setToken]
  by_cases ht : t = w.i_dsc
  · subst ht
    by_cases hthis : w.this = account
    · subst hthis
      have hzero : amount = 0 := toNat_eq_zero.mp ((hw.noAllowance _).spent_eq_zero hspend)
      simp [ERC20.destroy, holdings, hzero]
    · simp [ERC20.destroy, holdings, hthis]
  · simp [ht]

theorem supply_burnFrom (hw : w.TokensSound) (msgSender : Address)
    (hcover : amount.toNat ≤ ((w.token w.i_dsc)._balances account).toNat) :
    (w.setToken w.i_dsc
      (((w.token w.i_dsc).spend account msgSender amount).destroy account amount)).supply +
        amount.toNat = w.supply := by
  rw [supply_setToken_self]
  have hspent := (hw.wellFormed w.i_dsc).spend account msgSender amount
  have hburned := hspent.toNat_destroy_totalSupply (by simpa using hcover)
  rwa [ERC20.spend_totalSupply] at hburned

end DefiStablecoin.World
