import DefiStablecoin.Proofs.Moves

/-!
# Wallets

What an account holds of the tokens and lets others spend of them.  A call moves
the tokens of its caller and of the engine, and nobody else's.
-/

namespace DefiStablecoin.World

open Solidity OpenZeppelin DSCEngine

/-- The holder has the same balance, and lets others spend the same, on every token. -/
structure SameWallet (holder : Address) (w w' : World) : Prop where
  balance_eq : ∀ t, (w'.token t)._balances holder = (w.token t)._balances holder
  allowance_eq : ∀ t, (w'.token t)._allowances holder = (w.token t)._allowances holder

variable {w w' w'' : World} {holder token source recipient spender user : Address}
  {amount : UInt256} {k : ERC20}

namespace SameWallet

theorem refl (holder : Address) (w : World) : SameWallet holder w w :=
  ⟨fun _ => rfl, fun _ => rfl⟩

theorem symm (h : SameWallet holder w w') : SameWallet holder w' w :=
  ⟨fun t => (h.balance_eq t).symm, fun t => (h.allowance_eq t).symm⟩

theorem trans (h : SameWallet holder w w') (h' : SameWallet holder w' w'') :
    SameWallet holder w w'' :=
  ⟨fun t => (h'.balance_eq t).trans (h.balance_eq t),
    fun t => (h'.allowance_eq t).trans (h.allowance_eq t)⟩

/-- The engine's own ledgers are in nobody's wallet. -/
theorem of_ledgers (h : SameWallet holder w' w'') (htoken : w'.token = w.token) :
    SameWallet holder w w'' where
  balance_eq t := by rw [h.balance_eq, htoken]
  allowance_eq t := by rw [h.allowance_eq, htoken]

theorem setToken (hbalance : k._balances holder = (w.token token)._balances holder)
    (hallowance : k._allowances holder = (w.token token)._allowances holder) :
    SameWallet holder w (w.setToken token k) where
  balance_eq t := by
    by_cases ht : t = token
    · subst ht
      simpa [World.setToken] using hbalance
    · simp [World.setToken, ht]
  allowance_eq t := by
    by_cases ht : t = token
    · subst ht
      simpa [World.setToken] using hallowance
    · simp [World.setToken, ht]

theorem pay (hsource : holder ≠ source) (hrecipient : holder ≠ recipient) :
    SameWallet holder w (w.pay token source recipient amount) := by
  apply setToken
  · simp [ERC20.move, shift, hsource, hrecipient]
  · rfl

theorem collect (hsource : holder ≠ source) (hspender : holder ≠ spender) :
    SameWallet holder w (w.collect token spender source amount) := by
  apply setToken
  · simp [ERC20.move, shift, hsource, hspender]
  · rw [ERC20.move_allowances, ERC20.spend_allowances_of_ne _ _ hsource]

theorem issue (huser : holder ≠ user) : SameWallet holder w (w.issue user amount) := by
  apply setToken
  · simp [ERC20.issue, huser]
  · rfl

theorem destroy (hthis : holder ≠ w.this) : SameWallet holder w (w.destroy amount) := by
  apply setToken
  · simp [ERC20.destroy, hthis]
  · rfl

end SameWallet

/-! ## The caller's own wallet -/

theorem balance_collect (h : w.TokensSound) (hcollect : w.CanCollect token spender source amount)
    (hne : source ≠ spender) :
    (((w.collect token spender source amount).token token)._balances source).toNat +
      amount.toNat = ((w.token token)._balances source).toNat := by
  have hmoved := ((h.wellFormed token).spend source spender amount).toNat_move
    (ERC20.canMove_spend.mpr hcollect.2) source
  rw [if_pos rfl, if_neg hne, Nat.add_zero, ERC20.spend_balances] at hmoved
  simpa [World.collect, World.setToken] using hmoved

theorem balance_pay (h : w.TokensSound) (hpay : w.CanPay token source recipient amount)
    (hne : recipient ≠ source) :
    (((w.pay token source recipient amount).token token)._balances recipient).toNat =
      ((w.token token)._balances recipient).toNat + amount.toNat := by
  have hmoved := (h.wellFormed token).toNat_move hpay recipient
  rw [if_neg hne, if_pos rfl, Nat.add_zero] at hmoved
  simpa [World.pay, World.setToken] using hmoved

theorem balance_issue (h : w.TokensSound) (hissue : w.CanIssue user amount) :
    (((w.issue user amount).token w.i_dsc)._balances user).toNat =
      ((w.token w.i_dsc)._balances user).toNat + amount.toNat := by
  have hle := (h.wellFormed w.i_dsc).balance_le_supply user
  have hfits := hissue.2.2.2
  have hadd := BitVec.toNat_add_of_lt
    (x := (w.token w.i_dsc)._balances user) (y := amount) (by omega)
  simpa [World.issue, World.setToken, ERC20.issue] using hadd

theorem balance_deposited (h : w.TokensSound) (hcollect : w.CanCollect token w.this user amount)
    (hne : user ≠ w.this) :
    (((deposited user token amount w).token token)._balances user).toNat + amount.toNat =
      ((w.token token)._balances user).toNat :=
  balance_collect (w := w.credit user token amount) ⟨h.wellFormed, h.noAllowance⟩ hcollect hne

theorem balance_redeemed (source : Address) (h : w.TokensSound)
    (hpay : w.CanPay token w.this recipient amount) (hne : recipient ≠ w.this) :
    (((redeemed source recipient token amount w).token token)._balances recipient).toNat =
      ((w.token token)._balances recipient).toNat + amount.toNat :=
  balance_pay (w := w.debit source token amount) ⟨h.wellFormed, h.noAllowance⟩ hpay hne

theorem balance_minted (h : w.TokensSound) (hissue : w.CanIssue user amount) :
    (((minted user amount w).token w.i_dsc)._balances user).toNat =
      ((w.token w.i_dsc)._balances user).toNat + amount.toNat :=
  balance_issue (w := w.lend user amount) ⟨h.wellFormed, h.noAllowance⟩ hissue

theorem balance_repaid {onBehalfOf dscFrom : Address} (h : w.TokensSound)
    (hrepay : CanRepay onBehalfOf dscFrom amount w) (hne : dscFrom ≠ w.this) :
    (((repaid onBehalfOf dscFrom amount w).token w.i_dsc)._balances dscFrom).toNat +
      amount.toNat = ((w.token w.i_dsc)._balances dscFrom).toNat := by
  have hcollected := balance_collect h hrepay.2.1 hne
  have hburned : SameWallet dscFrom
      ((w.forgive onBehalfOf amount).collect w.i_dsc w.this dscFrom amount)
      (repaid onBehalfOf dscFrom amount w) := .destroy hne
  exact (congrArg (·.toNat + amount.toNat) (hburned.balance_eq w.i_dsc)).trans hcollected

end DefiStablecoin.World

namespace DefiStablecoin.DSCEngine

open Solidity OpenZeppelin World

variable {w w' : World} {msgSender holder : Address}

theorem Move.sameWallet (h : Move msgSender w w') (hcaller : holder ≠ msgSender)
    (hthis : holder ≠ w.this) : SameWallet holder w w' := by
  cases h with
  | deposit => exact .of_ledgers (.collect hcaller hthis) rfl
  | withdraw => exact .of_ledgers (.pay hthis hcaller) rfl
  | borrow => exact .of_ledgers (.issue hcaller) rfl
  | @repay onBehalfOf amount _ =>
      have hcollect : SameWallet holder (w.forgive onBehalfOf amount)
          ((w.forgive onBehalfOf amount).collect w.i_dsc w.this msgSender amount) :=
        .collect hcaller hthis
      exact (hcollect.trans (.destroy hthis)).of_ledgers rfl

/-- **A call touches the wallets of its caller and the engine, nobody else's.** -/
theorem Moves.sameWallet (h : Moves msgSender w w') (hcaller : holder ≠ msgSender)
    (hthis : holder ≠ w.this) : SameWallet holder w w' := by
  induction h with
  | refl => exact .refl holder w
  | tail hmoves hmove ih =>
      have hthis' := (Moves.sameSetting hmoves).this_eq.symm ▸ hthis
      exact ih.trans (hmove.sameWallet hcaller hthis')

end DefiStablecoin.DSCEngine
