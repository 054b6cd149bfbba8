import DefiStablecoin.Proofs.Standard

/-!
# The four ledgers

What all users have deposited of a token, what the engine holds of it, what all
users owe and how many stablecoins exist, each in unbounded arithmetic, and what
every elementary effect does to them.
-/

namespace DefiStablecoin.World

open Solidity OpenZeppelin

noncomputable def deposits (w : World) (token : Address) : ℕ :=
  total fun user => w.s_collateralDeposited user token

def holdings (w : World) (token : Address) : ℕ := ((w.token token)._balances w.this).toNat

noncomputable def debts (w : World) : ℕ := total w.s_DSCMinted

def supply (w : World) : ℕ := (w.token w.i_dsc)._totalSupply.toNat

/-- Every token contract is well formed, and on none has the engine approved anybody. -/
structure TokensSound (w : World) : Prop where
  wellFormed : ∀ t, (w.token t).WellFormed
  noAllowance : ∀ t, (w.token t).NoAllowance w.this

variable {w : World} {user token source recipient : Address} {amount : UInt256} {k : ERC20}

/-! ## The engine's ledgers -/

theorem collateral_le_deposits (w : World) (user token : Address) :
    (w.s_collateralDeposited user token).toNat ≤ w.deposits token :=
  toNat_le_total (fun user => w.s_collateralDeposited user token) user

theorem deposits_setCollateral (w : World) (user token t : Address) (amount : UInt256) :
    (w.setCollateral user token amount).deposits t +
        (if t = token then (w.s_collateralDeposited user token).toNat else 0) =
      w.deposits t + (if t = token then amount.toNat else 0) := by
  unfold deposits
  by_cases ht : t = token
  · subst ht
    have hcolumn : (fun v => (w.setCollateral user t amount).s_collateralDeposited v t) =
        Function.update (fun v => w.s_collateralDeposited v t) user amount := by
      funext v
      by_cases hv : v = user
      · subst hv
        simp
      · simp [hv]
    rw [hcolumn]
    simpa using total_update (fun v => w.s_collateralDeposited v t) user amount
  · have hcolumn : (fun v => (w.setCollateral user token amount).s_collateralDeposited v t) =
        fun v => w.s_collateralDeposited v t := by
      funext v
      by_cases hv : v = user
      · subst hv
        simp [ht]
      · simp [hv]
    rw [hcolumn]
    simp [ht]

theorem deposits_credit
    (hfits : (w.s_collateralDeposited user token).toNat + amount.toNat < 2 ^ 256) (t : Address) :
    (w.credit user token amount).deposits t =
      w.deposits t + (if t = token then amount.toNat else 0) := by
  have hset := deposits_setCollateral w user token t
    (w.s_collateralDeposited user token + amount)
  rw [BitVec.toNat_add_of_lt hfits] at hset
  unfold credit
  by_cases ht : t = token
  · simp only [ht, if_true] at hset ⊢
    omega
  · simp only [ht, if_false] at hset ⊢
    omega

theorem deposits_debit (hcover : amount.toNat ≤ (w.s_collateralDeposited user token).toNat)
    (t : Address) :
    (w.debit user token amount).deposits t + (if t = token then amount.toNat else 0) =
      w.deposits t := by
  have hset := deposits_setCollateral w user token t
    (w.s_collateralDeposited user token - amount)
  rw [BitVec.toNat_sub_of_le (BitVec.le_def.mpr hcover)] at hset
  unfold debit
  by_cases ht : t = token
  · simp only [ht, if_true] at hset ⊢
    omega
  · simp only [ht, if_false] at hset ⊢
    omega

theorem debts_lend (hfits : (w.s_DSCMinted user).toNat + amount.toNat < 2 ^ 256) :
    (w.lend user amount).debts = w.debts + amount.toNat := by
  have hset := total_update w.s_DSCMinted user (w.s_DSCMinted user + amount)
  rw [BitVec.toNat_add_of_lt hfits] at hset
  have hlend : (w.lend user amount).debts =
      total (Function.update w.s_DSCMinted user (w.s_DSCMinted user + amount)) := rfl
  unfold debts at hlend ⊢
  omega

theorem debts_forgive (howed : amount.toNat ≤ (w.s_DSCMinted user).toNat) :
    (w.forgive user amount).debts + amount.toNat = w.debts := by
  have hset := total_update w.s_DSCMinted user (w.s_DSCMinted user - amount)
  rw [BitVec.toNat_sub_of_le (BitVec.le_def.mpr howed)] at hset
  have hforgive : (w.forgive user amount).debts =
      total (Function.update w.s_DSCMinted user (w.s_DSCMinted user - amount)) := rfl
  unfold debts at hforgive ⊢
  omega

/-! ## Token contracts -/

theorem TokensSound.setToken (h : w.TokensSound) (hk : k.WellFormed)
    (hno : k.NoAllowance w.this) : (w.setToken token k).TokensSound where
  wellFormed t := by
    by_cases ht : t = token
    · subst ht
      simpa [World.setToken] using hk
    · simpa [World.setToken, ht] using h.wellFormed t
  noAllowance t := by
    by_cases ht : t = token
    · subst ht
      simpa [World.setToken] using hno
    · simpa [World.setToken, ht] using h.noAllowance t

theorem TokensSound.pay (h : w.TokensSound) (hpay : w.CanPay token source recipient amount) :
    (w.pay token source recipient amount).TokensSound :=
  h.setToken ((h.wellFormed token).move hpay) (h.noAllowance token)

theorem TokensSound.collect (h : w.TokensSound)
    (hcollect : w.CanCollect token recipient source amount) :
    (w.collect token recipient source amount).TokensSound :=
  h.setToken (((h.wellFormed token).spend _ _ _).move (ERC20.canMove_spend.mpr hcollect.2))
    ((h.noAllowance token).spend hcollect.1)

theorem TokensSound.issue (h : w.TokensSound) (hissue : w.CanIssue user amount) :
    (w.issue user amount).TokensSound :=
  h.setToken ((h.wellFormed w.i_dsc).issue hissue.2.1 hissue.2.2.2) (h.noAllowance w.i_dsc)

theorem TokensSound.destroy (h : w.TokensSound) (hdestroy : w.CanDestroy amount) :
    (w.destroy amount).TokensSound :=
  h.setToken ((h.wellFormed w.i_dsc).destroy hdestroy.2.2.1 hdestroy.2.2.2)
    (h.noAllowance w.i_dsc)

theorem holdings_setToken (w : World) (token t : Address) (k : ERC20) :
    (w.setToken token k).holdings t =
      if t = token then (k._balances w.this).toNat else w.holdings t := by
  unfold holdings World.setToken
  by_cases ht : t = token <;> simp [ht]

theorem supply_setToken_of_eq (h : k._totalSupply = (w.token token)._totalSupply) :
    (w.setToken token k).supply = w.supply := by
  unfold supply World.setToken
  by_cases ht : w.i_dsc = token
  · subst ht
    simp [h]
  · simp [ht]

theorem supply_setToken_of_ne (w : World) (k : ERC20) (h : token ≠ w.i_dsc) :
    (w.setToken token k).supply = w.supply := by
  unfold supply World.setToken
  simp [h.symm]

theorem supply_setToken_self (w : World) (k : ERC20) :
    (w.setToken w.i_dsc k).supply = k._totalSupply.toNat := by
  unfold supply World.setToken
  simp

theorem holdings_pay (h : w.TokensSound) (hpay : w.CanPay token w.this recipient amount)
    (hne : recipient ≠ w.this) (t : Address) :
    (w.pay token w.this recipient amount).holdings t + (if t = token then amount.toNat else 0) =
      w.holdings t := by
  rw [pay, holdings_setToken]
  by_cases ht : t = token
  · subst ht
    have hmove := (h.wellFormed t).toNat_move hpay w.this
    simpa [holdings, hne.symm] using hmove
  · simp [ht]

theorem holdings_collect (h : w.TokensSound) (hcollect : w.CanCollect token w.this source amount)
    (hne : source ≠ w.this) (t : Address) :
    (w.collect token w.this source amount).holdings t =
      w.holdings t + (if t = token then amount.toNat else 0) := by
  rw [collect, holdings_setToken]
  by_cases ht : t = token
  · subst ht
    have hmove := ((h.wellFormed t).spend source w.this amount).toNat_move
      (ERC20.canMove_spend.mpr hcollect.2) w.this
    simpa [holdings, hne.symm] using hmove
  · simp [ht]

theorem holdings_issue (hne : user ≠ w.this) (t : Address) :
    (w.issue user amount).holdings t = w.holdings t := by
  rw [issue, holdings_setToken]
  by_cases ht : t = w.i_dsc
  · subst ht
    simp [ERC20.issue, hne.symm, holdings]
  · simp [ht]

theorem holdings_destroy (hdestroy : w.CanDestroy amount) (t : Address) :
    (w.destroy amount).holdings t + (if t = w.i_dsc then amount.toNat else 0) = w.holdings t := by
  rw [destroy, holdings_setToken]
  by_cases ht : t = w.i_dsc
  · subst ht
    have hsub := BitVec.toNat_sub_of_le (BitVec.le_def.mpr hdestroy.2.2.2)
    have hcover := hdestroy.2.2.2
    simp only [ERC20.destroy, Function.update_self, if_true, holdings]
    omega
  · simp [ht]

@[simp] theorem supply_pay : (w.pay token source recipient amount).supply = w.supply :=
  supply_setToken_of_eq rfl

@[simp] theorem supply_collect : (w.collect token recipient source amount).supply = w.supply :=
  supply_setToken_of_eq (ERC20.spend_totalSupply _ _ _ _)

theorem supply_destroy (h : w.TokensSound) (hdestroy : w.CanDestroy amount) :
    (w.destroy amount).supply + amount.toNat = w.supply := by
  rw [destroy, supply_setToken_self]
  exact (h.wellFormed w.i_dsc).toNat_destroy_totalSupply hdestroy.2.2.2

/-! ## What the transactions leave -/

open DSCEngine

variable {onBehalfOf dscFrom : Address}

theorem TokensSound.deposited (h : w.TokensSound)
    (hcollect : w.CanCollect token w.this user amount) :
    (deposited user token amount w).TokensSound :=
  TokensSound.collect (w := w.credit user token amount) ⟨h.wellFormed, h.noAllowance⟩ hcollect

theorem TokensSound.redeemed (h : w.TokensSound) (hpay : w.CanPay token w.this recipient amount) :
    (redeemed source recipient token amount w).TokensSound :=
  TokensSound.pay (w := w.debit source token amount) ⟨h.wellFormed, h.noAllowance⟩ hpay

theorem TokensSound.minted (h : w.TokensSound) (hissue : w.CanIssue user amount) :
    (minted user amount w).TokensSound :=
  TokensSound.issue (w := w.lend user amount) ⟨h.wellFormed, h.noAllowance⟩ hissue

theorem holdings_deposited (h : w.TokensSound) (hcollect : w.CanCollect token w.this user amount)
    (hne : user ≠ w.this) (t : Address) :
    (deposited user token amount w).holdings t =
      w.holdings t + (if t = token then amount.toNat else 0) :=
  holdings_collect (w := w.credit user token amount) ⟨h.wellFormed, h.noAllowance⟩ hcollect hne t

theorem holdings_redeemed (source : Address) (h : w.TokensSound)
    (hpay : w.CanPay token w.this recipient amount) (hne : recipient ≠ w.this) (t : Address) :
    (redeemed source recipient token amount w).holdings t +
        (if t = token then amount.toNat else 0) = w.holdings t :=
  holdings_pay (w := w.debit source token amount) ⟨h.wellFormed, h.noAllowance⟩ hpay hne t

@[simp] theorem supply_deposited : (deposited user token amount w).supply = w.supply :=
  supply_collect (w := w.credit user token amount)

@[simp] theorem supply_redeemed :
    (redeemed source recipient token amount w).supply = w.supply :=
  supply_pay (w := w.debit source token amount)

theorem supply_minted (user : Address) (hfits : w.supply + amount.toNat < 2 ^ 256) :
    (minted user amount w).supply = w.supply + amount.toNat :=
  (supply_setToken_self (w.lend user amount) _).trans (BitVec.toNat_add_of_lt hfits)

theorem TokensSound.repaid (h : w.TokensSound) (hrepay : CanRepay onBehalfOf dscFrom amount w) :
    (repaid onBehalfOf dscFrom amount w).TokensSound :=
  TokensSound.destroy (TokensSound.collect (w := w.forgive onBehalfOf amount)
    ⟨h.wellFormed, h.noAllowance⟩ hrepay.2.1) hrepay.2.2

theorem token_repaid_of_ne (ht : token ≠ w.i_dsc) :
    (repaid onBehalfOf dscFrom amount w).token token = w.token token := by
  simp [DSCEngine.repaid, forgive, collect, destroy, setToken, ht]

/-- What the engine collects for a repayment it burns. -/
theorem holdings_repaid (h : w.TokensSound) (hrepay : CanRepay onBehalfOf dscFrom amount w)
    (hne : dscFrom ≠ w.this) (t : Address) :
    (repaid onBehalfOf dscFrom amount w).holdings t = w.holdings t := by
  have hcollect := holdings_collect (w := w.forgive onBehalfOf amount)
    ⟨h.wellFormed, h.noAllowance⟩ hrepay.2.1 hne t
  have hdestroy := holdings_destroy
    (w := (w.forgive onBehalfOf amount).collect w.i_dsc w.this dscFrom amount) hrepay.2.2 t
  exact Nat.add_right_cancel (hdestroy.trans hcollect)

theorem supply_repaid (h : w.TokensSound) (hrepay : CanRepay onBehalfOf dscFrom amount w) :
    (repaid onBehalfOf dscFrom amount w).supply + amount.toNat = w.supply := by
  have hsound := TokensSound.collect (w := w.forgive onBehalfOf amount)
    ⟨h.wellFormed, h.noAllowance⟩ hrepay.2.1
  exact (supply_destroy hsound hrepay.2.2).trans supply_collect

theorem TokensSound.canRepay (h : w.TokensSound) (howner : w.dscOwner = w.this)
    (hthis : w.this ≠ 0) (hpos : amount ≠ 0)
    (howed : amount.toNat ≤ (w.s_DSCMinted onBehalfOf).toNat)
    (hbalance : amount.toNat ≤ ((w.token w.i_dsc)._balances dscFrom).toNat)
    (hallowance : amount.toNat ≤ ((w.token w.i_dsc)._allowances dscFrom w.this).toNat) :
    CanRepay onBehalfOf dscFrom amount w := by
  have hamount : 0 < amount.toNat := Nat.pos_of_ne_zero fun h => hpos (toNat_eq_zero.mp h)
  have hfrom : dscFrom ≠ 0 := (h.wellFormed w.i_dsc).ne_zero_of_balance (by omega)
  have hne : dscFrom ≠ w.this := by
    -- the engine itself has approved nobody
    rintro rfl
    rw [h.noAllowance w.i_dsc w.this, toNat_zero] at hallowance
    omega
  have hcollect : w.CanCollect w.i_dsc w.this dscFrom amount :=
    ⟨.inr ⟨hallowance, hfrom, hthis⟩, hfrom, hthis, hbalance⟩
  have hheld := holdings_collect h hcollect hne w.i_dsc
  rw [if_pos rfl] at hheld
  exact ⟨howed, hcollect, howner, hpos, hthis, (Nat.le_add_left _ _).trans hheld.ge⟩

/-- What can be repaid is covered by the allowance, also by an infinite one. -/
theorem allowance_of_canRepay (h : CanRepay onBehalfOf dscFrom amount w) :
    amount.toNat ≤ ((w.token w.i_dsc)._allowances dscFrom w.this).toNat := by
  rcases h.2.1.1 with hmax | ⟨hle, _⟩
  · rw [hmax, toNat_maxUInt256]
    exact Nat.le_pred_of_lt amount.isLt
  · exact hle

theorem debt_forgive_self (howed : amount.toNat ≤ (w.s_DSCMinted user).toNat) :
    ((w.forgive user amount).s_DSCMinted user).toNat =
      (w.s_DSCMinted user).toNat - amount.toNat := by
  simp [forgive, BitVec.toNat_sub_of_le (BitVec.le_def.mpr howed)]

theorem debt_repaid_self (howed : amount.toNat ≤ (w.s_DSCMinted onBehalfOf).toNat) :
    ((repaid onBehalfOf dscFrom amount w).s_DSCMinted onBehalfOf).toNat =
      (w.s_DSCMinted onBehalfOf).toNat - amount.toNat :=
  debt_forgive_self howed

theorem debt_repaid_of_ne (hne : user ≠ onBehalfOf) :
    (repaid onBehalfOf dscFrom amount w).s_DSCMinted user = w.s_DSCMinted user := by
  simp [DSCEngine.repaid, forgive, collect, destroy, hne]

theorem debts_repaid (hrepay : CanRepay onBehalfOf dscFrom amount w) :
    (repaid onBehalfOf dscFrom amount w).debts + amount.toNat = w.debts :=
  debts_forgive hrepay.1

end DefiStablecoin.World
