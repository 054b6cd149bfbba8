import DefiStablecoin.Proofs.Valuation

/-!
# Elementary effects

Every transaction of the engine is made of eight elementary effects: four on its
own ledgers and four on token contracts.  Each token effect has the guard under
which the token lets it happen.
-/

namespace DefiStablecoin.World

open Solidity OpenZeppelin

/-! ## Effects on the engine's ledgers -/

def credit (user token : Address) (amount : UInt256) (w : World) : World :=
  w.setCollateral user token (w.s_collateralDeposited user token + amount)

def debit (user token : Address) (amount : UInt256) (w : World) : World :=
  w.setCollateral user token (w.s_collateralDeposited user token - amount)

def lend (user : Address) (amount : UInt256) (w : World) : World :=
  w.setMinted user (w.s_DSCMinted user + amount)

def forgive (user : Address) (amount : UInt256) (w : World) : World :=
  w.setMinted user (w.s_DSCMinted user - amount)

/-! ## Effects on token contracts -/

def pay (token source recipient : Address) (amount : UInt256) (w : World) : World :=
  w.setToken token ((w.token token).move source recipient amount)

def collect (token spender source : Address) (amount : UInt256) (w : World) : World :=
  w.setToken token
    (((w.token token).spend source spender amount).move source spender amount)

def issue (user : Address) (amount : UInt256) (w : World) : World :=
  w.setToken w.i_dsc ((w.token w.i_dsc).issue user amount)

def destroy (amount : UInt256) (w : World) : World :=
  w.setToken w.i_dsc ((w.token w.i_dsc).destroy w.this amount)

def CanPay (token source recipient : Address) (amount : UInt256) (w : World) : Prop :=
  ERC20.CanMove source recipient amount (w.token token)

def CanCollect (token spender source : Address) (amount : UInt256) (w : World) : Prop :=
  ERC20.CanSpend source spender amount (w.token token) ∧
    ERC20.CanMove source spender amount (w.token token)

def CanIssue (user : Address) (amount : UInt256) (w : World) : Prop :=
  w.dscOwner = w.this ∧ user ≠ 0 ∧ amount ≠ 0 ∧
    (w.token w.i_dsc)._totalSupply.toNat + amount.toNat < 2 ^ 256

def CanDestroy (amount : UInt256) (w : World) : Prop :=
  w.dscOwner = w.this ∧ amount ≠ 0 ∧ w.this ≠ 0 ∧
    amount.toNat ≤ ((w.token w.i_dsc)._balances w.this).toNat

/-! ## What an effect does to the book -/

variable {w : World} {user token source recipient spender : Address} {amount : UInt256}

theorem book_credit
    (hfits : (w.s_collateralDeposited user token).toNat + amount.toNat < 2 ^ 256) :
    (w.credit user token amount).book = w.book.deposit user token amount.toNat := by
  unfold credit book Lending.Book.deposit
  congr 1
  funext v t
  by_cases hv : v = user
  · subst hv
    by_cases ht : t = token
    · subst ht
      simp [BitVec.toNat_add_of_lt hfits]
    · simp [ht]
  · simp [hv]

theorem book_debit (hcover : amount.toNat ≤ (w.s_collateralDeposited user token).toNat) :
    (w.debit user token amount).book = w.book.withdraw user token amount.toNat := by
  unfold debit book Lending.Book.withdraw
  congr 1
  funext v t
  by_cases hv : v = user
  · subst hv
    by_cases ht : t = token
    · subst ht
      simp [BitVec.toNat_sub_of_le (BitVec.le_def.mpr hcover)]
    · simp [ht]
  · simp [hv]

theorem book_lend (hfits : (w.s_DSCMinted user).toNat + amount.toNat < 2 ^ 256) :
    (w.lend user amount).book = w.book.borrow user amount.toNat := by
  unfold lend book Lending.Book.borrow
  congr 1
  funext v
  by_cases hv : v = user
  · subst hv
    simp [BitVec.toNat_add_of_lt hfits]
  · simp [hv]

theorem book_forgive (howed : amount.toNat ≤ (w.s_DSCMinted user).toNat) :
    (w.forgive user amount).book = w.book.repay user amount.toNat := by
  unfold forgive book Lending.Book.repay
  congr 1
  funext v
  by_cases hv : v = user
  · subst hv
    simp [BitVec.toNat_sub_of_le (BitVec.le_def.mpr howed)]
  · simp [hv]

@[simp] theorem book_pay : (w.pay token source recipient amount).book = w.book := rfl

@[simp] theorem book_collect : (w.collect token spender source amount).book = w.book := rfl

@[simp] theorem book_issue : (w.issue user amount).book = w.book := rfl

@[simp] theorem book_destroy : (w.destroy amount).book = w.book := rfl

@[simp] theorem market_credit : (w.credit user token amount).market = w.market := rfl

@[simp] theorem market_debit : (w.debit user token amount).market = w.market := rfl

@[simp] theorem market_lend : (w.lend user amount).market = w.market := rfl

@[simp] theorem market_forgive : (w.forgive user amount).market = w.market := rfl

@[simp] theorem market_pay : (w.pay token source recipient amount).market = w.market := rfl

@[simp] theorem market_collect : (w.collect token spender source amount).market = w.market := rfl

@[simp] theorem market_issue : (w.issue user amount).market = w.market := rfl

@[simp] theorem market_destroy : (w.destroy amount).market = w.market := rfl

end DefiStablecoin.World

namespace DefiStablecoin

open Solidity OpenZeppelin World

/-! ## The calls that have these effects -/

section Calls

variable {w : World} {token source recipient msgSender : Address} {amount : UInt256}

theorem callToken_eq_ok {f : ERC20 → Except Revert (Bool × ERC20)} {r : Bool × World} :
    callToken token f w = .ok r ↔
      ∃ k, f (w.token token) = .ok (r.1, k) ∧ r.2 = w.setToken token k := by
  obtain ⟨b, w'⟩ := r
  unfold callToken
  cases f (w.token token) with
  | error e => simp
  | ok p =>
      obtain ⟨success, k⟩ := p
      simp [eq_comm]

theorem callDsc_eq_ok {f : DecentralizedStableCoin → Except Revert DecentralizedStableCoin}
    {r : Unit × World} :
    callDsc f w = .ok r ↔ ∃ d, f w.dsc = .ok d ∧ r.2 = w.setDsc d := by
  obtain ⟨u, w'⟩ := r
  unfold callDsc
  cases f w.dsc <;> simp [eq_comm]

theorem callDscReturning_eq_ok
    {f : DecentralizedStableCoin → Except Revert (Bool × DecentralizedStableCoin)}
    {r : Bool × World} :
    callDscReturning f w = .ok r ↔ ∃ d, f w.dsc = .ok (r.1, d) ∧ r.2 = w.setDsc d := by
  obtain ⟨b, w'⟩ := r
  unfold callDscReturning
  cases f w.dsc with
  | error e => simp
  | ok p =>
      obtain ⟨success, d⟩ := p
      simp [eq_comm]

theorem transfer_eq_ok {r : Bool × World} :
    IERC20.standard.transfer token source recipient amount w = .ok r ↔
      w.CanPay token source recipient amount ∧
        r = (true, w.pay token source recipient amount) := by
  obtain ⟨b, w'⟩ := r
  simp only [IERC20.standard, callToken_eq_ok, ERC20.transfer_eq_ok, Prod.mk.injEq]
  constructor
  · rintro ⟨k, ⟨hmove, rfl, rfl⟩, rfl⟩
    exact ⟨hmove, rfl, rfl⟩
  · rintro ⟨hmove, rfl, rfl⟩
    exact ⟨_, ⟨hmove, rfl, rfl⟩, rfl⟩

theorem callToken_transferFrom_eq_ok {r : Bool × World} :
    callToken token (ERC20.transferFrom msgSender source msgSender amount) w = .ok r ↔
      w.CanCollect token msgSender source amount ∧
        r = (true, w.collect token msgSender source amount) := by
  obtain ⟨b, w'⟩ := r
  simp only [callToken_eq_ok, ERC20.transferFrom_eq_ok, Prod.mk.injEq]
  constructor
  · rintro ⟨k, ⟨hspend, hmove, rfl, rfl⟩, rfl⟩
    exact ⟨⟨hspend, hmove⟩, rfl, rfl⟩
  · rintro ⟨⟨hspend, hmove⟩, rfl, rfl⟩
    exact ⟨_, ⟨hspend, hmove, rfl, rfl⟩, rfl⟩

theorem callDsc_mint_eq_ok {r : Bool × World} :
    callDscReturning (DecentralizedStableCoin.mint w.this recipient amount) w = .ok r ↔
      w.CanIssue recipient amount ∧ r = (true, w.issue recipient amount) := by
  obtain ⟨b, w'⟩ := r
  simp only [callDscReturning_eq_ok, DecentralizedStableCoin.mint_eq_ok, Prod.mk.injEq]
  constructor
  · rintro ⟨d, ⟨howner, hne, hpos, hfits, rfl, rfl⟩, rfl⟩
    exact ⟨⟨howner, hne, hpos, hfits⟩, rfl, rfl⟩
  · rintro ⟨⟨howner, hne, hpos, hfits⟩, rfl, rfl⟩
    exact ⟨_, ⟨howner, hne, hpos, hfits, rfl, rfl⟩, rfl⟩

theorem callDsc_burn_eq_ok {r : Unit × World} :
    callDsc (DecentralizedStableCoin.burn w.this amount) w = .ok r ↔
      w.CanDestroy amount ∧ r.2 = w.destroy amount := by
  simp only [callDsc_eq_ok, DecentralizedStableCoin.burn_eq_ok]
  constructor
  · rintro ⟨d, ⟨howner, hpos, hne, hle, rfl⟩, heq⟩
    exact ⟨⟨howner, hpos, hne, hle⟩, heq⟩
  · rintro ⟨⟨howner, hpos, hne, hle⟩, heq⟩
    exact ⟨_, ⟨howner, hpos, hne, hle, rfl⟩, heq⟩

end Calls

section Hooked

variable {before after : World → World} {w : World} {token source recipient msgSender : Address}
  {amount : UInt256} {r : Bool × World}

theorem hooked_transfer_eq_ok :
    (IERC20.hooked before after).transfer token source recipient amount w = .ok r ↔
      (before w).CanPay token source recipient amount ∧
        r = (true, after ((before w).pay token source recipient amount)) := by
  simp only [IERC20.hooked, Tx.bind_eq_ok, Tx.store_eq_ok, Tx.pure_eq_ok, transfer_eq_ok,
    Prod.mk.injEq]
  constructor
  · rintro ⟨_, w₁, rfl, success, w₂, ⟨hpay, rfl, rfl⟩, _, w₃, rfl, rfl⟩
    exact ⟨hpay, rfl⟩
  · rintro ⟨hpay, rfl⟩
    exact ⟨(), _, rfl, true, _, ⟨hpay, rfl, rfl⟩, (), _, rfl, rfl⟩

theorem hooked_transferFrom_eq_ok :
    (IERC20.hooked before after).transferFrom token msgSender source msgSender amount w = .ok r ↔
      (before w).CanCollect token msgSender source amount ∧
        r = (true, after ((before w).collect token msgSender source amount)) := by
  simp only [IERC20.hooked, IERC20.standard, Tx.bind_eq_ok, Tx.store_eq_ok, Tx.pure_eq_ok,
    callToken_transferFrom_eq_ok, Prod.mk.injEq]
  constructor
  · rintro ⟨_, w₁, rfl, success, w₂, ⟨hcollect, rfl, rfl⟩, _, w₃, rfl, rfl⟩
    exact ⟨hcollect, rfl⟩
  · rintro ⟨hcollect, rfl⟩
    exact ⟨(), _, rfl, true, _, ⟨hcollect, rfl, rfl⟩, (), _, rfl, rfl⟩

end Hooked

end DefiStablecoin
