import DefiStablecoin.Solidity.Ledger
import DefiStablecoin.Solidity.Tx

/-!
# The OpenZeppelin ERC20 token

The storage and the functions of `ERC20.sol`, with the `unchecked` blocks as
wrapping arithmetic.  Every function is characterised by the guard under which
it returns and by the storage that it then leaves, and the storage updates are
shown to keep the token well formed: the balances add up to the supply, so
nothing that the token computes unchecked ever wraps.
-/

namespace DefiStablecoin.OpenZeppelin

open Solidity

/-- The storage of `ERC20.sol`, without the name and the symbol. -/
structure ERC20 where
  _balances : Address → UInt256
  _allowances : Address → Address → UInt256
  _totalSupply : UInt256

namespace ERC20

section Functions

variable {ε : Type} [SolidityError ε]

def require (p : Prop) [Decidable p] (reason : String) : Except ε Unit :=
  if p then .ok () else .error (SolidityError.error reason)

theorem require_eq_ok {p : Prop} [Decidable p] {reason : String} {u : Unit} :
    require (ε := ε) p reason = .ok u ↔ p := by
  unfold require
  split <;> simp_all

def empty : ERC20 := ⟨fun _ => 0, fun _ _ => 0, 0⟩

/-! ## Storage updates -/

def move (src dst : Address) (amount : UInt256) (k : ERC20) : ERC20 :=
  { k with _balances := shift k._balances src dst amount }

def issue (account : Address) (amount : UInt256) (k : ERC20) : ERC20 :=
  { k with
    _balances := Function.update k._balances account (k._balances account + amount)
    _totalSupply := k._totalSupply + amount }

def destroy (account : Address) (amount : UInt256) (k : ERC20) : ERC20 :=
  { k with
    _balances := Function.update k._balances account (k._balances account - amount)
    _totalSupply := k._totalSupply - amount }

def allow (owner spender : Address) (amount : UInt256) (k : ERC20) : ERC20 :=
  { k with
    _allowances := Function.update k._allowances owner
      (Function.update (k._allowances owner) spender amount) }

/-- The allowance left by a covered spending; an infinite one stays as it is. -/
def spend (owner spender : Address) (amount : UInt256) (k : ERC20) : ERC20 :=
  if k._allowances owner spender = maxUInt256 then k
  else k.allow owner spender (k._allowances owner spender - amount)

@[simp] theorem move_totalSupply (src dst : Address) (amount : UInt256) (k : ERC20) :
    (k.move src dst amount)._totalSupply = k._totalSupply := rfl

@[simp] theorem move_allowances (src dst : Address) (amount : UInt256) (k : ERC20) :
    (k.move src dst amount)._allowances = k._allowances := rfl

@[simp] theorem issue_allowances (account : Address) (amount : UInt256) (k : ERC20) :
    (k.issue account amount)._allowances = k._allowances := rfl

@[simp] theorem destroy_allowances (account : Address) (amount : UInt256) (k : ERC20) :
    (k.destroy account amount)._allowances = k._allowances := rfl

@[simp] theorem allow_balances (owner spender : Address) (amount : UInt256) (k : ERC20) :
    (k.allow owner spender amount)._balances = k._balances := rfl

@[simp] theorem allow_totalSupply (owner spender : Address) (amount : UInt256) (k : ERC20) :
    (k.allow owner spender amount)._totalSupply = k._totalSupply := rfl

theorem allow_allowances_of_ne {owner spender o : Address} (amount : UInt256) (k : ERC20)
    (h : o ≠ owner) : (k.allow owner spender amount)._allowances o = k._allowances o :=
  Function.update_of_ne h _ _

@[simp] theorem spend_balances (owner spender : Address) (amount : UInt256) (k : ERC20) :
    (k.spend owner spender amount)._balances = k._balances := by
  unfold spend
  split <;> rfl

@[simp] theorem spend_totalSupply (owner spender : Address) (amount : UInt256) (k : ERC20) :
    (k.spend owner spender amount)._totalSupply = k._totalSupply := by
  unfold spend
  split <;> rfl

theorem spend_allowances_of_ne {owner spender o : Address} (amount : UInt256) (k : ERC20)
    (h : o ≠ owner) : (k.spend owner spender amount)._allowances o = k._allowances o := by
  unfold spend
  split
  · rfl
  · exact allow_allowances_of_ne _ k h

/-! ## Internal functions -/

def _transfer (src dst : Address) (amount : UInt256) (k : ERC20) : Except ε ERC20 := do
  require (src ≠ 0) "ERC20: transfer from the zero address"
  require (dst ≠ 0) "ERC20: transfer to the zero address"
  require (k._balances src ≥ amount) "ERC20: transfer amount exceeds balance"
  return k.move src dst amount

def _mint (account : Address) (amount : UInt256) (k : ERC20) : Except ε ERC20 := do
  require (account ≠ 0) "ERC20: mint to the zero address"
  let _ ← checkedAdd k._totalSupply amount
  return k.issue account amount

def _burn (account : Address) (amount : UInt256) (k : ERC20) : Except ε ERC20 := do
  require (account ≠ 0) "ERC20: burn from the zero address"
  require (k._balances account ≥ amount) "ERC20: burn amount exceeds balance"
  return k.destroy account amount

def _approve (owner spender : Address) (amount : UInt256) (k : ERC20) : Except ε ERC20 := do
  require (owner ≠ 0) "ERC20: approve from the zero address"
  require (spender ≠ 0) "ERC20: approve to the zero address"
  return k.allow owner spender amount

def _spendAllowance (owner spender : Address) (amount : UInt256) (k : ERC20) :
    Except ε ERC20 := do
  let currentAllowance := k._allowances owner spender
  if currentAllowance ≠ maxUInt256 then
    require (currentAllowance ≥ amount) "ERC20: insufficient allowance"
    _approve owner spender (currentAllowance - amount) k
  else
    return k

/-! ## External functions

Each returns its result beside the new storage; a failure is a revert, never a
returned `false`. -/

def transfer (msgSender dst : Address) (amount : UInt256) (k : ERC20) :
    Except ε (Bool × ERC20) := do
  let k ← _transfer msgSender dst amount k
  return (true, k)

def approve (msgSender spender : Address) (amount : UInt256) (k : ERC20) :
    Except ε (Bool × ERC20) := do
  let k ← _approve msgSender spender amount k
  return (true, k)

def transferFrom (msgSender src dst : Address) (amount : UInt256) (k : ERC20) :
    Except ε (Bool × ERC20) := do
  let k ← _spendAllowance src msgSender amount k
  let k ← _transfer src dst amount k
  return (true, k)

def increaseAllowance (msgSender spender : Address) (addedValue : UInt256) (k : ERC20) :
    Except ε (Bool × ERC20) := do
  let increased ← checkedAdd (k._allowances msgSender spender) addedValue
  let k ← _approve msgSender spender increased k
  return (true, k)

def decreaseAllowance (msgSender spender : Address) (subtractedValue : UInt256)
    (k : ERC20) : Except ε (Bool × ERC20) := do
  let currentAllowance := k._allowances msgSender spender
  require (currentAllowance ≥ subtractedValue) "ERC20: decreased allowance below zero"
  let k ← _approve msgSender spender (currentAllowance - subtractedValue) k
  return (true, k)

def burnFrom (msgSender account : Address) (amount : UInt256) (k : ERC20) :
    Except ε ERC20 := do
  let k ← _spendAllowance account msgSender amount k
  _burn account amount k

/-! ## When they return, and what they leave -/

def CanSpend (owner spender : Address) (amount : UInt256) (k : ERC20) : Prop :=
  k._allowances owner spender = maxUInt256 ∨
    (amount.toNat ≤ (k._allowances owner spender).toNat ∧ owner ≠ 0 ∧ spender ≠ 0)

instance (owner spender : Address) (amount : UInt256) (k : ERC20) :
    Decidable (CanSpend owner spender amount k) :=
  inferInstanceAs (Decidable (_ ∨ _))

def CanMove (src dst : Address) (amount : UInt256) (k : ERC20) : Prop :=
  src ≠ 0 ∧ dst ≠ 0 ∧ amount.toNat ≤ (k._balances src).toNat

instance (src dst : Address) (amount : UInt256) (k : ERC20) :
    Decidable (CanMove src dst amount k) :=
  inferInstanceAs (Decidable (_ ∧ _))

variable {k k' : ERC20} {owner spender src dst account msgSender : Address} {amount : UInt256}

theorem canMove_spend :
    CanMove src dst amount (k.spend owner spender amount) ↔ CanMove src dst amount k := by
  simp [CanMove]

theorem _transfer_eq_ok :
    _transfer (ε := ε) src dst amount k = .ok k' ↔
      CanMove src dst amount k ∧ k.move src dst amount = k' := by
  simp [_transfer, except_bind_eq_ok, require_eq_ok, CanMove, BitVec.le_def, and_assoc,
    except_map_eq_ok]

theorem _mint_eq_ok :
    _mint (ε := ε) account amount k = .ok k' ↔
      account ≠ 0 ∧ k._totalSupply.toNat + amount.toNat < 2 ^ 256 ∧
        k.issue account amount = k' := by
  simp [_mint, except_bind_eq_ok, require_eq_ok, checkedAdd_eq_ok, except_map_eq_ok,
    and_assoc]

theorem _burn_eq_ok :
    _burn (ε := ε) account amount k = .ok k' ↔
      account ≠ 0 ∧ amount.toNat ≤ (k._balances account).toNat ∧
        k.destroy account amount = k' := by
  simp [_burn, except_bind_eq_ok, require_eq_ok, BitVec.le_def, except_map_eq_ok]

theorem _approve_eq_ok :
    _approve (ε := ε) owner spender amount k = .ok k' ↔
      owner ≠ 0 ∧ spender ≠ 0 ∧ k.allow owner spender amount = k' := by
  simp [_approve, except_bind_eq_ok, require_eq_ok, except_map_eq_ok]

theorem _spendAllowance_eq_ok :
    _spendAllowance (ε := ε) owner spender amount k = .ok k' ↔
      CanSpend owner spender amount k ∧ k.spend owner spender amount = k' := by
  unfold _spendAllowance CanSpend spend
  by_cases hmax : k._allowances owner spender = maxUInt256
  · simp [hmax, except_pure_eq_ok]
  · simp [hmax, except_bind_eq_ok, require_eq_ok, _approve_eq_ok, BitVec.le_def, and_assoc]

theorem transfer_eq_ok {r : Bool × ERC20} :
    transfer (ε := ε) src dst amount k = .ok r ↔
      CanMove src dst amount k ∧ (true, k.move src dst amount) = r := by
  simp [transfer, _transfer_eq_ok, except_map_eq_ok, and_assoc]

theorem approve_eq_ok {r : Bool × ERC20} :
    approve (ε := ε) owner spender amount k = .ok r ↔
      owner ≠ 0 ∧ spender ≠ 0 ∧ (true, k.allow owner spender amount) = r := by
  simp [approve, _approve_eq_ok, except_map_eq_ok, and_assoc]

theorem transferFrom_eq_ok {r : Bool × ERC20} :
    transferFrom (ε := ε) msgSender src dst amount k = .ok r ↔
      CanSpend src msgSender amount k ∧ CanMove src dst amount k ∧
        (true, (k.spend src msgSender amount).move src dst amount) = r := by
  simp [transferFrom, except_bind_eq_ok, _spendAllowance_eq_ok, _transfer_eq_ok, canMove_spend,
    except_map_eq_ok, and_assoc]

theorem burnFrom_eq_ok :
    burnFrom (ε := ε) msgSender account amount k = .ok k' ↔
      CanSpend account msgSender amount k ∧ account ≠ 0 ∧
        amount.toNat ≤ (k._balances account).toNat ∧
          (k.spend account msgSender amount).destroy account amount = k' := by
  simp [burnFrom, except_bind_eq_ok, _spendAllowance_eq_ok, _burn_eq_ok, and_assoc]

theorem increaseAllowance_eq_ok {r : Bool × ERC20} :
    increaseAllowance (ε := ε) msgSender spender amount k = .ok r ↔
      (k._allowances msgSender spender).toNat + amount.toNat < 2 ^ 256 ∧
        msgSender ≠ 0 ∧ spender ≠ 0 ∧
          (true, k.allow msgSender spender (k._allowances msgSender spender + amount)) = r := by
  simp [increaseAllowance, except_bind_eq_ok, _approve_eq_ok, checkedAdd_eq_ok, except_map_eq_ok,
    and_assoc]

theorem decreaseAllowance_eq_ok {r : Bool × ERC20} :
    decreaseAllowance (ε := ε) msgSender spender amount k = .ok r ↔
      amount.toNat ≤ (k._allowances msgSender spender).toNat ∧
        msgSender ≠ 0 ∧ spender ≠ 0 ∧
          (true, k.allow msgSender spender (k._allowances msgSender spender - amount)) = r := by
  simp [decreaseAllowance, except_bind_eq_ok, require_eq_ok, _approve_eq_ok, BitVec.le_def,
    except_map_eq_ok, and_assoc]

end Functions

/-! ## Well-formed tokens -/

/-- The balances add up to the supply, and the zero address holds nothing. -/
structure WellFormed (k : ERC20) : Prop where
  supply_eq : total k._balances = k._totalSupply.toNat
  zero_balance : k._balances 0 = 0

namespace WellFormed

variable {k : ERC20} {src dst account : Address} {amount : UInt256}

theorem empty : WellFormed ERC20.empty := ⟨total_zero, rfl⟩

theorem total_lt (hk : k.WellFormed) : total k._balances < 2 ^ 256 := by
  rw [hk.supply_eq]
  exact k._totalSupply.isLt

theorem balance_le_supply (hk : k.WellFormed) (account : Address) :
    (k._balances account).toNat ≤ k._totalSupply.toNat := by
  rw [← hk.supply_eq]
  exact toNat_le_total _ _

theorem ne_zero_of_balance (hk : k.WellFormed) (h : 0 < (k._balances account).toNat) :
    account ≠ 0 := by
  rintro rfl
  rw [hk.zero_balance] at h
  exact absurd h (by decide)

theorem move (hk : k.WellFormed) (h : CanMove src dst amount k) :
    (k.move src dst amount).WellFormed where
  supply_eq := (total_shift h.2.2 hk.total_lt).trans hk.supply_eq
  zero_balance := by
    obtain ⟨hsrc, hdst, _⟩ := h
    simp [ERC20.move, shift, hsrc.symm, hdst.symm, hk.zero_balance]

theorem issue (hk : k.WellFormed) (hne : account ≠ 0)
    (hfits : k._totalSupply.toNat + amount.toNat < 2 ^ 256) :
    (k.issue account amount).WellFormed where
  supply_eq := by
    have hle := hk.balance_le_supply account
    have hbalance := BitVec.toNat_add_of_lt
      (x := k._balances account) (y := amount) (by omega)
    have hsupply := BitVec.toNat_add_of_lt hfits
    have htotal := total_update k._balances account (k._balances account + amount)
    have := hk.supply_eq
    simp only [ERC20.issue]
    omega
  zero_balance := by simp [ERC20.issue, hne.symm, hk.zero_balance]

theorem destroy (hk : k.WellFormed) (hne : account ≠ 0)
    (hcover : amount.toNat ≤ (k._balances account).toNat) :
    (k.destroy account amount).WellFormed where
  supply_eq := by
    have hle := hk.balance_le_supply account
    have hbalance := BitVec.toNat_sub_of_le (BitVec.le_def.mpr hcover)
    have hsupply := BitVec.toNat_sub_of_le
      (BitVec.le_def.mpr (show amount.toNat ≤ k._totalSupply.toNat by omega))
    have htotal := total_update k._balances account (k._balances account - amount)
    have := hk.supply_eq
    simp only [ERC20.destroy]
    omega
  zero_balance := by simp [ERC20.destroy, hne.symm, hk.zero_balance]

theorem allow (hk : k.WellFormed) (owner spender : Address) (amount : UInt256) :
    (k.allow owner spender amount).WellFormed :=
  ⟨hk.supply_eq, hk.zero_balance⟩

theorem spend (hk : k.WellFormed) (owner spender : Address) (amount : UInt256) :
    (k.spend owner spender amount).WellFormed := by
  unfold ERC20.spend
  split
  · exact hk
  · exact hk.allow _ _ _

theorem toNat_move (hk : k.WellFormed) (h : CanMove src dst amount k) (account : Address) :
    ((k.move src dst amount)._balances account).toNat +
        (if account = src then amount.toNat else 0) =
      (k._balances account).toNat + (if account = dst then amount.toNat else 0) :=
  toNat_shift h.2.2 hk.total_lt account

theorem toNat_destroy_totalSupply (hk : k.WellFormed)
    (hcover : amount.toNat ≤ (k._balances account).toNat) :
    (k.destroy account amount)._totalSupply.toNat + amount.toNat = k._totalSupply.toNat := by
  have hle := hk.balance_le_supply account
  have hsub := BitVec.toNat_sub_of_le
    (BitVec.le_def.mpr (show amount.toNat ≤ k._totalSupply.toNat by omega))
  simp only [ERC20.destroy]
  omega

end WellFormed

end ERC20

end DefiStablecoin.OpenZeppelin
