import DefiStablecoin.Contracts.Errors
import DefiStablecoin.OpenZeppelin.Calls

/-!
# DecentralizedStableCoin

The token of the system: `ERC20Burnable` and `Ownable` with an owner-only `mint`
and an owner-only `burn`.  `burnFrom` is inherited as it stands.
-/

namespace DefiStablecoin

open Solidity OpenZeppelin

/-- The storage of the token: that of `ERC20.sol` and the owner of `Ownable.sol`. -/
structure DecentralizedStableCoin extends ERC20 where
  _owner : Address

namespace DecentralizedStableCoin

def constructor (deployer : Address) : DecentralizedStableCoin :=
  ⟨ERC20.empty, deployer⟩

/-! ## Ownable -/

def onlyOwner (msgSender : Address) (d : DecentralizedStableCoin) : Except Revert Unit :=
  ERC20.require (d._owner = msgSender) "Ownable: caller is not the owner"

def renounceOwnership (msgSender : Address) (d : DecentralizedStableCoin) :
    Except Revert DecentralizedStableCoin := do
  onlyOwner msgSender d
  return { d with _owner := 0 }

def transferOwnership (msgSender newOwner : Address) (d : DecentralizedStableCoin) :
    Except Revert DecentralizedStableCoin := do
  onlyOwner msgSender d
  ERC20.require (newOwner ≠ 0) "Ownable: new owner is the zero address"
  return { d with _owner := newOwner }

/-! ## Minting and burning -/

def burn (msgSender : Address) (amount : UInt256) (d : DecentralizedStableCoin) :
    Except Revert DecentralizedStableCoin := do
  onlyOwner msgSender d
  let balance := d._balances msgSender
  failIf (amount ≤ 0) .DecentralizedStableCoin__Amount_MustBe_MoreThan_Zero
  failIf (amount > balance) .DecentralizedStableCoin__Burn_Amount_Exceeeds_Balance
  let k ← ERC20._burn msgSender amount d.toERC20
  return { d with toERC20 := k }

def mint (msgSender account : Address) (amount : UInt256) (d : DecentralizedStableCoin) :
    Except Revert (Bool × DecentralizedStableCoin) := do
  onlyOwner msgSender d
  failIf (account = 0) .DecentralizedStableCoin__Mint_Must_NotBe_Zero_Address
  failIf (amount ≤ 0) .DecentralizedStableCoin__Amount_MustBe_MoreThan_Zero
  let k ← ERC20._mint account amount d.toERC20
  return (true, { d with toERC20 := k })

/-- An external call on the token, its returned boolean dropped. -/
inductive Call where
  | erc20 (c : ERC20Call)
  | burn (amount : UInt256)
  | burnFrom (account : Address) (amount : UInt256)
  | mint (account : Address) (amount : UInt256)
  | transferOwnership (newOwner : Address)
  | renounceOwnership

def Call.run (msgSender : Address) :
    Call → DecentralizedStableCoin → Except Revert DecentralizedStableCoin
  | .erc20 c, d => do
      let r ← c.run msgSender d.toERC20
      return { d with toERC20 := r.2 }
  | .burn amount, d => DecentralizedStableCoin.burn msgSender amount d
  | .burnFrom account amount, d => do
      let k ← ERC20.burnFrom msgSender account amount d.toERC20
      return { d with toERC20 := k }
  | .mint account amount, d => do
      let r ← DecentralizedStableCoin.mint msgSender account amount d
      return r.2
  | .transferOwnership newOwner, d =>
      DecentralizedStableCoin.transferOwnership msgSender newOwner d
  | .renounceOwnership, d => DecentralizedStableCoin.renounceOwnership msgSender d

/-! ## When the owner's functions return -/

variable {d d' : DecentralizedStableCoin} {msgSender account : Address} {amount : UInt256}

theorem burn_eq_ok :
    burn msgSender amount d = .ok d' ↔
      d._owner = msgSender ∧ amount ≠ 0 ∧ msgSender ≠ 0 ∧
        amount.toNat ≤ (d._balances msgSender).toNat ∧
          { d with toERC20 := d.toERC20.destroy msgSender amount } = d' := by
  simp only [burn, onlyOwner, except_bind_eq_ok, ERC20.require_eq_ok, failIf_eq_ok,
    ERC20._burn_eq_ok, except_pure_eq_ok, not_le_zero_iff, gt_iff_lt, BitVec.lt_def,
    Nat.not_lt, exists_const]
  constructor
  · rintro ⟨howner, hpos, hle, k, ⟨hne, _, rfl⟩, rfl⟩
    exact ⟨howner, hpos, hne, hle, rfl⟩
  · rintro ⟨howner, hpos, hne, hle, rfl⟩
    exact ⟨howner, hpos, hle, _, ⟨hne, hle, rfl⟩, rfl⟩

theorem mint_eq_ok {r : Bool × DecentralizedStableCoin} :
    mint msgSender account amount d = .ok r ↔
      d._owner = msgSender ∧ account ≠ 0 ∧ amount ≠ 0 ∧
        d._totalSupply.toNat + amount.toNat < 2 ^ 256 ∧
          (true, { d with toERC20 := d.toERC20.issue account amount }) = r := by
  simp only [mint, onlyOwner, except_bind_eq_ok, ERC20.require_eq_ok, failIf_eq_ok,
    ERC20._mint_eq_ok, except_pure_eq_ok, not_le_zero_iff, exists_const]
  constructor
  · rintro ⟨howner, hne, hpos, k, ⟨_, hfits, rfl⟩, rfl⟩
    exact ⟨howner, hne, hpos, hfits, rfl⟩
  · rintro ⟨howner, hne, hpos, hfits, rfl⟩
    exact ⟨howner, hne, hpos, _, ⟨hne, hfits, rfl⟩, rfl⟩

end DecentralizedStableCoin

end DefiStablecoin
