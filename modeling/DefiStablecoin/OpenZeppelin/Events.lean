import DefiStablecoin.OpenZeppelin.Calls
import DefiStablecoin.Solidity.Logged

/-!
# The events of the ERC20 token

The functions of `ERC20.sol` with what they emit, at the places where they emit it.
Each computes what its silent counterpart computes, and whoever reads the events
can redo every write of the storage.
-/

namespace DefiStablecoin.OpenZeppelin

open Solidity LogTx

inductive ERC20Event where
  | Transfer (source recipient : Address) (value : UInt256)
  | Approval (owner spender : Address) (value : UInt256)
  deriving DecidableEq

namespace ERC20.Logged

variable {ε : Type} [SolidityError ε]

/-! ## Functions -/

def _transfer (src dst : Address) (amount : UInt256) : LogTx ERC20Event ERC20 ε Unit := do
  quiet (Tx.update (ERC20._transfer src dst amount))
  emit (.Transfer src dst amount)

def _mint (account : Address) (amount : UInt256) : LogTx ERC20Event ERC20 ε Unit := do
  quiet (Tx.update (ERC20._mint account amount))
  emit (.Transfer 0 account amount)

def _burn (account : Address) (amount : UInt256) : LogTx ERC20Event ERC20 ε Unit := do
  quiet (Tx.update (ERC20._burn account amount))
  emit (.Transfer account 0 amount)

def _approve (owner spender : Address) (amount : UInt256) : LogTx ERC20Event ERC20 ε Unit := do
  quiet (Tx.update (ERC20._approve owner spender amount))
  emit (.Approval owner spender amount)

def _spendAllowance (owner spender : Address) (amount : UInt256) :
    LogTx ERC20Event ERC20 ε Unit := do
  let currentAllowance ← quiet (Tx.read fun k => k._allowances owner spender)
  if currentAllowance ≠ maxUInt256 then
    quiet (Tx.view fun _ =>
      require (currentAllowance ≥ amount) "ERC20: insufficient allowance")
    _approve owner spender (currentAllowance - amount)
  else
    return ()

def transfer (msgSender dst : Address) (amount : UInt256) : LogTx ERC20Event ERC20 ε Bool := do
  _transfer msgSender dst amount
  return true

def approve (msgSender spender : Address) (amount : UInt256) :
    LogTx ERC20Event ERC20 ε Bool := do
  _approve msgSender spender amount
  return true

def transferFrom (msgSender src dst : Address) (amount : UInt256) :
    LogTx ERC20Event ERC20 ε Bool := do
  _spendAllowance src msgSender amount
  _transfer src dst amount
  return true

def increaseAllowance (msgSender spender : Address) (addedValue : UInt256) :
    LogTx ERC20Event ERC20 ε Bool := do
  let increased ← quiet (Tx.view fun k => checkedAdd (k._allowances msgSender spender) addedValue)
  _approve msgSender spender increased
  return true

def decreaseAllowance (msgSender spender : Address) (subtractedValue : UInt256) :
    LogTx ERC20Event ERC20 ε Bool := do
  let currentAllowance ← quiet (Tx.read fun k => k._allowances msgSender spender)
  quiet (Tx.view fun _ =>
    require (currentAllowance ≥ subtractedValue) "ERC20: decreased allowance below zero")
  _approve msgSender spender (currentAllowance - subtractedValue)
  return true

def burnFrom (msgSender account : Address) (amount : UInt256) :
    LogTx ERC20Event ERC20 ε Unit := do
  _spendAllowance account msgSender amount
  _burn account amount

def run (msgSender : Address) : ERC20Call → LogTx ERC20Event ERC20 ε Bool
  | .transfer dst amount => transfer msgSender dst amount
  | .approve spender amount => approve msgSender spender amount
  | .transferFrom src dst amount => transferFrom msgSender src dst amount
  | .increaseAllowance spender addedValue => increaseAllowance msgSender spender addedValue
  | .decreaseAllowance spender subtractedValue =>
      decreaseAllowance msgSender spender subtractedValue

/-! ## Forgetting the events -/

theorem _transfer_erases (src dst : Address) (amount : UInt256) :
    Erases (_transfer (ε := ε) src dst amount) (Tx.update (ERC20._transfer src dst amount)) :=
  .bind_emit .quiet

theorem _mint_erases (account : Address) (amount : UInt256) :
    Erases (_mint (ε := ε) account amount) (Tx.update (ERC20._mint account amount)) :=
  .bind_emit .quiet

theorem _burn_erases (account : Address) (amount : UInt256) :
    Erases (_burn (ε := ε) account amount) (Tx.update (ERC20._burn account amount)) :=
  .bind_emit .quiet

theorem _approve_erases (owner spender : Address) (amount : UInt256) :
    Erases (_approve (ε := ε) owner spender amount)
      (Tx.update (ERC20._approve owner spender amount)) :=
  .bind_emit .quiet

theorem _spendAllowance_erases (owner spender : Address) (amount : UInt256) :
    Erases (_spendAllowance (ε := ε) owner spender amount)
      (Tx.update (ERC20._spendAllowance owner spender amount)) := by
  intro k log
  unfold ERC20._spendAllowance Tx.update
  by_cases hmax : k._allowances owner spender = maxUInt256
  · change ((if k._allowances owner spender ≠ maxUInt256 then _ else _ :
      LogTx ERC20Event ERC20 ε Unit) (k, log)).map _ = _
    rw [if_neg (not_not.mpr hmax)]
    simp only [ne_eq, hmax, not_true_eq_false, if_false]
    rfl
  · change ((if k._allowances owner spender ≠ maxUInt256 then _ else _ :
      LogTx ERC20Event ERC20 ε Unit) (k, log)).map _ = _
    rw [if_pos hmax]
    simp only [if_pos hmax]
    have happrove := _approve_erases (ε := ε) owner spender (k._allowances owner spender - amount)
    exact (Erases.view_update fun _ => happrove) k log

theorem transfer_erases (msgSender dst : Address) (amount : UInt256) :
    Erases (transfer (ε := ε) msgSender dst amount) (ERC20.transfer msgSender dst amount) :=
  (_transfer_erases msgSender dst amount).update_bind (.pure true)

theorem approve_erases (msgSender spender : Address) (amount : UInt256) :
    Erases (approve (ε := ε) msgSender spender amount)
      (ERC20.approve msgSender spender amount) :=
  (_approve_erases msgSender spender amount).update_bind (.pure true)

theorem transferFrom_erases (msgSender src dst : Address) (amount : UInt256) :
    Erases (transferFrom (ε := ε) msgSender src dst amount)
      (ERC20.transferFrom msgSender src dst amount) :=
  (_spendAllowance_erases src msgSender amount).update_bind
    ((_transfer_erases src dst amount).update_bind (.pure true))

theorem increaseAllowance_erases (msgSender spender : Address) (amount : UInt256) :
    Erases (increaseAllowance (ε := ε) msgSender spender amount)
      (ERC20.increaseAllowance msgSender spender amount) :=
  .view_bind fun _ => (_approve_erases msgSender spender _).update_bind (.pure true)

theorem decreaseAllowance_erases (msgSender spender : Address) (amount : UInt256) :
    Erases (decreaseAllowance (ε := ε) msgSender spender amount)
      (ERC20.decreaseAllowance msgSender spender amount) := by
  intro k log
  exact (Erases.view_bind fun _ =>
    (_approve_erases msgSender spender (k._allowances msgSender spender - amount)).update_bind
      (.pure true)) k log

theorem burnFrom_erases (msgSender account : Address) (amount : UInt256) :
    Erases (burnFrom (ε := ε) msgSender account amount)
      (Tx.update (ERC20.burnFrom msgSender account amount)) :=
  (_spendAllowance_erases account msgSender amount).update_update (_burn_erases account amount)

/-- **The events change nothing about what a call does.** -/
theorem run_erases (msgSender : Address) (c : ERC20Call) :
    Erases (run (ε := ε) msgSender c) (c.run msgSender) := by
  cases c with
  | transfer dst amount => exact transfer_erases msgSender dst amount
  | approve spender amount => exact approve_erases msgSender spender amount
  | transferFrom src dst amount => exact transferFrom_erases msgSender src dst amount
  | increaseAllowance spender amount => exact increaseAllowance_erases msgSender spender amount
  | decreaseAllowance spender amount => exact decreaseAllowance_erases msgSender spender amount

/-! ## Reading the events -/

section Follows

variable {ρ : Type} {f : ρ → ERC20Event → ρ} {P Q : ρ → ERC20 → Prop}
  {src dst account owner spender msgSender : Address} {amount : UInt256}

theorem _transfer_follows
    (h : ∀ r k, ERC20.CanMove src dst amount k → P r k →
      Q (f r (.Transfer src dst amount)) (k.move src dst amount)) :
    Follows f P Q (_transfer (ε := ε) src dst amount) := by
  refine .bind (.quiet fun k _ k' hok r hr => ?_) fun _ => .emit fun _ _ hr => hr
  obtain ⟨hmove, rfl⟩ := _transfer_eq_ok.mp (Tx.update_eq_ok.mp hok)
  exact h r k hmove hr

theorem _mint_follows
    (h : ∀ r k, account ≠ 0 → k._totalSupply.toNat + amount.toNat < 2 ^ 256 → P r k →
      Q (f r (.Transfer 0 account amount)) (k.issue account amount)) :
    Follows f P Q (_mint (ε := ε) account amount) := by
  refine .bind (.quiet fun k _ k' hok r hr => ?_) fun _ => .emit fun _ _ hr => hr
  obtain ⟨hne, hfits, rfl⟩ := _mint_eq_ok.mp (Tx.update_eq_ok.mp hok)
  exact h r k hne hfits hr

theorem _burn_follows
    (h : ∀ r k, account ≠ 0 → amount.toNat ≤ (k._balances account).toNat → P r k →
      Q (f r (.Transfer account 0 amount)) (k.destroy account amount)) :
    Follows f P Q (_burn (ε := ε) account amount) := by
  refine .bind (.quiet fun k _ k' hok r hr => ?_) fun _ => .emit fun _ _ hr => hr
  obtain ⟨hne, hcover, rfl⟩ := _burn_eq_ok.mp (Tx.update_eq_ok.mp hok)
  exact h r k hne hcover hr

theorem _approve_follows
    (h : ∀ r k, P r k → Q (f r (.Approval owner spender amount)) (k.allow owner spender amount)) :
    Follows f P Q (_approve (ε := ε) owner spender amount) := by
  refine .bind (.quiet fun k _ k' hok r hr => ?_) fun _ => .emit fun _ _ hr => hr
  obtain ⟨_, _, rfl⟩ := _approve_eq_ok.mp (Tx.update_eq_ok.mp hok)
  exact h r k hr

/-- Spending emits an approval or, where the allowance is infinite, nothing. -/
theorem _spendAllowance_follows
    (h : ∀ r k amount, P r k →
      P (f r (.Approval owner spender amount)) (k.allow owner spender amount)) :
    Follows f P P (_spendAllowance (ε := ε) owner spender amount) := by
  unfold _spendAllowance
  refine .bind .read fun currentAllowance => ?_
  split
  · exact .bind .view fun _ => _approve_follows fun r k hr => h r k _ hr
  · exact .pure

/-- A reader who is in step with approvals and transfers is in step with every call. -/
theorem run_follows
    (happroval : ∀ r k owner spender amount, P r k →
      P (f r (.Approval owner spender amount)) (k.allow owner spender amount))
    (htransfer : ∀ r k src dst amount, ERC20.CanMove src dst amount k → P r k →
      P (f r (.Transfer src dst amount)) (k.move src dst amount))
    (c : ERC20Call) : Follows f P P (run (ε := ε) msgSender c) := by
  cases c with
  | transfer dst amount =>
      exact .bind (_transfer_follows fun r k => htransfer r k _ _ _) fun _ => .pure
  | approve spender amount =>
      exact .bind (_approve_follows fun r k => happroval r k _ _ _) fun _ => .pure
  | transferFrom src dst amount =>
      exact .bind (_spendAllowance_follows fun r k => happroval r k _ _) fun _ =>
        .bind (_transfer_follows fun r k => htransfer r k _ _ _) fun _ => .pure
  | increaseAllowance spender amount =>
      exact .bind .view fun _ =>
        .bind (_approve_follows fun r k => happroval r k _ _ _) fun _ => .pure
  | decreaseAllowance spender amount =>
      exact .bind .read fun _ => .bind .view fun _ =>
        .bind (_approve_follows fun r k => happroval r k _ _ _) fun _ => .pure

end Follows

end ERC20.Logged

namespace ERC20

/-! ## Redoing the writes -/

/-- What an event says was done to the storage. -/
def redo (k : ERC20) : ERC20Event → ERC20
  | .Transfer source recipient value =>
      if source = 0 then k.issue recipient value
      else if recipient = 0 then k.destroy source value
      else k.move source recipient value
  | .Approval owner spender value => k.allow owner spender value

theorem redo_transfer {src dst : Address} {amount : UInt256} {k : ERC20}
    (h : CanMove src dst amount k) : k.redo (.Transfer src dst amount) = k.move src dst amount := by
  obtain ⟨hsrc, hdst, _⟩ := h
  simp [redo, hsrc, hdst]

theorem redo_issue (account : Address) (amount : UInt256) (k : ERC20) :
    k.redo (.Transfer 0 account amount) = k.issue account amount := by
  simp [redo]

theorem redo_destroy {account : Address} (amount : UInt256) (k : ERC20) (h : account ≠ 0) :
    k.redo (.Transfer account 0 amount) = k.destroy account amount := by
  simp [redo, h]

end ERC20

end DefiStablecoin.OpenZeppelin
