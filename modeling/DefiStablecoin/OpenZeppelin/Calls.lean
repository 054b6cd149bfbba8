import DefiStablecoin.OpenZeppelin.ERC20

/-!
# External calls on an ERC20 token

The state-changing external functions of a token as data, so that a run can
quantify over them, and what any of them can do to the balance of a holder that
neither makes the call nor ever approved a spender.
-/

namespace DefiStablecoin.OpenZeppelin

open Solidity

def ERC20.NoAllowance (holder : Address) (k : ERC20) : Prop :=
  ∀ spender, k._allowances holder spender = 0

inductive ERC20Call where
  | transfer (dst : Address) (amount : UInt256)
  | approve (spender : Address) (amount : UInt256)
  | transferFrom (src dst : Address) (amount : UInt256)
  | increaseAllowance (spender : Address) (addedValue : UInt256)
  | decreaseAllowance (spender : Address) (subtractedValue : UInt256)

namespace ERC20Call

variable {ε : Type} [SolidityError ε]

def run (msgSender : Address) : ERC20Call → ERC20 → Except ε (Bool × ERC20)
  | .transfer dst amount => ERC20.transfer msgSender dst amount
  | .approve spender amount => ERC20.approve msgSender spender amount
  | .transferFrom src dst amount => ERC20.transferFrom msgSender src dst amount
  | .increaseAllowance spender addedValue =>
      ERC20.increaseAllowance msgSender spender addedValue
  | .decreaseAllowance spender subtractedValue =>
      ERC20.decreaseAllowance msgSender spender subtractedValue

/-- The amount that the call, when it returns, has sent to `holder`. -/
def sentTo (holder : Address) : ERC20Call → ℕ
  | .transfer dst amount => if dst = holder then amount.toNat else 0
  | .transferFrom _ dst amount => if dst = holder then amount.toNat else 0
  | _ => 0

end ERC20Call

namespace ERC20

section NoAllowance

variable {k : ERC20} {holder owner spender : Address} {amount : UInt256}

/-- A holder that approved nobody can only have nothing spent for it. -/
theorem NoAllowance.spent_eq_zero (hno : k.NoAllowance holder)
    (h : CanSpend holder spender amount k) : amount.toNat = 0 := by
  rcases h with hmax | ⟨hle, _⟩
  · rw [hno spender] at hmax
    exact absurd hmax (by decide)
  · rw [hno spender] at hle
    simpa using hle

theorem NoAllowance.allow (hno : k.NoAllowance holder) (hne : owner ≠ holder) :
    (k.allow owner spender amount).NoAllowance holder := by
  intro s
  rw [allow_allowances_of_ne amount k hne.symm]
  exact hno s

theorem NoAllowance.spend (hno : k.NoAllowance holder)
    (h : CanSpend owner spender amount k) :
    (k.spend owner spender amount).NoAllowance holder := by
  intro s
  by_cases hne : holder = owner
  · subst hne
    have hzero : amount = 0 := BitVec.eq_of_toNat_eq (hno.spent_eq_zero h)
    unfold ERC20.spend
    split
    · exact hno s
    · by_cases hs : s = spender
      · subst hs
        simp [ERC20.allow, hno s, hzero]
      · simp [ERC20.allow, hs, hno s]
  · rw [spend_allowances_of_ne amount k hne]
    exact hno s

end NoAllowance

end ERC20

namespace ERC20Call

variable {ε : Type} [SolidityError ε] {k k' : ERC20} {c : ERC20Call} {b : Bool}
  {msgSender holder : Address}

/-- What a call that returns has done: moved the caller's own tokens, moved
tokens under an allowance, or set one of the caller's allowances. -/
theorem run_cases (holder : Address) (h : c.run (ε := ε) msgSender k = .ok (b, k')) :
    (∃ dst amount, c = .transfer dst amount ∧ ERC20.CanMove msgSender dst amount k ∧
      k' = k.move msgSender dst amount) ∨
    (∃ src dst amount, c = .transferFrom src dst amount ∧
      ERC20.CanSpend src msgSender amount k ∧ ERC20.CanMove src dst amount k ∧
      k' = (k.spend src msgSender amount).move src dst amount) ∨
    (∃ spender amount, c.sentTo holder = 0 ∧ k' = k.allow msgSender spender amount) := by
  cases c with
  | transfer dst amount =>
      obtain ⟨hmove, heq⟩ := ERC20.transfer_eq_ok.mp h
      cases heq
      exact .inl ⟨dst, amount, rfl, hmove, rfl⟩
  | approve spender amount =>
      obtain ⟨_, _, heq⟩ := ERC20.approve_eq_ok.mp h
      cases heq
      exact .inr (.inr ⟨spender, _, rfl, rfl⟩)
  | transferFrom src dst amount =>
      obtain ⟨hspend, hmove, heq⟩ := ERC20.transferFrom_eq_ok.mp h
      cases heq
      exact .inr (.inl ⟨src, dst, amount, rfl, hspend, hmove, rfl⟩)
  | increaseAllowance spender addedValue =>
      obtain ⟨_, _, _, heq⟩ := ERC20.increaseAllowance_eq_ok.mp h
      cases heq
      exact .inr (.inr ⟨spender, _, rfl, rfl⟩)
  | decreaseAllowance spender subtractedValue =>
      obtain ⟨_, _, _, heq⟩ := ERC20.decreaseAllowance_eq_ok.mp h
      cases heq
      exact .inr (.inr ⟨spender, _, rfl, rfl⟩)

theorem run_wellFormed (hk : k.WellFormed)
    (h : c.run (ε := ε) msgSender k = .ok (b, k')) : k'.WellFormed := by
  obtain ⟨dst, amount, _, hmove, rfl⟩ | ⟨src, dst, amount, _, _, hmove, rfl⟩ |
    ⟨spender, amount, _, rfl⟩ := run_cases 0 h
  · exact hk.move hmove
  · exact (hk.spend _ _ _).move (ERC20.canMove_spend.mpr hmove)
  · exact hk.allow _ _ _

theorem run_totalSupply (h : c.run (ε := ε) msgSender k = .ok (b, k')) :
    k'._totalSupply = k._totalSupply := by
  obtain ⟨dst, amount, _, _, rfl⟩ | ⟨src, dst, amount, _, _, _, rfl⟩ |
    ⟨spender, amount, _, rfl⟩ := run_cases 0 h <;> simp

theorem run_noAllowance (hno : k.NoAllowance holder) (hne : msgSender ≠ holder)
    (h : c.run (ε := ε) msgSender k = .ok (b, k')) : k'.NoAllowance holder := by
  obtain ⟨dst, amount, _, _, rfl⟩ | ⟨src, dst, amount, _, hspend, _, rfl⟩ |
    ⟨spender, amount, _, rfl⟩ := run_cases holder h
  · exact hno
  · exact hno.spend hspend
  · exact hno.allow hne

/-- A holder that makes no call and approved nobody only ever receives. -/
theorem run_balance (hk : k.WellFormed) (hno : k.NoAllowance holder)
    (hne : msgSender ≠ holder) (h : c.run (ε := ε) msgSender k = .ok (b, k')) :
    (k'._balances holder).toNat = (k._balances holder).toNat + c.sentTo holder := by
  obtain ⟨dst, amount, rfl, hmove, rfl⟩ | ⟨src, dst, amount, rfl, hspend, hmove, rfl⟩ |
    ⟨spender, amount, hsent, rfl⟩ := run_cases holder h
  · have hmoved := hk.toNat_move hmove holder
    simpa [sentTo, hne.symm, eq_comm] using hmoved
  · have hmoved := (hk.spend src msgSender amount).toNat_move
      (ERC20.canMove_spend.mpr hmove) holder
    rw [ERC20.spend_balances] at hmoved
    by_cases hsrc : holder = src
    · subst hsrc
      -- the holder's own tokens: only a transfer of nothing is covered
      have hzero := hno.spent_eq_zero hspend
      simpa [sentTo, hzero] using hmoved
    · simpa [sentTo, hsrc, eq_comm] using hmoved
  · simp [hsent]

end ERC20Call

end DefiStablecoin.OpenZeppelin
