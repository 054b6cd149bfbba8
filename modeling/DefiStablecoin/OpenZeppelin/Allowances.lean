import DefiStablecoin.OpenZeppelin.Calls

/-!
# Spending for somebody else

What others can do to the tokens of a holder that makes no call: they spend what
it allowed them, and no allowance survives being spent.
-/

namespace DefiStablecoin.OpenZeppelin.ERC20

open Solidity

/-- Only the active spenders have spent for the holder, and they paid for it with
their allowances. -/
structure Honours (active : Address → Prop) (holder : Address) (k k' : ERC20) : Prop where
  allowance_eq : ∀ s, ¬active s → k'._allowances holder s = k._allowances holder s
  allowance_le : ∀ s, (k'._allowances holder s).toNat ≤ (k._allowances holder s).toNat
  spent_le : (k._balances holder).toNat + total (k'._allowances holder) ≤
    (k'._balances holder).toNat + total (k._allowances holder)

variable {active active' : Address → Prop} {k k' k'' : ERC20}
  {holder spender src dst account msgSender : Address} {amount : UInt256}

namespace Honours

theorem of_le (hallowance : k'._allowances holder = k._allowances holder)
    (hbalance : (k._balances holder).toNat ≤ (k'._balances holder).toNat) :
    Honours active holder k k' where
  allowance_eq s _ := congrFun hallowance s
  allowance_le s := (congrArg BitVec.toNat (congrFun hallowance s)).le
  spent_le := by
    rw [hallowance]
    omega

theorem refl : Honours active holder k k := of_le rfl le_rfl

theorem trans (h : Honours active holder k k') (h' : Honours active holder k' k'') :
    Honours active holder k k'' where
  allowance_eq s hs := (h'.allowance_eq s hs).trans (h.allowance_eq s hs)
  allowance_le s := (h'.allowance_le s).trans (h.allowance_le s)
  spent_le := by
    have hfirst := h.spent_le
    have hsecond := h'.spent_le
    omega

theorem mono (h : Honours active holder k k') (hactive : ∀ s, active s → active' s) :
    Honours active' holder k k' :=
  { h with allowance_eq := fun s hs => h.allowance_eq s fun ha => hs (hactive s ha) }

theorem ne_max (h : Honours active holder k k') {s : Address}
    (hfinite : k._allowances holder s ≠ maxUInt256) : k'._allowances holder s ≠ maxUInt256 := by
  intro hmax
  have hle := h.allowance_le s
  rw [hmax] at hle
  apply hfinite
  have hlt := (k._allowances holder s).isLt
  rw [toNat_maxUInt256] at hle
  apply BitVec.eq_of_toNat_eq
  rw [toNat_maxUInt256]
  omega

theorem spend (hspend : CanSpend holder spender amount k)
    (hfinite : k._allowances holder spender ≠ maxUInt256)
    (hallowance : k'._allowances = (k.spend holder spender amount)._allowances)
    (hbalance : (k._balances holder).toNat ≤ (k'._balances holder).toNat + amount.toNat) :
    Honours (· = spender) holder k k' := by
  have hcover := (hspend.resolve_left hfinite).1
  have hother : ∀ s, s ≠ spender → k'._allowances holder s = k._allowances holder s := by
    intro s hs
    rw [hallowance, ERC20.spend, if_neg hfinite, ERC20.allow]
    simp only [Function.update_self, Function.update_of_ne hs]
  have hleft : (k'._allowances holder spender).toNat + amount.toNat =
      (k._allowances holder spender).toNat := by
    rw [hallowance, ERC20.spend, if_neg hfinite, ERC20.allow]
    simp only [Function.update_self]
    rw [BitVec.toNat_sub_of_le (BitVec.le_def.mpr hcover)]
    omega
  refine ⟨hother, fun s => ?_, ?_⟩
  · by_cases hs : s = spender
    · rw [hs]
      omega
    · rw [hother s hs]
  · have htotal := total_of_eq_off hother
    omega

end Honours

theorem WellFormed.honours_move (hk : k.WellFormed) (hmove : CanMove src dst amount k)
    (hsrc : holder ≠ src) : Honours active holder k (k.move src dst amount) := by
  have hmoved := hk.toNat_move hmove holder
  rw [if_neg hsrc] at hmoved
  exact .of_le rfl (by omega)

theorem WellFormed.honours_issue (hk : k.WellFormed)
    (hfits : k._totalSupply.toNat + amount.toNat < 2 ^ 256) (account : Address) :
    Honours active holder k (k.issue account amount) := by
  refine .of_le rfl ?_
  by_cases haccount : holder = account
  · have hle := hk.balance_le_supply account
    simp only [ERC20.issue, haccount, Function.update_self]
    rw [BitVec.toNat_add_of_lt (by omega)]
    omega
  · simp [ERC20.issue, haccount]

/-- What a spender takes for itself or for others was allowed it. -/
theorem WellFormed.honours_transferFrom (hk : k.WellFormed)
    (hspend : CanSpend src spender amount k) (hmove : CanMove src dst amount k)
    (hfinite : k._allowances holder spender ≠ maxUInt256) :
    Honours (· = spender) holder k ((k.spend src spender amount).move src dst amount) := by
  have hmoved := (hk.spend src spender amount).toNat_move (canMove_spend.mpr hmove) holder
  rw [spend_balances] at hmoved
  by_cases hsrc : holder = src
  · subst hsrc
    rw [if_pos rfl] at hmoved
    exact .spend hspend hfinite rfl (by omega)
  · rw [if_neg hsrc] at hmoved
    exact .of_le (spend_allowances_of_ne amount k hsrc) (by omega)

/-- What a spender burns was allowed it. -/
theorem honours_burnFrom (hspend : CanSpend account spender amount k)
    (hcover : amount.toNat ≤ (k._balances account).toNat)
    (hfinite : k._allowances holder spender ≠ maxUInt256) :
    Honours (· = spender) holder k ((k.spend account spender amount).destroy account amount) := by
  by_cases haccount : holder = account
  · subst haccount
    refine .spend hspend hfinite rfl ?_
    simp only [destroy, spend_balances, Function.update_self]
    rw [BitVec.toNat_sub_of_le (BitVec.le_def.mpr hcover)]
    omega
  · refine .of_le (spend_allowances_of_ne amount k haccount) ?_
    simp [destroy, haccount]

/-- **A call by somebody else honours the holder's allowances.** -/
theorem honours_call {ε : Type} [SolidityError ε] {c : ERC20Call} {success : Bool}
    (hk : k.WellFormed) (hne : holder ≠ msgSender)
    (hfinite : k._allowances holder msgSender ≠ maxUInt256)
    (h : c.run (ε := ε) msgSender k = .ok (success, k')) :
    Honours (· = msgSender) holder k k' := by
  obtain ⟨dst, amount, _, hmove, rfl⟩ | ⟨src, dst, amount, _, hspend, hmove, rfl⟩ |
    ⟨spender, amount, _, rfl⟩ := ERC20Call.run_cases 0 h
  · exact hk.honours_move hmove hne
  · exact hk.honours_transferFrom hspend hmove hfinite
  · exact .of_le (allow_allowances_of_ne amount k hne) le_rfl

end DefiStablecoin.OpenZeppelin.ERC20
