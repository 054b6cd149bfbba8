import DefiStablecoin.System.Invariants

/-!
# The debt ledger and the token supply

The engine mints stablecoins only against recorded debt and burns them only
together with it.  The stablecoin's own `burn` is reserved to its owner, but the
`burnFrom` that it inherits is not: each use of it destroys stablecoins whose
debt stays recorded.
-/

namespace DefiStablecoin.Deployment

open Solidity OpenZeppelin DSCEngine World

variable {d : Deployment} {w : World} {a : Action d}

/-- Somebody burns stablecoins by `burnFrom`, and balance and allowance cover it. -/
def StrayBurn (w : World) (a : Action d) : Prop :=
  ∃ msgSender account amount, a = .dsc msgSender (.burnFrom account amount) ∧
    amount ≠ 0 ∧ account ≠ 0 ∧
    ERC20.CanSpend account msgSender amount (w.token w.i_dsc) ∧
    amount.toNat ≤ ((w.token w.i_dsc)._balances account).toNat

theorem tx_burnFrom_eq_ok {msgSender : d.Account} {account : Address} {amount : UInt256}
    {r : Unit × World} :
    (Action.dsc msgSender (.burnFrom account amount)).tx w = .ok r ↔
      ERC20.CanSpend account msgSender amount (w.token w.i_dsc) ∧ account ≠ 0 ∧
      amount.toNat ≤ ((w.token w.i_dsc)._balances account).toNat ∧
      r.2 = w.setToken w.i_dsc
        (((w.token w.i_dsc).spend account msgSender amount).destroy account amount) := by
  simp only [Action.tx, callDsc_eq_ok, DecentralizedStableCoin.Call.run, except_bind_eq_ok,
    ERC20.burnFrom_eq_ok, except_pure_eq_ok]
  constructor
  · rintro ⟨_, ⟨k, ⟨hspend, hne, hcover, rfl⟩, rfl⟩, heq⟩
    exact ⟨hspend, hne, hcover, heq⟩
  · rintro ⟨hspend, hne, hcover, heq⟩
    exact ⟨_, ⟨_, ⟨hspend, hne, hcover, rfl⟩, rfl⟩, heq⟩

theorem whenReturns_burns_eq_zero : whenReturns burns w a = 0 ↔ ¬StrayBurn w a := by
  have hreturns : whenReturns burns w a = 0 ↔ ∀ r, a.tx w = .ok r → burns a = 0 := by
    unfold whenReturns
    cases a.tx w <;> simp
  rw [hreturns]
  constructor
  · rintro h ⟨msgSender, account, amount, rfl, hpos, hne, hspend, hcover⟩
    have hok := tx_burnFrom_eq_ok (r := ((), _)).mpr ⟨hspend, hne, hcover, rfl⟩
    exact hpos (toNat_eq_zero.mp (h _ hok))
  · intro h r hok
    unfold burns
    split
    · next msgSender account amount =>
        obtain ⟨hspend, hne, hcover, _⟩ := tx_burnFrom_eq_ok.mp hok
        by_contra hpos
        exact h ⟨msgSender, account, amount, rfl, fun hzero => hpos (toNat_eq_zero.mpr hzero),
          hne, hspend, hcover⟩
    · rfl

/-- **The debts equal the supply in every state that a run reaches exactly when no
action of the run is a stray burn.** -/
theorem debts_eq_supply_iff (d : Deployment) (actions : List (Action d)) :
    (∀ reached, reached <+: actions → (d.run reached).debts = (d.run reached).supply) ↔
      Machine.Along d.step (fun w a => ¬StrayBurn w a) d.genesis actions := by
  have hburned : ∀ reached, (d.run reached).debts = (d.run reached).supply ↔
      Machine.Along d.step (fun w a => ¬StrayBurn w a) d.genesis reached := by
    intro reached
    have hdebts := d.debts_run reached
    simp only [← whenReturns_burns_eq_zero, ← Machine.charge_eq_zero]
    unfold burnedDirectly at hdebts
    omega
  constructor
  · intro h
    exact (hburned actions).mp (h actions List.prefix_rfl)
  · rintro h reached ⟨rest, rfl⟩
    exact (hburned reached).mpr (Machine.along_append.mp h).1

/-- A user opens a position and burns some of its stablecoins under its own allowance. -/
def strayRun : List (Action anvil) :=
  openPosition USER (10 * 10 ^ 18) (100 * 10 ^ 18) ++
    [.dsc USER (.erc20 (.approve USER (40 * 10 ^ 18))),
      .dsc USER (.burnFrom USER (40 * 10 ^ 18))]

/-- The user alone then owes more stablecoins than there are. -/
theorem debts_ne_supply_strayRun : (anvil.run strayRun).debts ≠ (anvil.run strayRun).supply := by
  have hlt : (anvil.run strayRun).supply < ((anvil.run strayRun).s_DSCMinted USER).toNat := by
    decide
  exact (hlt.trans_le (toNat_le_total _ _)).ne'

end DefiStablecoin.Deployment
