import DefiStablecoin.Proofs.Wallets
import DefiStablecoin.System.Invariants

/-!
# Who can send a transaction

What holds of every run may let any account but the engine make a call.  Where
something is to be possible, calls must come from users: the contracts of the
deployment run their own code only, and no code of theirs passes a token on but the
engine's.  What they hold of a token is stuck with them.
-/

namespace DefiStablecoin.OpenZeppelin.ERC20

open Solidity

/-- The holder has been sent `n`, and lets nobody spend anything. -/
structure Received (holder : Address) (n : ℕ) (k k' : ERC20) : Prop where
  balance_eq : (k'._balances holder).toNat = (k._balances holder).toNat + n
  noAllowance : k'.NoAllowance holder

variable {k k' : ERC20} {holder account spender : Address} {amount : UInt256}

theorem NoAllowance.received (hno : k.NoAllowance holder) : Received holder 0 k k := ⟨rfl, hno⟩

theorem received_call {ε : Type} [SolidityError ε] {msgSender : Address} {c : ERC20Call}
    {success : Bool} (hk : k.WellFormed) (hno : k.NoAllowance holder) (hne : msgSender ≠ holder)
    (h : c.run (ε := ε) msgSender k = .ok (success, k')) :
    Received holder (c.sentTo holder) k k' :=
  ⟨ERC20Call.run_balance hk hno hne h, ERC20Call.run_noAllowance hno hne h⟩

theorem received_burnFrom (hno : k.NoAllowance holder)
    (hspend : CanSpend account spender amount k) :
    Received holder 0 k ((k.spend account spender amount).destroy account amount) := by
  refine ⟨?_, hno.spend hspend⟩
  by_cases haccount : holder = account
  · subst haccount
    have hzero : amount = 0 := toNat_eq_zero.mp (hno.spent_eq_zero hspend)
    simp [destroy, hzero]
  · simp [destroy, haccount]

theorem received_issue (hk : k.WellFormed) (hno : k.NoAllowance holder)
    (hfits : k._totalSupply.toNat + amount.toNat < 2 ^ 256) (account : Address) :
    Received holder (if account = holder then amount.toNat else 0) k (k.issue account amount) := by
  refine ⟨?_, hno⟩
  by_cases haccount : account = holder
  · subst haccount
    have hle := hk.balance_le_supply account
    have hadd := BitVec.toNat_add_of_lt (x := k._balances account) (y := amount) (by omega)
    simpa [issue] using hadd
  · simp [issue, haccount, Ne.symm haccount]

end DefiStablecoin.OpenZeppelin.ERC20

namespace DefiStablecoin.Deployment

open Solidity OpenZeppelin DSCEngine World

variable {d : Deployment} {w w' : World} {a : Action d} {u : Unit} {holder t : Address}

def actor : Action d → Option Address
  | .engine msgSender _ => some msgSender
  | .dsc msgSender _ => some msgSender
  | .token _ msgSender _ => some msgSender
  | _ => none

/-! ## Holders that make no call -/

/-- What relates one token contract to its successor, where one of them has changed. -/
theorem rel_setToken {R : ERC20 → ERC20 → Prop} {token : Address} {k : ERC20}
    (hsame : t ≠ token → R (w.token t) (w.token t)) (h : t = token → R (w.token t) k) :
    R (w.token t) ((w.setToken token k).token t) := by
  by_cases ht : t = token
  · have hchanged := h ht
    subst ht
    rwa [setToken_token_self]
  · rw [setToken_token, Function.update_of_ne ht]
    exact hsame ht

theorem received_setToken {token : Address} {k : ERC20} {n : ℕ}
    (hno : (w.token t).NoAllowance holder)
    (h : t = token → (w.token t).Received holder n k) :
    (w.token t).Received holder (if t = token then n else 0) ((w.setToken token k).token t) :=
  rel_setToken (fun ht => (if_neg ht).symm ▸ hno.received) fun ht => (if_pos ht).symm ▸ h ht

/-- **Who makes no call and has approved nobody only ever receives.** -/
theorem received_tx (h : d.Sound w) (hpassive : actor a ≠ some holder)
    (hengine : holder ≠ d.dscEngine) (hno : (w.token t).NoAllowance holder)
    (hok : a.tx w = .ok (u, w')) :
    (w.token t).Received holder (sendsTo holder t a) (w'.token t) := by
  have hwellFormed := h.tokens.wellFormed t
  have hcaller : ∀ {msgSender : d.Account}, actor a = some msgSender.val →
      msgSender.val ≠ holder := fun hactor heq => hpassive (hactor.trans (congrArg some heq))
  cases a with
  | engine msgSender c =>
      have hsame := (run_moves h.status_eq hok).sameWallet (hcaller rfl).symm
        (h.this_eq ▸ hengine)
      exact ⟨congrArg BitVec.toNat (hsame.balance_eq t), fun s =>
        (congrFun (hsame.allowance_eq t) s).trans (hno s)⟩
  | dsc msgSender c =>
      obtain ⟨call, b, k, rfl, hrun, rfl⟩ | ⟨account, amount, rfl, hspend, _, _, rfl⟩ :=
        callDsc_cases (h.ne_owner msgSender) hok
      · have hsent : sendsTo holder t (.dsc msgSender (.erc20 call)) =
            if t = w.i_dsc then call.sentTo holder else 0 := by rw [h.dsc_eq]; rfl
        rw [hsent]
        apply received_setToken hno
        intro ht
        subst ht
        exact ERC20.received_call hwellFormed hno (hcaller rfl) hrun
      · have hburned : t = w.i_dsc → (w.token t).Received holder 0
            (((w.token w.i_dsc).spend account msgSender amount).destroy account amount) := by
          intro ht
          subst ht
          exact ERC20.received_burnFrom hno hspend
        have hreceived := received_setToken hno hburned
        rwa [ite_self] at hreceived
  | token token msgSender c =>
      obtain ⟨b, k, hrun, rfl⟩ := tx_token_eq_ok.mp hok
      apply received_setToken hno
      intro ht
      subst ht
      exact ERC20.received_call hwellFormed hno (hcaller rfl) hrun
  | issueToken token account amount =>
      obtain ⟨_, hfits, rfl⟩ := tx_issueToken_eq_ok.mp hok
      apply received_setToken hno
      intro ht
      subst ht
      exact ERC20.received_issue hwellFormed hno hfits account
  | oracle feed =>
      cases Tx.store_eq_ok.mp hok
      exact hno.received
  | warp timestamp =>
      cases Tx.store_eq_ok.mp hok
      exact hno.received

theorem received_step (h : d.Sound w) (hpassive : actor a ≠ some holder)
    (hengine : holder ≠ d.dscEngine) (hno : (w.token t).NoAllowance holder) :
    (w.token t).Received holder (whenReturns (sendsTo holder t) w a)
      ((d.step w a).token t) := by
  unfold step Tx.attempt whenReturns
  cases hok : a.tx w with
  | error e => exact hno.received
  | ok r => exact received_tx h hpassive hengine hno hok

/-! ## Users and contracts -/

def contracts (d : Deployment) : Finset Address :=
  (d.dsc :: d.dscEngine :: (d.s_tokenAddresses ++ d.s_priceFeedAddresses)).toFinset

/-- An account that transactions of its own can come from. -/
structure IsUser (d : Deployment) (account : Address) : Prop where
  ne_zero : account ≠ 0
  not_mem : account ∉ d.contracts

theorem dscEngine_mem_contracts : d.dscEngine ∈ d.contracts := by
  simp [contracts]

theorem IsUser.ne_engine (h : d.IsUser holder) : holder ≠ d.dscEngine := fun heq =>
  h.not_mem (heq ▸ dscEngine_mem_contracts)

def ByUser (a : Action d) : Prop := ∀ account, actor a = some account → d.IsUser account

theorem ByUser.passive (h : ByUser a) (hholder : holder ∈ d.contracts) :
    actor a ≠ some holder := fun hactor => (h holder hactor).not_mem hholder

/-! ## What is stuck -/

def stuck (d : Deployment) (t : Address) (w : World) : ℕ :=
  ∑ c ∈ d.contracts, ((w.token t)._balances c).toNat

def Idle (d : Deployment) (t : Address) (w : World) : Prop :=
  ∀ c ∈ d.contracts, (w.token t).NoAllowance c

def sendsToContracts (t : Address) (a : Action d) : ℕ := ∑ c ∈ d.contracts, sendsTo c t a

theorem stuck_eq (h : d.Sound w) (t : Address) :
    d.stuck t w = w.holdings t +
      ∑ c ∈ d.contracts.erase d.dscEngine, ((w.token t)._balances c).toNat := by
  unfold stuck holdings
  rw [← Finset.add_sum_erase _ _ dscEngine_mem_contracts, h.this_eq]

theorem stuck_add_balance_le (h : d.Sound w) (hholder : holder ∉ d.contracts) (t : Address) :
    d.stuck t w + ((w.token t)._balances holder).toNat ≤ (w.token t)._totalSupply.toNat := by
  have hsum : ∑ c ∈ insert holder d.contracts, ((w.token t)._balances c).toNat =
      ((w.token t)._balances holder).toNat + d.stuck t w := Finset.sum_insert hholder
  rw [← (h.tokens.wellFormed t).supply_eq, Nat.add_comm, ← hsum]
  exact Finset.sum_le_univ_sum_of_nonneg fun _ => Nat.zero_le _

theorem stuck_le_supply (h : d.Sound w) (t : Address) :
    d.stuck t w ≤ (w.token t)._totalSupply.toNat := by
  rw [← (h.tokens.wellFormed t).supply_eq]
  exact Finset.sum_le_univ_sum_of_nonneg fun _ => Nat.zero_le _

theorem idle_step (h : d.Sound w) (ha : ByUser a) (hidle : d.Idle t w) :
    d.Idle t (d.step w a) := by
  intro c hc
  by_cases hengine : c = d.dscEngine
  · have hsound := sound_step h a
    rw [hengine, ← hsound.this_eq]
    exact hsound.tokens.noAllowance t
  · exact (received_step h (ha.passive hc) hengine (hidle c hc)).noAllowance

theorem stuck_step (h : d.Sound w) (ha : ByUser a) (hidle : d.Idle t w) :
    d.stuck t (d.step w a) + w.deposits t =
      d.stuck t w + (d.step w a).deposits t + whenReturns (sendsToContracts t) w a := by
  have hbalance := (balance_step h a t).1
  have hothers : ∑ c ∈ d.contracts.erase d.dscEngine, (((d.step w a).token t)._balances c).toNat =
      ∑ c ∈ d.contracts.erase d.dscEngine, ((w.token t)._balances c).toNat +
        ∑ c ∈ d.contracts.erase d.dscEngine, whenReturns (sendsTo c t) w a := by
    rw [← Finset.sum_add_distrib]
    apply Finset.sum_congr rfl
    intro c hc
    obtain ⟨hengine, hmem⟩ := Finset.mem_erase.mp hc
    exact (received_step h (ha.passive hmem) hengine (hidle c hmem)).balance_eq
  have hcost : whenReturns (sendsToContracts t) w a = whenReturns (sends t) w a +
      ∑ c ∈ d.contracts.erase d.dscEngine, whenReturns (sendsTo c t) w a := by
    unfold whenReturns
    cases a.tx w with
    | error e => simp
    | ok r => exact (Finset.add_sum_erase _ _ dscEngine_mem_contracts).symm
  rw [stuck_eq h, stuck_eq (sound_step h a), hothers, hcost]
  omega

/-- What was sent to the contracts, before the deployment and along a run, other than by
the engine's own calls. -/
def sentToContracts (d : Deployment) (t : Address) (actions : List (Action d)) : ℕ :=
  d.stuck t d.genesis + Machine.charge d.step (whenReturns (sendsToContracts t)) d.genesis actions

theorem idle_run {actions : List (Action d)} (husers : ∀ a ∈ actions, ByUser a)
    (hidle : d.Idle t d.genesis) : d.Idle t (d.run actions) :=
  (Machine.run_invariant_along (I := fun w => d.Sound w ∧ d.Idle t w)
    (fun _ a h ha => ⟨sound_step h.1 a, idle_step h.1 ha h.2⟩) ⟨sound_genesis, hidle⟩
    (Machine.along_of_forall_mem fun a ha _ => husers a ha)).2

/-- **What is stuck is what is deposited and what was sent to the contracts directly.** -/
theorem stuck_run {actions : List (Action d)} (husers : ∀ a ∈ actions, ByUser a)
    (hidle : d.Idle t d.genesis) :
    d.stuck t (d.run actions) = (d.run actions).deposits t + d.sentToContracts t actions := by
  have hbalance := Machine.run_balance_along (I := fun w => d.Sound w ∧ d.Idle t w)
    (d.stuck t) (fun w => w.deposits t)
    (fun _ a h ha => ⟨sound_step h.1 a, idle_step h.1 ha h.2⟩)
    (fun _ a h ha => stuck_step h.1 ha h.2) ⟨sound_genesis, hidle⟩
    (Machine.along_of_forall_mem fun a ha _ => husers a ha)
  rw [deposits_genesis] at hbalance
  unfold sentToContracts run
  omega

/-- The stablecoin is new, so nobody has been allowed any. -/
theorem idle_dsc_genesis : d.Idle d.dsc d.genesis := by
  intro c _ spender
  simp [genesis, ERC20.empty]

theorem stuck_dsc_genesis : d.stuck d.dsc d.genesis = 0 := by
  simp [stuck, genesis, ERC20.empty]

end DefiStablecoin.Deployment
